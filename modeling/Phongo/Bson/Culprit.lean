import Mathlib.Tactic.Common
import Phongo.Bson.Diagnosis
import Phongo.Bson.Pending

/-! Whom an error message blames. The field path of every exception of an encoding leads, key by
key, from the value that is encoded to the string, the unsupported value or the table met again
that the message is about. -/
namespace Phongo

def namedFields (fromProperties skipOdmField : Bool) : List (Key × Zval) → List (CString × Zval)
  | [] => []
  | (key,z)::rest =>
    match inspectKey fromProperties skipOdmField key with
    | .skip => namedFields fromProperties skipOdmField rest
    | .abort => []
    | .append name => (name,z)::namedFields fromProperties skipOdmField rest

def returnedFields (skipOdmField : Bool) : Zval → List (CString × Zval)
  | .array _ els => namedFields false skipOdmField els
  | .object _ _ properties _ => namedFields false skipOdmField properties
  | _ => []

/-- The values appended for a root, or for what a Serializable object stands for. -/
def bodyFields : Zval → List (CString × Zval)
  | .array _ els => namedFields false false els
  | .object ce _ properties returned =>
    if ce.isSerializable then returnedFields ce.isPersistable returned
    else namedFields true false properties
  | _ => []

def childFields : Zval → List (CString × Zval)
  | .array _ els => namedFields false false els
  | .object ce _ properties returned =>
    if ce.isSerializable then bodyFields returned else namedFields true false properties
  | _ => []

def Zval.table : Zval → Option ℕ
  | .array ht _ => ht
  | .object _ ht _ _ => ht
  | _ => none

/-- The keys lead from the root to the value, through the tables, which all differ. -/
inductive Leads (data : Zval) : List CString → List ℕ → Zval → Prop
  | root {name : CString} {z : Zval} (h : (name,z) ∈ bodyFields data) : Leads data [name] [] z
  | child {path : List CString} {tables : List ℕ} {z z' : Zval} {name : CString}
      (h : Leads data path tables z) (hfree : ∀ t ∈ z.table, t ∉ tables)
      (hf : (name,z') ∈ childFields z) :
      Leads data (path ++ [name]) (z.table.toList ++ tables) z'
  | reference {path : List CString} {tables : List ℕ} {z : Zval}
      (h : Leads data path tables (.reference z)) : Leads data path tables z

/-- The exception is about this value, met at this path below these tables. -/
inductive Blames (L : Libbson) (path : List CString) (tables : List ℕ) : Zval → Exception → Prop
  | text {s : Bytes} (h : L.utf8Validate s true = false) :
      Blames L path tables (.string s) (invalidText path s)
  | undef {thrown : List ℕ} :
      Blames L path tables (.undef thrown) (unsupportedType path 0 (.undef thrown))
  | resource : Blames L path tables .resource (unsupportedType path 9 .resource)
  | recursion {z : Zval} {t : ℕ} (h : t ∈ z.table) (hopen : t ∈ tables) :
      Blames L path tables z (recursionDetected path)

def Exception.args : Exception → List Arg
  | .phongo _ _ args => args
  | .userland _ => []

/-- Any path of the exception leads to the value it is about. -/
def NamesCulprit (L : Libbson) (data : Zval) (x : Exception) : Prop :=
  ∀ path, .path path ∈ x.args → ∃ tables z, Leads data path tables z ∧ Blames L path tables z x

section
variable {L : Libbson} {U : Userland} {data : Zval} {path : List CString} {tables : List ℕ}
  {eg : Pending}

theorem namesCulprit_of_noPath {x : Exception} (h : ∀ path, .path path ∉ x.args) :
    NamesCulprit L data x := fun path hp => absurd hp (h path)

theorem namesCulprit_of_blames {z : Zval} {x : Exception} (h : Leads data path tables z)
    (hx : Blames L path tables z x) (hpath : ∀ p, .path p ∈ x.args → p = path) :
    NamesCulprit L data x := fun p hp => by
  obtain rfl := hpath p hp
  exact ⟨tables,z,h,hx⟩

theorem Exception.OfDecoding.namesCulprit {x : Exception} (h : x.OfDecoding) :
    NamesCulprit L data x := by
  refine namesCulprit_of_noPath fun path hp => ?_
  cases x with
  | userland id => simp [Exception.args] at hp
  | phongo domain format args =>
    have hkey := h.2 default
    simp only [Exception.under,Exception.phongo.injEq,true_and] at hkey
    have hmap : args.map (Arg.under default) = args.map id := by rw [hkey,List.map_id]
    have hpath : Arg.under default (.path path) = .path path :=
      List.map_inj_left.mp hmap _ hp
    simp [Arg.under] at hpath

/-- What is thrown from a value on that the keys lead to. -/
def Zval.Blamed (L : Libbson) (U : Userland) (z data : Zval) : Prop :=
  (∀ path tables eg, Leads data path tables z →
    ThrowsOf (NamesCulprit L data) eg (diagnose L U tables path eg z)) ∧
  (∀ path tables eg, (∀ f ∈ bodyFields z, Leads data (path ++ [f.1]) tables f.2) →
    ThrowsOf (NamesCulprit L data) eg (diagnoseBody L U tables path eg z)) ∧
  (∀ skip path tables eg, (∀ f ∈ returnedFields skip z, Leads data (path ++ [f.1]) tables f.2) →
    ThrowsOf (NamesCulprit L data) eg (diagnoseReturned L U tables path skip eg z))

def Zval.AllBlamed (L : Libbson) (U : Userland) (data : Zval) (els : List (Key × Zval)) : Prop :=
  ∀ fromProperties skip path tables eg,
    (∀ f ∈ namedFields fromProperties skip els, Leads data (path ++ [f.1]) tables f.2) →
    ThrowsOf (NamesCulprit L data) eg (diagnoseAll L U tables path fromProperties skip eg els)

theorem diagnoseTable_blamed {z : Zval} (h : Leads data path tables z) {inner : List ℕ → Pending}
    (hinner : (∀ t ∈ z.table, t ∉ tables) →
      ThrowsOf (NamesCulprit L data) eg (inner (z.table.toList ++ tables))) :
    ThrowsOf (NamesCulprit L data) eg (diagnoseTable tables path eg z.table inner) := by
  unfold diagnoseTable
  by_cases hfree : ∀ t ∈ z.table, t ∉ tables
  · rw [if_pos hfree]
    exact hinner hfree
  · rw [if_neg hfree]
    have hmet : ∃ t ∈ z.table, t ∈ tables := by
      by_contra hn
      exact hfree fun t ht hm => hn ⟨t,ht,hm⟩
    obtain ⟨t,ht,hm⟩ := hmet
    refine ThrowsOf.single (namesCulprit_of_blames h (.recursion ht hm) fun p hp => ?_) eg
    simpa [recursionDetected,Exception.args] using hp

theorem diagnoseCall_blamed (ce : ClassEntry) {returned : Zval} {inner : Pending}
    (hinner : ThrowsOf (NamesCulprit L data) eg inner) :
    ThrowsOf (NamesCulprit L data) eg (diagnoseCall ce returned eg inner) := by
  unfold diagnoseCall
  by_cases hnil : eg = []
  · subst hnil
    have hreturn : ThrowsOf (NamesCulprit L data) []
        (if returned.isArrayOrStdClass then inner else [unusableReturn ce returned]) := by
      split
      · exact hinner
      · exact ThrowsOf.single (namesCulprit_of_noPath (by simp [unusableReturn,Exception.args])) []
    cases returned with
    | undef thrown =>
      exact ThrowsOf.userland (fun id => namesCulprit_of_noPath (by simp [Exception.args])) thrown
    | _ => exact hreturn
  · rw [if_neg hnil]
    exact ThrowsOf.refl eg

theorem leaf_blamed {z : Zval} (hl : z.IsLeaf) : z.Blamed L U data := by
  refine ⟨fun path tables eg h => ?_,fun path tables eg _ => ?_,fun skip path tables eg _ => ?_⟩
  · cases z with
    | array | object | reference => exact hl.elim
    | undef thrown =>
      refine ThrowsOf.single (namesCulprit_of_blames h .undef fun p hp => ?_) eg
      simpa [unsupportedType,Exception.args] using hp
    | resource =>
      refine ThrowsOf.single (namesCulprit_of_blames h .resource fun p hp => ?_) eg
      simpa [unsupportedType,Exception.args] using hp
    | string s =>
      rw [diagnose]
      split
      · exact ThrowsOf.refl eg
      · rename_i hs
        refine ThrowsOf.single (namesCulprit_of_blames h (.text (by simpa using hs))
          fun p hp => ?_) eg
        simpa [invalidText,Exception.args] using hp
    | bson obj =>
      rw [diagnose]
      unfold hashOfBson
      split
      · exact (decodes_bsonToZvalEx _ _ eg).mono fun x hx => hx.namesCulprit
      · exact ThrowsOf.refl eg
    | _ => exact ThrowsOf.refl eg
  · cases z with
    | array | object | reference => exact hl.elim
    | bson obj =>
      exact ThrowsOf.single (namesCulprit_of_noPath (by simp [unusableRoot,Exception.args])) eg
    | _ => exact ThrowsOf.refl eg
  · cases z with
    | array | object | reference => exact hl.elim
    | _ => exact ThrowsOf.refl eg

theorem array_blamed (ht : Option ℕ) {els : List (Key × Zval)} (ih : Zval.AllBlamed L U data els) :
    (Zval.array ht els).Blamed L U data := by
  refine ⟨fun path tables eg h => ?_,fun path tables eg h => ih false false path tables eg h,
    fun skip path tables eg h => ih false skip path tables eg h⟩
  refine diagnoseTable_blamed (z:=.array ht els) h fun hfree => ?_
  exact ih false false path _ eg fun f hf => .child h hfree hf

theorem object_blamed (ce : ClassEntry) (ht : Option ℕ) {properties : List (Key × Zval)}
    {returned : Zval} (ihp : Zval.AllBlamed L U data properties)
    (ihr : returned.Blamed L U data) :
    (Zval.object ce ht properties returned).Blamed L U data := by
  obtain ⟨-,hbody,hreturned⟩ := ihr
  refine ⟨fun path tables eg h => ?_,fun path tables eg h => ?_,
    fun skip path tables eg h => ihp false skip path tables eg h⟩
  · refine diagnoseTable_blamed (z:=.object ce ht properties returned) h fun hfree => ?_
    have hchild : ∀ f ∈ childFields (.object ce ht properties returned),
        Leads data (path ++ [f.1]) (ht.toList ++ tables) f.2 := fun f hf => .child h hfree hf
    rw [childFields] at hchild
    cases hser : ce.isSerializable with
    | true =>
      simp only [hser,if_true] at hchild ⊢
      exact diagnoseCall_blamed ce (hbody path _ eg hchild)
    | false =>
      simp only [hser,Bool.false_eq_true,if_false] at hchild ⊢
      split
      · exact ThrowsOf.single (namesCulprit_of_noPath (by simp [unexpectedType,Exception.args])) eg
      · exact ihp true false path _ eg hchild
  · rw [bodyFields] at h
    rw [diagnoseBody]
    cases hser : ce.isSerializable with
    | true =>
      simp only [hser,if_true] at h ⊢
      exact diagnoseCall_blamed ce (hreturned ce.isPersistable path tables eg h)
    | false =>
      simp only [hser,Bool.false_eq_true,if_false] at h ⊢
      split
      · exact ThrowsOf.single (namesCulprit_of_noPath (by simp [unusableRoot,Exception.args])) eg
      · exact ihp true false path tables eg h

theorem cons_blamed {key : Key} {z : Zval} {rest : List (Key × Zval)}
    (ihz : z.Blamed L U data) (ihr : Zval.AllBlamed L U data rest) :
    Zval.AllBlamed L U data ((key,z)::rest) := by
  intro fromProperties skip path tables eg h
  rw [namedFields] at h
  rw [diagnoseAll]
  cases hk : inspectKey fromProperties skip key with
  | skip =>
    simp only [hk] at h ⊢
    exact ihr fromProperties skip path tables eg h
  | abort =>
    exact ThrowsOf.single (namesCulprit_of_noPath (by simp [nulInKey,Exception.args])) eg
  | append name =>
    simp only [hk] at h ⊢
    obtain ⟨hz,hrest⟩ := List.forall_mem_cons.mp h
    exact (ihz.1 _ tables eg hz).trans (ihr fromProperties skip path tables _ hrest)

theorem all_blamed (L : Libbson) (U : Userland) (data : Zval) :
    (∀ z, Zval.Blamed L U z data) ∧ (∀ els, Zval.AllBlamed L U data els) := by
  refine Zval.induction ?leaf ?array ?object ?reference ?nil ?cons
  case leaf => exact fun z hl => leaf_blamed hl
  case array => exact fun ht els ih => array_blamed ht ih
  case object => exact fun ce ht _ _ ihp ihr => object_blamed ce ht ihp ihr
  case reference =>
    intro z ih
    exact ⟨fun path tables eg h => ih.1 path tables eg (.reference h),
      fun _ _ eg _ => ThrowsOf.refl eg,fun _ _ _ eg _ => ThrowsOf.refl eg⟩
  case nil => exact fun _ _ _ _ eg _ => ThrowsOf.refl eg
  case cons => exact fun key z rest ihz ihr => cons_blamed ihz ihr

end

/-- An encoding throws exactly what is diagnosed without a stack, in that order and on top of what
was pending, and every path in a message leads from the data to the value the message is about. -/
theorem encoding_namesCulprits (L : Libbson) (U : Userland) (data : Zval) (flags : Flags)
    (eg : Pending) :
    (zvalToBson L U data flags eg).2.2 = diagnoseBody L U [] [] eg data ∧
      ThrowsOf (NamesCulprit L data) eg (zvalToBson L U data flags eg).2.2 := by
  have heg := exceptions_zvalToBson L U data flags eg
  refine ⟨heg,?_⟩
  rw [heg]
  exact ((all_blamed L U data).1 data).2.1 [] [] eg fun f hf => .root hf

/-- Two culprits in one document: a string below a list, and a list that holds itself. -/
example : (zvalToBson .ascii (.keeping .person) (.array none [
    (.str (ascii "a"),.array none [(.int 0,.null),(.int 1,.string [255])]),
    (.str (ascii "b"),.array (some 1) [(.int 0,.array (some 1) [])])]) .none []).2.2 =
    [recursionDetected [.lit "b",.lit "0"],invalidText [.lit "a",.lit "1"] [255]] := by
  decide

end Phongo
