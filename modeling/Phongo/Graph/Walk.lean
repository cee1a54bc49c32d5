import Mathlib.Tactic.Common
import Phongo.Graph.Agenda
import Phongo.Graph.Depth

/-! The encoder follows the agenda of what it encodes: it meets the values that a walk comes to,
and decodes the scopes of the Javascript objects among them. -/
namespace Phongo
open Walking
namespace Graph
variable {T O R V α β : Type}

def meetings (h : PhpHeap T O R) (L : Libbson) (arrivals : List (Arrival (HeapValue T O))) :
    List (Meeting T O) :=
  (arrivals.filter fun c => ! c.value.isPlain).map fun c => ⟨c.around,c.value,tableOf h L c.value⟩

/-- Some path that is rendered in decoding scopes is out of bounds only, and if the application
is silent also always, where a walk has come to a scope that overruns before anything failed. -/
structure ScopesRendered (h : PhpHeap T O R) (L : Libbson) (U : Userland) (paths : List FieldPath)
    (arrivals : List (Arrival (HeapValue T O))) : Prop where
  arrived : (∃ fp ∈ paths, ¬ fp.InBounds) →
    ∃ c ∈ arrivals, c.pending = false ∧ ScopeOverruns h L c.value
  rendered : U.Silent → (∃ c ∈ arrivals, c.pending = false ∧ ScopeOverruns h L c.value) →
    ∃ fp ∈ paths, ¬ fp.InBounds

structure Setting (T O R : Type) where
  heap : PhpHeap T O R
  libbson : Libbson
  userland : Userland
  protects : Bool
  recursive : List T

abbrev Visiting (T O : Type) := HeapValue T O → Walker (HeapValue T O) → Walker (HeapValue T O)

namespace Setting
variable (X : Setting T O R)

/-- What an encoding inside of these values shares with a walker while there is fuel. -/
structure Level (inside : List (HeapValue T O)) (e : GraphEncoder T O)
    (s : Walker (HeapValue T O)) : Prop where
  around : e.around = inside
  flags : e.recursive = flagged X.heap X.libbson X.protects X.recursive inside
  pending : s.pending = true ↔ e.output.exceptions ≠ []
  scopes : ScopesRendered X.heap X.libbson X.userland e.output.scopePaths s.arrivals

/-- The encoder and the walker have come as far. -/
structure Abreast (around : List (HeapValue T O)) (e : GraphEncoder T O)
    (s : Walker (HeapValue T O)) : Prop where
  ranOut : e.ranOut = s.ranOut
  met : e.met = meetings X.heap X.libbson s.arrivals
  level : s.ranOut = false → X.Level around e s

/-- The step does what `agenda` puts in front of the rest. -/
def Tours (visit : Visiting T O) (around : List (HeapValue T O)) (f : Encode T O α)
    (agenda : Agenda (HeapValue T O) → Agenda (HeapValue T O)) : Prop :=
  ∀ e s, X.Abreast around e s → ∃ s', X.Abreast around (f e).2 s' ∧
    ∀ rest, follow visit (agenda rest) s = follow visit rest s'

def Walks (visit : Visiting T O) (around : List (HeapValue T O)) (f : Encode T O α)
    (agenda : Agenda (HeapValue T O)) : Prop :=
  ∀ e s, X.Abreast around e s → X.Abreast around (f e).2 (follow visit agenda s)

end Setting

namespace Setting
section Steps
variable {X : Setting T O R} {visit : Visiting T O} {around : List (HeapValue T O)}
  {e : GraphEncoder T O} {s : Walker (HeapValue T O)}

theorem Abreast.withPath (habreast : X.Abreast around e s)
    (fp : FieldPath) : X.Abreast around { e with fieldPath := fp } s :=
  ⟨habreast.ranOut,habreast.met,fun hs =>
    have hlevel := habreast.level hs
    ⟨hlevel.around,hlevel.flags,hlevel.pending,hlevel.scopes⟩⟩

theorem Abreast.throws (habreast : X.Abreast around e s) (out : Output)
    (hne : out.exceptions ≠ []) (hpaths : out.scopePaths = e.output.scopePaths)
    (paths : List FieldPath) : X.Abreast around
      { e with output := out, rendered := paths } { s with pending := true } :=
  ⟨habreast.ranOut,habreast.met,fun hs =>
    have hlevel := habreast.level hs
    ⟨hlevel.around,hlevel.flags,iff_of_true rfl hne,hpaths ▸ hlevel.scopes⟩⟩

theorem Tours.pure (a : α) :
    X.Tours visit around (Pure.pure a : Encode T O α) id :=
  fun _ s habreast => ⟨s,habreast,fun _ => rfl⟩

theorem Tours.bind {f : Encode T O α} {g : α → Encode T O β}
    {k k' : Agenda (HeapValue T O) → Agenda (HeapValue T O)}
    (hf : X.Tours visit around f k)
    (hg : ∀ a, X.Tours visit around (g a) k') :
    X.Tours visit around (f >>= g) (k ∘ k') := by
  intro e s habreast
  obtain ⟨s',habreast',hfollow⟩ := hf e s habreast
  obtain ⟨s'',habreast'',hfollow'⟩ := hg (f e).1 (f e).2 s' habreast'
  exact ⟨s'',habreast'',fun rest => (hfollow (k' rest)).trans (hfollow' rest)⟩

theorem Tours.map {f : Encode T O α} {g : α → β}
    {k : Agenda (HeapValue T O) → Agenda (HeapValue T O)}
    (hf : X.Tours visit around f k) :
    X.Tours visit around (do let a ← f; return g a) k :=
  hf.bind fun a => Tours.pure (g a)

theorem Tours.element {f : Encode T O Doc} (key : CString)
    {k : Agenda (HeapValue T O) → Agenda (HeapValue T O)}
    (hf : X.Tours visit around f k) :
    X.Tours visit around (element key f) k :=
  fun _ s habreast => hf _ s (habreast.withPath _)

theorem Tours.nested {f : Encode T O Doc} (type : ItemType)
    {k : Agenda (HeapValue T O) → Agenda (HeapValue T O)}
    (hf : X.Tours visit around f k) :
    X.Tours visit around (nested type f) k := by
  intro e s habreast
  obtain ⟨s',habreast',hfollow⟩ := hf _ s
    (habreast.withPath (e.fieldPath.writeTypeAtCurrentLevel type).enter)
  exact ⟨s',habreast'.withPath _,hfollow⟩

theorem Tours.throw (format : String) (args : List Arg) :
    X.Tours visit around (throw format args) .throws :=
  fun e s habreast => ⟨{ s with pending := true },
    habreast.throws (Output.throw format args e.output) (List.cons_ne_nil _ _) rfl e.rendered,
    fun _ => rfl⟩

theorem Tours.throwAt (format : String) (args : List Arg) :
    X.Tours visit around (throwAt format args) .throws :=
  fun e s habreast => ⟨{ s with pending := true },
    habreast.throws (Output.throw format (.path e.fieldPath.asString::args) e.output)
      (List.cons_ne_nil _ _) rfl (e.rendered ++ [e.fieldPath]),fun _ => rfl⟩

theorem Tours.silent {f : Output → α × Output}
    (hf : ∀ out, (f out).2.exceptions = out.exceptions ∧ (f out).2.scopePaths = out.scopePaths) :
    X.Tours visit around (onOutput f) id := by
  intro e s habreast
  obtain ⟨hexceptions,hpaths⟩ := hf e.output
  refine ⟨s,⟨habreast.ranOut,habreast.met,fun hs => ?_⟩,fun _ => rfl⟩
  have hlevel := habreast.level hs
  refine ⟨hlevel.around,hlevel.flags,?_,?_⟩
  · show s.pending = true ↔ (f e.output).2.exceptions ≠ []
    rw [hexceptions]
    exact hlevel.pending
  · show ScopesRendered X.heap X.libbson X.userland (f e.output).2.scopePaths s.arrivals
    rw [hpaths]
    exact hlevel.scopes

theorem Tours.finishFields (returnId : Bool) (r : LoopEnd) :
    X.Tours visit around (finishFields X.libbson returnId r) id := by
  refine Tours.silent fun out => ?_
  dsimp only
  split <;> split <;> exact ⟨rfl,rfl⟩

theorem Tours.closeFields {loop : Loop T O}
    {k : Agenda (HeapValue T O) → Agenda (HeapValue T O)} (flags : Flags)
    (hloop : ∀ addId, X.Tours visit around (loop addId) k) :
    X.Tours visit around (closeFields X.libbson loop flags) k := by
  have hend : ∀ r : LoopEnd, X.Tours visit around
      (if r.aborted then Pure.pure r.fields else Graph.finishFields X.libbson flags.returnId r) id := by
    intro r
    split
    · exact Tours.pure _
    · exact Tours.finishFields _ r
  exact (hloop flags.addId).bind hend

theorem Tours.appendCompound {f : Encode T O Doc} (key : CString) (isArray : Bool)
    {k : Agenda (HeapValue T O) → Agenda (HeapValue T O)}
    (hf : X.Tours visit around f k) :
    X.Tours visit around (appendCompound key isArray f) k := by
  cases isArray <;> exact hf.map

theorem Tours.loop {append : CString → V → Encode T O Doc}
    {one : V → Agenda (HeapValue T O) → Agenda (HeapValue T O)}
    (happend : ∀ key v, X.Tours visit around (append key v) (one v))
    (fromProperties skipOdmField : Bool) (els : List (Key × V)) (addId : Bool) :
    X.Tours visit around
      (appendAll append fromProperties skipOdmField els addId)
      (loopAgenda one fromProperties skipOdmField els) := by
  induction els generalizing addId with
  | nil => exact Tours.pure _
  | cons e els ih =>
    obtain ⟨key,v⟩ := e
    unfold appendAll
    split
    · rename_i hkey
      rw [loopAgenda_skip one v els hkey]
      exact ih addId
    · rename_i hkey
      rw [loopAgenda_abort one v els hkey]
      exact (Tours.throw _ _).map
    · rename_i name hkey
      rw [loopAgenda_append one v els hkey]
      exact (happend name v).bind fun _ => (ih _).map

theorem Tours.congr {f : Encode T O α} {k k' : Agenda (HeapValue T O) → Agenda (HeapValue T O)}
    (hf : X.Tours visit around f k) (hk : ∀ rest, k' rest = k rest) :
    X.Tours visit around f k' := by
  intro e s habreast
  obtain ⟨s',habreast',hfollow⟩ := hf e s habreast
  refine ⟨s',habreast',fun rest => ?_⟩
  rw [hk]
  exact hfollow rest

theorem Tours.appendString (key : CString) (b : Bytes) :
    X.Tours visit around (appendString X.libbson key b) (plainAgenda X.libbson (.string b)) := by
  unfold Graph.appendString
  split
  · rename_i h
    exact (Tours.pure _).congr fun rest => by simp [plainAgenda,h]
  · rename_i h
    exact (Tours.throwAt _ _).congr fun rest => by simp [plainAgenda,h]

theorem Tours.plain :
    (∀ p key, X.Tours visit around (appendPlain X.libbson key p) (plainAgenda X.libbson p)) ∧
    (∀ els skipOdmField addId, X.Tours visit around (appendPlains X.libbson skipOdmField els addId)
      (plainsAgenda X.libbson skipOdmField els)) := by
  refine Plain.induction ?leaf ?immutable ?nil ?cons
  case leaf =>
    intro p hp key
    cases p with
    | string b => exact Tours.appendString key b
    | resource => exact (Tours.throwAt _ _).congr fun rest => by rw [plainAgenda]
    | immutable els => exact absurd rfl (hp els)
    | _ => exact (Tours.pure _).congr fun rest => by simp [plainAgenda]
  case immutable =>
    intro els ih key
    have hloop := Tours.closeFields (X:=X) .none (ih false)
    rw [appendPlain]
    exact ((hloop.appendCompound key _).nested _).congr fun rest => by rw [plainAgenda]
  case nil => exact fun skipOdmField addId => (Tours.pure _).congr fun rest => by rw [plainsAgenda]; rfl
  case cons =>
    intro key p els ihp ih skipOdmField addId
    rw [appendPlains]
    split
    · rename_i hkey
      exact (ih skipOdmField addId).congr fun rest => by simp [plainsAgenda,hkey]
    · rename_i hkey
      exact (Tours.throw _ _).map.congr fun rest => by simp [plainsAgenda,hkey]
    · rename_i name hkey
      refine Tours.congr (((ihp name).element name).bind fun _ => (ih skipOdmField _).map)
        fun rest => by simp [plainsAgenda,hkey]

end Steps

section Bodies
variable {X : Setting T O R} {visit : Visiting T O} {around : List (HeapValue T O)}
  {append : CString → HeapValue T O → Encode T O Doc}

theorem Tours.walks {f : Encode T O α} {k : Agenda (HeapValue T O) → Agenda (HeapValue T O)}
    (hf : X.Tours visit around f k) : X.Walks visit around f (k .done) := by
  intro e s habreast
  obtain ⟨s',habreast',hfollow⟩ := hf e s habreast
  rw [hfollow .done]
  exact habreast'

theorem Walks.map {f : Encode T O α} {g : α → β} {agenda : Agenda (HeapValue T O)}
    (hf : X.Walks visit around f agenda) :
    X.Walks visit around (do let a ← f; return g a) agenda := hf

theorem Abreast.records {f : Encode T O α} (hf : Records f) {e : GraphEncoder T O}
    {s : Walker (HeapValue T O)} (hvisit : ∀ v s, s.ranOut = true → visit v s = s)
    (habreast : X.Abreast around e s) (hs : s.ranOut = true) (agenda : Agenda (HeapValue T O)) :
    X.Abreast around (f e).2 (follow visit agenda s) := by
  obtain ⟨hout,hmet⟩ := hf.ranOut e (habreast.ranOut.trans hs)
  obtain ⟨hout',harrivals⟩ := follow_of_ranOut hvisit agenda hs
  refine ⟨hout.trans hout'.symm,?_,fun h => absurd (hout'.symm.trans h) (by decide)⟩
  rw [hmet,harrivals]
  exact habreast.met

section
variable (h : PhpHeap T O R) (ce : ClassEntry) {returned : Returned T O}
  (encode : HeapValue T O → Encode T O Doc) {e : GraphEncoder T O}

theorem run_bind (f : Encode T O α) (g : α → Encode T O β) :
    (f >>= g) e = g (f e).1 (f e).2 := rfl

theorem serialized_pending (hne : e.output.exceptions ≠ []) :
    serialized h ce returned encode e = ([],e) := by
  have hcall : callBsonSerialize returned e = (none,e) := by
    cases returned <;> simp [callBsonSerialize,onOutput,hne]
  rw [serialized,run_bind,hcall]
  rfl

theorem serialized_threw (ids : List ℕ) (hnil : e.output.exceptions = []) :
    serialized h ce (.threw ids) encode e =
      ([],{ e with output := { e.output with exceptions := thrownBy ids } }) := by
  have hcall : callBsonSerialize (.threw ids) e =
      ((none : Option (HeapValue T O)),
        { e with output := { e.output with exceptions := thrownBy ids } }) := by
    simp [callBsonSerialize,onOutput,hnil]
  rw [serialized,run_bind,hcall]
  rfl

theorem serialized_value (v : HeapValue T O) (hnil : e.output.exceptions = []) :
    serialized h ce (.value v) encode e =
      (if isArrayOrStdClass h v then encode v else throwExpectedArray h ce v) e := by
  have hcall : callBsonSerialize (.value v) e = (some v,e) := by
    simp [callBsonSerialize,onOutput,hnil]
  rw [serialized,run_bind,hcall]

end

theorem Walks.serialized {ce : ClassEntry} {returned : Returned T O}
    {encode : HeapValue T O → Encode T O Doc} {agenda : HeapValue T O → Agenda (HeapValue T O)}
    (hvisit : ∀ v s, s.ranOut = true → visit v s = s) (hrecords : ∀ v, Records (encode v))
    (hencode : ∀ v, X.Walks visit around (encode v) (agenda v)) :
    X.Walks visit around (serialized X.heap ce returned encode)
      (serializedAgenda X.heap agenda returned) := by
  have hrec : Records (Graph.serialized X.heap ce returned encode) :=
    (recording_congruence.serialized X.heap ce returned fun v => ⟨hrecords v,hrecords v⟩).1
  intro e s habreast
  cases hs : s.ranOut with
  | true => exact habreast.records hrec hvisit hs _
  | false =>
    have hlevel := habreast.level hs
    cases hpending : s.pending with
    | true =>
      rw [serialized_pending X.heap ce encode (hlevel.pending.mp hpending)]
      cases returned <;> simpa [serializedAgenda,follow,hpending] using habreast
    | false =>
      have hnil : e.output.exceptions = [] := by
        by_contra hne
        exact absurd (hpending.symm.trans (hlevel.pending.mpr hne)) (by decide)
      cases returned with
      | threw ids =>
        rw [serialized_threw X.heap ce encode ids hnil]
        cases ids with
        | nil =>
          have hout : { e.output with exceptions := thrownBy [] } = e.output := by
            rw [show thrownBy [] = e.output.exceptions from hnil.symm]
          simpa [serializedAgenda,follow,hpending,hout] using habreast
        | cons id ids =>
          have hthrown : thrownBy (id::ids) ≠ [] := List.cons_ne_nil _ _
          simpa [serializedAgenda,follow,hpending] using habreast.throws
            { e.output with exceptions := thrownBy (id::ids) } hthrown rfl e.rendered
      | value v =>
        rw [serialized_value X.heap ce encode v hnil]
        cases hreturned : isArrayOrStdClass X.heap v with
        | true => simpa [serializedAgenda,follow,hpending,hreturned] using hencode v e s habreast
        | false =>
          have hthrow : X.Walks visit around (throwExpectedArray X.heap ce v) (.throws .done) :=
            (Tours.throw _ _).walks
          simpa [serializedAgenda,follow,hpending,hreturned] using hthrow e s habreast

def Appends (X : Setting T O R) (visit : Visiting T O) (around : List (HeapValue T O))
    (append : CString → HeapValue T O → Encode T O Doc) : Prop :=
  ∀ key v, Records (append key v) ∧ X.Tours visit around (append key v) (.value v)

section
variable (happend : Appends X visit around append)
include happend

theorem Tours.appendSlots (fromProperties skipOdmField : Bool) (t : T) (addId : Bool) :
    X.Tours visit around (appendSlots X.heap append fromProperties skipOdmField t addId)
      (slotsAgenda X.heap fromProperties skipOdmField t) :=
  Tours.loop (fun key slot => (happend key (deref X.heap slot)).2) fromProperties skipOdmField
    (X.heap.elements t) addId

theorem Walks.closeSlots (flags : Flags) (fromProperties skipOdmField : Bool) (t : T) :
    X.Walks visit around
      (closeFields X.libbson (appendSlots X.heap append fromProperties skipOdmField t) flags)
      (slotsAgenda X.heap fromProperties skipOdmField t .done) :=
  (Tours.closeFields flags (Tours.appendSlots happend fromProperties skipOdmField t)).walks

theorem Walks.closeTable (flags : Flags) (skipOdmField : Bool) (v : HeapValue T O) :
    X.Walks visit around
      (closeFields X.libbson (appendTable X.heap X.libbson append skipOdmField v) flags)
      (returnedAgenda X.heap X.libbson skipOdmField v) := by
  have hempty : X.Walks visit around (closeFields (T:=T) (O:=O) X.libbson emptyLoop flags) .done :=
    (Tours.closeFields (k:=id) flags fun addId => Tours.pure _).walks
  cases v with
  | plain p =>
    cases p with
    | immutable els => exact (Tours.closeFields flags (Tours.plain.2 els skipOdmField)).walks
    | _ => exact hempty
  | array t => exact Walks.closeSlots happend flags false skipOdmField t
  | object o =>
    rw [Graph.appendTable,returnedAgenda]
    cases X.heap.objects o with
    | bson | cursorId => exact hempty
    | user ce table returned => exact Walks.closeSlots happend flags false skipOdmField table

theorem Walks.internal (hvisit : ∀ v s, s.ranOut = true → visit v s = s) (flags : Flags)
    (v : HeapValue T O) :
    X.Walks visit around (internal X.heap X.libbson append flags v)
      (rootAgenda X.heap X.libbson v) := by
  cases v with
  | plain p =>
    cases p with
    | immutable els => exact (Tours.closeFields flags (Tours.plain.2 els false)).walks
    | _ => exact (Tours.pure _).walks
  | array t => exact Walks.closeSlots happend flags false false t
  | object o =>
    rw [Graph.internal,rootAgenda]
    cases X.heap.objects o with
    | bson obj table => exact (Tours.throw _ _).walks
    | cursorId cursor table =>
      exact (Tours.closeFields (k:=id) flags fun addId => ((Tours.pure _).element _).map).walks
    | user ce table returned =>
      dsimp only
      split
      · refine Walks.serialized hvisit (fun v => ?_) fun v =>
          (Walks.closeTable happend flags ce.isPersistable v).map
        have happend' : ∀ key v, Recording Doc false (append key v) (append key v) :=
          fun key v => ⟨(happend key v).1,(happend key v).1⟩
        have hrecords := recording_congruence.closeFields X.libbson flags
          (recording_congruence.appendTable (h:=X.heap) (L:=X.libbson) happend' ce.isPersistable v)
        exact (recording_congruence.withOdm ce hrecords).1
      · split
        · exact (Tours.throw _ _).walks
        · exact Walks.closeSlots happend flags true false table

theorem Walks.appendObject (hvisit : ∀ v s, s.ranOut = true → visit v s = s) (key : CString)
    (ce : ClassEntry) (table : T) (returned : Returned T O) :
    X.Walks visit around (appendObject X.heap X.libbson append key ce table returned)
      (if ce.isType then
        if ce.isSerializable then serializedAgenda X.heap (rootAgenda X.heap X.libbson) returned
        else .throws .done
      else slotsAgenda X.heap true false table .done) := by
  have happend' : ∀ key v, Recording Doc false (append key v) (append key v) :=
    fun key v => ⟨(happend key v).1,(happend key v).1⟩
  have hrecords : ∀ v, Records (Graph.internal X.heap X.libbson append .none v) := fun v =>
    (recording_congruence.internal happend' .none v).1
  unfold Graph.appendObject
  split
  · split
    · refine Walks.serialized hvisit (fun v => ?_) fun v => ?_
      · split
        · exact ((hrecords v).bind fun _ => .pure _).bind fun _ => .pure _
        · exact (hrecords v).bind fun _ => .pure _
      · have hinternal := Walks.internal happend hvisit .none v
        split
        · exact hinternal.map.map
        · exact hinternal.map
    · exact (Tours.throw _ _).walks
  · exact (Walks.closeSlots happend .none true false table).map

end

end Bodies

section Values
variable [DecidableEq T] {X : Setting T O R} {around : List (HeapValue T O)} {v : HeapValue T O}
  {e : GraphEncoder T O} {s : Walker (HeapValue T O)}

def rules (X : Setting T O R) : Rules (HeapValue T O) :=
  Graph.rules X.heap X.libbson (scopeThrows X.heap X.libbson X.userland) X.protects X.recursive

/-- The encoder is at a value the walker comes to next, and has decoded its scope. -/
structure Arrived (X : Setting T O R) (inside : List (HeapValue T O)) (v : HeapValue T O)
    (e : GraphEncoder T O) (s : Walker (HeapValue T O)) : Prop where
  ranOut : e.ranOut = s.ranOut
  met : e.met = meetings X.heap X.libbson s.arrivals
  around : e.around = inside
  flags : e.recursive = flagged X.heap X.libbson X.protects X.recursive inside
  pending : (s.pending || X.rules.throws v) = true ↔ e.output.exceptions ≠ []
  scopes : ScopesRendered X.heap X.libbson X.userland e.output.scopePaths
    (s.arrive inside v).arrivals

omit [DecidableEq T] in
theorem meetings_arrive (h : PhpHeap T O R) (L : Libbson) (hv : v.isPlain = false) :
    meetings h L (s.arrive around v).arrivals =
      meetings h L s.arrivals ++ [⟨around,v,tableOf h L v⟩] := by
  simp [meetings,Walker.arrive,hv]

omit [DecidableEq T] in
theorem meetings_arrive_plain (h : PhpHeap T O R) (L : Libbson) (hv : v.isPlain = true) :
    meetings h L (s.arrive around v).arrivals = meetings h L s.arrivals := by
  simp [meetings,Walker.arrive,hv]

omit [DecidableEq T] in
theorem flagged_cons (h : PhpHeap T O R) (L : Libbson) (protects : Bool) (recursive : List T) :
    flagged h L protects recursive (v::around) =
      flagFor protects (tableOf h L v) ++ flagged h L protects recursive around := by
  cases protects <;> cases htable : tableOf h L v <;> simp [flagged,flagFor,htable]

theorem Arrived.guarded (harrived : X.Arrived around v e s) (hs : s.ranOut = false)
    (hv : v.isPlain = false) {type : ItemType} {f : Encode T O Doc} {n : ℕ}
    (hbody : X.Walks (X.rules.visit n (v::around)) (v::around) f (X.rules.agenda v)) :
    X.Abreast around (guarded X.protects v (tableOf X.heap X.libbson v) type f e).2
      (X.rules.visit (n+1) around v s) := by
  have hran : e.ranOut = false := harrived.ranOut.trans hs
  let s' : Walker (HeapValue T O) :=
    { s.arrive around v with pending := s.pending || X.rules.throws v }
  have hmet : (GraphEncoder.meet e v (tableOf X.heap X.libbson v)).met =
      meetings X.heap X.libbson s'.arrivals := by
    rw [met_meet v _ hran,harrived.met,harrived.around]
    exact (meetings_arrive X.heap X.libbson hv).symm
  have hflags : (GraphEncoder.meet e v (tableOf X.heap X.libbson v)).recursive =
      flagged X.heap X.libbson X.protects X.recursive around := by
    rw [recursive_meet,harrived.flags]
  have houtput := output_meet e v (tableOf X.heap X.libbson v)
  refine guarded_cases (P:=fun r => X.Abreast around r.2 _) e (fun t ht hrec => ?_) fun hfree => ?_
  · have hblocks : X.rules.blocks around v = true :=
      List.any_eq_true.mpr ⟨t,ht,decide_eq_true (hflags ▸ hrec)⟩
    have hmeet : X.Abreast around (GraphEncoder.meet e v (tableOf X.heap X.libbson v)) s' :=
      ⟨(ranOut_meet _ _ _).trans harrived.ranOut,hmet,fun _ =>
        ⟨(around_meet _ _ _).trans harrived.around,hflags,houtput ▸ harrived.pending,
          houtput ▸ harrived.scopes⟩⟩
    rw [visit_blocked hblocks n hs]
    exact hmeet.throws (Output.throw detectedRecursion [.path
      (GraphEncoder.meet e v (tableOf X.heap X.libbson v)).fieldPath.asString]
      (GraphEncoder.meet e v (tableOf X.heap X.libbson v)).output) (List.cons_ne_nil _ _) rfl _
  · have hblocks : X.rules.blocks around v = false := by
      refine Bool.eq_false_iff.mpr fun hany => ?_
      obtain ⟨t,ht,hrec⟩ := List.any_eq_true.mp hany
      exact hfree t ht (hflags ▸ of_decide_eq_true hrec)
    have hprotect : X.Abreast (v::around) (protect
        (flagFor X.protects (tableOf X.heap X.libbson v)) v
        (GraphEncoder.meet e v (tableOf X.heap X.libbson v))) s' := by
      refine ⟨(ranOut_meet _ _ _).trans harrived.ranOut,hmet,fun _ => ⟨?_,?_,
        houtput ▸ harrived.pending,houtput ▸ harrived.scopes⟩⟩
      · rw [protect,around_meet,harrived.around]
      · rw [protect,flagged_cons,← hflags]
    rw [visit_entered hblocks n hs]
    have hinside := (hbody _ s' (hprotect.withPath
      ((GraphEncoder.meet e v (tableOf X.heap X.libbson v)).fieldPath.writeTypeAtCurrentLevel
        type).enter))
    refine ⟨hinside.ranOut,hinside.met,fun hout => ?_⟩
    have hlevel := hinside.level hout
    refine ⟨?_,?_,hlevel.pending,hlevel.scopes⟩
    · exact congrArg List.tail hlevel.around
    · have hrecursive := hlevel.flags
      rw [flagged_cons] at hrecursive
      refine (congrArg (List.foldl List.erase · _) hrecursive).trans ?_
      exact foldl_erase_append _ _

omit [DecidableEq T] in
theorem scopesRendered_arrive {L : Libbson} {U : Userland} {h : PhpHeap T O R}
    {paths paths' : List FieldPath} (hold : ScopesRendered h L U paths s.arrivals)
    (harrived : (∃ fp ∈ paths', ¬ fp.InBounds) → s.pending = false ∧ ScopeOverruns h L v)
    (hrendered : U.Silent → s.pending = false → ScopeOverruns h L v → ∃ fp ∈ paths', ¬ fp.InBounds) :
    ScopesRendered h L U (paths ++ paths') (s.arrive around v).arrivals := by
  constructor
  · rintro ⟨fp,hfp,hout⟩
    rcases List.mem_append.mp hfp with hfp | hfp
    · obtain ⟨c,hc,hoverruns⟩ := hold.arrived ⟨fp,hfp,hout⟩
      exact ⟨c,List.mem_append_left _ hc,hoverruns⟩
    · exact ⟨_,List.mem_append_right _ (List.mem_singleton.mpr rfl),harrived ⟨fp,hfp,hout⟩⟩
  · rintro hsilent ⟨c,hc,hpending,hoverruns⟩
    rcases List.mem_append.mp hc with hc | hc
    · obtain ⟨fp,hfp,hout⟩ := hold.rendered hsilent ⟨c,hc,hpending,hoverruns⟩
      exact ⟨fp,List.mem_append_left _ hfp,hout⟩
    · rw [List.mem_singleton.mp hc] at hpending hoverruns
      obtain ⟨fp,hfp,hout⟩ := hrendered hsilent hpending hoverruns
      exact ⟨fp,List.mem_append_right _ hfp,hout⟩

theorem Abreast.arrived (habreast : X.Abreast around e s) (hs : s.ranOut = false)
    (hscope : scopeOf X.heap v = none) : X.Arrived around v e s := by
  have hlevel := habreast.level hs
  have hthrows : X.rules.throws v = false := by simp [rules,Graph.rules,scopeThrows,hscope]
  have hnot : ¬ ScopeOverruns X.heap X.libbson v := fun ⟨scope,hsome,_⟩ => by
    rw [hscope] at hsome
    cases hsome
  refine ⟨habreast.ranOut,habreast.met,hlevel.around,hlevel.flags,?_,?_⟩
  · rw [hthrows,Bool.or_false]
    exact hlevel.pending
  · rw [← List.append_nil e.output.scopePaths]
    exact scopesRendered_arrive hlevel.scopes
      (fun ⟨fp,hfp,_⟩ => absurd hfp List.not_mem_nil) fun _ _ h => absurd h hnot

theorem Abreast.arrived_scope (habreast : X.Abreast around e s) (hs : s.ranOut = false)
    {code : Bytes} {scope : Doc} (hscope : scopeOf X.heap v = some scope) :
    X.Arrived around v { e with
      output := decodeScope X.libbson X.userland (.javascript code (some scope)) e.output } s := by
  have hlevel := habreast.level hs
  have hnil : s.pending = false → e.output.exceptions = [] := fun hp => by
    by_contra hne
    exact absurd (hp.symm.trans (hlevel.pending.mpr hne)) (by decide)
  have hrenders := renderedEx_renders X.libbson X.userland scope true BsonState.init
    e.output.exceptions
  refine ⟨habreast.ranOut,habreast.met,hlevel.around,hlevel.flags,?_,?_⟩
  · obtain ⟨thrown,hthrown,-⟩ := decodes_bsonToZvalEx (L:=X.libbson) (U:=X.userland)
      (.read scope true) BsonState.init e.output.exceptions
    have hthrows : X.rules.throws v = ! (bsonToZvalEx X.libbson X.userland (.read scope true)
        BsonState.init []).exceptions.isEmpty := by
      simp [rules,Graph.rules,scopeThrows,hscope]
    show _ ↔ (bsonToZvalEx X.libbson X.userland (.read scope true) BsonState.init
      e.output.exceptions).exceptions ≠ []
    cases hp : s.pending with
    | true =>
      refine iff_of_true rfl ?_
      rw [hthrown]
      exact fun h => hlevel.pending.mp hp (List.append_eq_nil_iff.mp h).2
    | false =>
      rw [hnil hp,hthrows]
      simp
  · refine scopesRendered_arrive hlevel.scopes (fun ⟨fp,hfp,hout⟩ => ?_) fun hsilent hp hover => ?_
    · refine ⟨?_,scope,hscope,?_⟩
      · refine Bool.eq_false_iff.mpr fun hp => hout ?_
        exact hrenders.inBoundsPending (hlevel.pending.mp hp) fp hfp
      · by_contra hnot
        exact hout (hrenders.inBounds (Bool.eq_false_iff.mpr hnot) fp hfp)
    · obtain ⟨scope',hsome,hoverruns⟩ := hover
      obtain rfl : scope = scope' := Option.some.inj (hscope.symm.trans hsome)
      exact hrenders.outOfBounds ⟨hsilent,hnil hp⟩ hoverruns

/-- `php_phongo_bson_append` comes to its value. -/
theorem appendValue_walks {n : ℕ} {append : CString → HeapValue T O → Encode T O Doc}
    (happend : ∀ v, X.Appends (X.rules.visit n (v::around)) (v::around) append) (key : CString)
    (v : HeapValue T O) (habreast : X.Abreast around e s) (hs : s.ranOut = false) :
    X.Abreast around
      (appendValue X.heap X.libbson X.userland append X.protects key v e).2
      (X.rules.visit (n+1) around v s) := by
  have hvisit : ∀ v : HeapValue T O, ∀ v' s, s.ranOut = true →
      X.rules.visit n (v::around) v' s = s := fun v v' s h => visit_of_ranOut n v' h
  cases v with
  | plain p =>
    have hblocks : X.rules.blocks around (.plain p) = false := by
      cases hprotects : X.protects <;> simp [rules,Graph.rules,flagFor,tableOf,hprotects]
    have harrived := habreast.arrived (v:=.plain p) hs rfl
    have harrive : X.Abreast around e
        { s.arrive around (.plain p) with pending := s.pending || X.rules.throws (.plain p) } :=
      ⟨harrived.ranOut,harrived.met.trans (meetings_arrive_plain _ _ rfl).symm,
        fun _ => ⟨harrived.around,harrived.flags,harrived.pending,harrived.scopes⟩⟩
    rw [visit_entered hblocks n hs]
    exact (Tours.plain.1 p key).walks e _ harrive
  | array t =>
    have hbody := ((Tours.closeFields .none (Tours.appendSlots (happend (.array t)) false false
      t)).appendCompound key (keysAreIndices 0 (X.heap.elements t))).walks
    exact (habreast.arrived hs rfl).guarded hs rfl hbody
  | object o =>
    cases hobject : X.heap.objects o with
    | bson obj table =>
      have htable : tableOf X.heap X.libbson (.object o) = bsonTable X.libbson table obj := by
        simp [tableOf,hobject]
      have hagenda : X.rules.agenda (.object o) = .done := by
        simp [rules,Graph.rules,valueAgenda,hobject]
      have hbody : X.Walks (X.rules.visit n (.object o::around)) (.object o::around)
          (Pure.pure [(key,bsonObjectValue X.libbson obj)]) (X.rules.agenda (.object o)) := by
        rw [hagenda]
        exact (Tours.pure _).walks
      have hvalue : appendValue X.heap X.libbson X.userland append X.protects key (.object o) e =
          guarded X.protects (.object o) (tableOf X.heap X.libbson (.object o)) .document
            (Pure.pure [(key,bsonObjectValue X.libbson obj)])
            { e with output := decodeScope X.libbson X.userland obj e.output } := by
        rw [appendValue,hobject,htable]
        dsimp only
        rw [hashOfBson_eq]
        rfl
      rw [hvalue]
      refine Arrived.guarded ?_ hs rfl hbody
      cases hscope : scopeOf X.heap (.object o) with
      | none =>
        have hsame : decodeScope X.libbson X.userland obj e.output = e.output := by
          cases obj with
          | javascript code scope =>
            have hnone : scope = none := by simpa [scopeOf,hobject] using hscope
            rw [hnone]
            rfl
          | _ => rfl
        rw [hsame]
        exact habreast.arrived hs hscope
      | some scope =>
        cases obj with
        | javascript code scope' =>
          obtain rfl : scope' = some scope := by simpa [scopeOf,hobject] using hscope
          exact habreast.arrived_scope hs hscope
        | _ => simp [scopeOf,hobject] at hscope
    | cursorId cursor table =>
      have htable : tableOf X.heap X.libbson (.object o) = some table := by simp [tableOf,hobject]
      have hbody : X.Walks (X.rules.visit n (.object o::around)) (.object o::around)
          (Pure.pure [(key,BsonValue.int64 cursor)]) (X.rules.agenda (.object o)) := by
        have hagenda : X.rules.agenda (.object o) = .done := by
          simp [rules,Graph.rules,valueAgenda,hobject]
        rw [hagenda]
        exact (Tours.pure _).walks
      rw [appendValue,hobject]
      dsimp only
      rw [← htable]
      exact (habreast.arrived hs (by simp [scopeOf,hobject])).guarded hs rfl hbody
    | user ce table returned =>
      have htable : tableOf X.heap X.libbson (.object o) = some table := by simp [tableOf,hobject]
      have hbody := Walks.appendObject (happend (.object o)) (hvisit (.object o)) key ce table
        returned
      have hagenda : X.rules.agenda (.object o) = (if ce.isType then
          if ce.isSerializable then serializedAgenda X.heap (rootAgenda X.heap X.libbson) returned
          else .throws .done
          else slotsAgenda X.heap true false table .done) := by
        simp [rules,Graph.rules,valueAgenda,hobject]
      rw [← hagenda] at hbody
      rw [appendValue,hobject]
      dsimp only
      rw [← htable]
      exact (habreast.arrived hs (by simp [scopeOf,hobject])).guarded hs rfl hbody

theorem append_walks (X : Setting T O R) (n : ℕ) (around : List (HeapValue T O)) (key : CString)
    (v : HeapValue T O) {e : GraphEncoder T O} {s : Walker (HeapValue T O)}
    (habreast : X.Abreast around e s) : X.Abreast around
      (append X.heap X.libbson X.userland X.protects n key v e).2 (X.rules.visit n around v s) := by
  induction n generalizing around key v e s with
  | zero => exact ⟨rfl,habreast.met,fun h => absurd h (by simp [Rules.visit])⟩
  | succ n ih =>
    cases hs : s.ranOut with
    | true =>
      have hrecords : Records (append X.heap X.libbson X.userland X.protects (n+1) key v) :=
        append_records (n+1) key v
      obtain ⟨hout,hmet⟩ := hrecords.ranOut e (habreast.ranOut.trans hs)
      rw [visit_of_ranOut (n+1) v hs]
      exact ⟨hout.trans hs.symm,hmet.trans habreast.met,
        fun h => absurd (hs.symm.trans h) (by decide)⟩
    | false =>
      refine appendValue_walks (fun v' key v => ⟨append_records n key v,fun e s habreast => ?_⟩) key v
        (habreast.withPath _) hs
      exact ⟨_,ih (v'::around) key v habreast,fun _ => rfl⟩

/-- An encoding meets what the walk by its rules comes to. -/
theorem zvalToBson_walks (X : Setting T O R) (depth : ℕ) (data : HeapValue T O) (flags : Flags)
    (eg : Pending) : X.Abreast []
      (zvalToBson X.heap X.libbson X.userland X.protects depth data flags X.recursive eg).2
      (follow (X.rules.visit depth []) (rootAgenda X.heap X.libbson data)
        ⟨! eg.isEmpty,[],false⟩) := by
  have hstart : X.Abreast [] (start X.recursive eg) ⟨! eg.isEmpty,[],false⟩ := by
    refine ⟨rfl,rfl,fun _ => ⟨rfl,?_,?_,?_,?_⟩⟩
    · cases hprotects : X.protects <;> simp [start,flagged]
    · simp [start]
    · exact fun ⟨fp,hfp,_⟩ => absurd hfp List.not_mem_nil
    · exact fun _ ⟨c,hc,_⟩ => absurd hc List.not_mem_nil
  have happend : X.Appends (X.rules.visit depth []) [] (append X.heap X.libbson X.userland
      X.protects depth) := fun key v => ⟨append_records depth key v,fun e s habreast =>
    ⟨_,append_walks X depth [] key v habreast,fun _ => rfl⟩⟩
  exact Walks.internal happend (fun v _ h => visit_of_ranOut depth v h) flags data _ _ hstart

end Values

end Setting
end Graph
end Phongo
