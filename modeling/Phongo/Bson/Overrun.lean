import Mathlib.Tactic.Common
import Phongo.Bson.Pending
import Phongo.Bson.Rendering

/-! A decoding renders a path out of bounds exactly where the document overruns. -/
namespace Phongo

/-- The slots there are once a number of levels has been touched. -/
def slotsFor (touched : ℕ) : ℕ :=
  (touched + fieldPathExpansion - 1) / fieldPathExpansion * fieldPathExpansion

theorem overrunsAt_succ (depth touched : ℕ) (afterCompound : Bool) :
    overrunsAt (depth+1) touched afterCompound = false ↔
      ¬ (depth + 1 = touched ∧ (depth + 1) % 8 = 0) := by
  rw [overrunsAt,if_neg (Nat.succ_ne_zero depth),← Bool.not_eq_true,Bool.and_eq_true,
    decide_eq_true_iff,decide_eq_true_iff]
  rfl

/-- The path of a decoding that is about to visit an element. -/
structure Touched (fp : FieldPath) (path : List CString) (touched : ℕ) (afterCompound : Bool) :
    Prop where
  holds : fp.Holds path
  le : path.length ≤ touched
  allocated : fp.allocatedSize = slotsFor touched
  cleared : path = [] → (fp.elements[0]? = some none ↔ afterCompound = true)

namespace Touched
variable {fp : FieldPath} {path : List CString} {touched : ℕ} {afterCompound : Bool}

theorem alloc : Touched FieldPath.alloc [] 0 false := by
  refine ⟨FieldPath.alloc_holds,le_rfl,rfl,fun _ => ?_⟩
  simp [FieldPath.alloc]

theorem allocated_ensureAllocation (h : Touched fp path touched afterCompound) :
    (fp.ensureAllocation fp.size).allocatedSize = slotsFor (max touched (path.length+1)) := by
  have hsize := h.holds.size_eq
  have hle := h.le
  have hallocated := h.allocated
  simp only [slotsFor,fieldPathExpansion] at hallocated ⊢
  by_cases hfull : fp.size ≥ fp.allocatedSize
  · simp only [FieldPath.ensureAllocation,hfull,if_true,fieldPathExpansion]
    omega
  · simp only [FieldPath.ensureAllocation,hfull,if_false]
    omega

theorem writeItem (h : Touched fp path touched afterCompound) (key : CString) :
    Touched (fp.writeItemAtCurrentLevel key) path (max touched (path.length+1)) false := by
  refine ⟨h.holds.writeItem key,by omega,h.allocated_ensureAllocation,fun hroot => ?_⟩
  subst hroot
  have htake := h.holds.take_writeItem key
  have hsize : fp.size = 0 := h.holds.size_eq
  rw [hsize] at htake
  have hslot : (fp.writeItemAtCurrentLevel key).elements[0]? = some (some key) := by
    cases helements : (fp.writeItemAtCurrentLevel key).elements with
    | nil => simp [helements] at htake
    | cons slot rest => simpa [helements] using htake
  simp [hslot]

theorem push (h : Touched fp path touched afterCompound) (key : CString) (type : ItemType) :
    Touched (fp.push key type) (path ++ [key]) (max touched (path.length+1)) false := by
  refine ⟨h.holds.push key type,by simp,?_,fun hroot => ?_⟩
  · have hroom := FieldPath.writeItem_allocated h.holds key
    rw [FieldPath.push,FieldPath.writeType_elements (by simpa using hroom)]
    exact h.allocated_ensureAllocation
  · exact absurd hroot (List.concat_ne_nil key path)

theorem pop {key : CString} (h : Touched fp (path ++ [key]) touched afterCompound) :
    Touched fp.pop path (max touched (path.length+2)) true := by
  have hle := h.le
  rw [List.length_append,List.length_singleton] at hle
  refine ⟨h.holds.pop,by omega,?_,fun hroot => ?_⟩
  · have hallocated := h.allocated_ensureAllocation
    rw [List.length_append,List.length_singleton] at hallocated
    exact hallocated
  · subst hroot
    obtain ⟨hholds,hsize,hroom⟩ := h.holds.ensureAllocation
    have hone : (fp.ensureAllocation fp.size).size = 1 := hsize.trans h.holds.size_eq
    have hlength : 0 < (fp.ensureAllocation fp.size).elements.length := by
      rw [hholds.length_elements]
      omega
    refine iff_of_true ?_ rfl
    simp [FieldPath.pop,FieldPath.clearSlot,FieldPath.leave,hone,hlength]

/-- Back at the level of a document or array that has been visited to its end. -/
theorem close {key : CString} {d : Doc} (h : Touched fp (path ++ [key])
    (max (max touched (path.length+1)) ((path ++ [key]).length + levelsAll d)) afterCompound) :
    Touched fp.pop path (max touched (path.length + (1 + max 1 (levelsAll d)))) true := by
  have hpop := h.pop
  have hlevels : max touched (path.length + (1 + max 1 (levelsAll d))) =
      max (max (max touched (path.length+1)) ((path ++ [key]).length + levelsAll d))
        (path.length+2) := by
    rw [List.length_append,List.length_singleton]
    omega
  rw [hlevels]
  exact hpop

theorem inBounds_iff (h : Touched fp path touched afterCompound) :
    fp.InBounds ↔ overrunsAt path.length touched afterCompound = false := by
  have hlength := h.holds.length_elements
  have hsize := h.holds.size_eq
  rw [FieldPath.inBounds_iff]
  cases path with
  | nil =>
    have hcleared := h.cleared rfl
    have hzero : fp.size = 0 := hsize
    cases helements : fp.elements with
    | nil => simpa [overrunsAt,helements] using hcleared
    | cons slot rest =>
      have hallocated : 0 < fp.allocatedSize := by
        rw [← hlength,helements]
        exact Nat.succ_pos _
      cases slot with
      | none => simpa [overrunsAt,helements,FieldPath.asString,hzero] using hcleared
      | some e =>
        simpa [overrunsAt,helements,FieldPath.asString,hzero,hallocated] using hcleared
  | cons e rest =>
    have hne : fp.elements ≠ [] := fun hnil => by
      have htake := h.holds.take_size
      simp [hnil] at htake
    have hstring : fp.asString ≠ [] := by
      have htake := congrArg List.length h.holds.opened
      have hprefix : fp.opened.length ≤ fp.asString.length := by
        refine List.Sublist.length_le (List.Sublist.filterMap _ ?_)
        exact (List.take_prefix_take_left (Nat.le_succ _)).sublist
      rw [← List.length_pos_iff]
      simp at htake
      omega
    have hle := h.le
    have hallocated := h.allocated
    rw [List.length_cons] at hle hsize ⊢
    rw [slotsFor,fieldPathExpansion] at hallocated
    simp only [hne,hstring,ne_eq,not_false_eq_true,and_true,false_or,overrunsAt_succ]
    omega

end Touched

/-- All paths are in bounds where the document does not overrun or something is pending; where it
does and no exception of the application comes before, some path is not. -/
structure Renders (rendered : List FieldPath) (overrun : Bool) (quiet pending : Prop) : Prop where
  inBounds : overrun = false → ∀ fp ∈ rendered, fp.InBounds
  inBoundsPending : pending → ∀ fp ∈ rendered, fp.InBounds
  outOfBounds : quiet → overrun = true → ∃ fp ∈ rendered, ¬ fp.InBounds

section Visits
variable {L : Libbson} {U : Userland} {quiet pending : Prop}

theorem renders_nil : Renders [] false quiet pending :=
  ⟨fun _ _ h => absurd h List.not_mem_nil,fun _ _ h => absurd h List.not_mem_nil,
    fun _ h => absurd h (by decide)⟩

theorem renders_singleton {fp : FieldPath} {overrun : Bool} (h : fp.InBounds ↔ overrun = false)
    (hpending : pending → overrun = false) : Renders [fp] overrun quiet pending := by
  constructor
  · intro hoverrun fp' hfp
    rw [List.mem_singleton.mp hfp]
    exact h.mpr hoverrun
  · intro hp fp' hfp
    rw [List.mem_singleton.mp hfp]
    exact h.mpr (hpending hp)
  · intro _ hoverrun
    refine ⟨fp,List.mem_singleton.mpr rfl,fun hin => ?_⟩
    rw [h.mp hin] at hoverrun
    exact absurd hoverrun (by decide)

theorem Renders.append {rendered rendered' : List FieldPath} {overrun : Bool}
    {quiet' pending' : Prop} (h : Renders rendered false quiet' pending')
    (h' : Renders rendered' overrun quiet pending) :
    Renders (rendered ++ rendered') overrun quiet pending := by
  constructor
  · intro hoverrun fp hfp
    rcases List.mem_append.mp hfp with hfp | hfp
    · exact h.inBounds rfl fp hfp
    · exact h'.inBounds hoverrun fp hfp
  · intro hpending fp hfp
    rcases List.mem_append.mp hfp with hfp | hfp
    · exact h.inBounds rfl fp hfp
    · exact h'.inBoundsPending hpending fp hfp
  · intro hquiet hoverrun
    obtain ⟨fp,hfp,hout⟩ := h'.outOfBounds hquiet hoverrun
    exact ⟨fp,List.mem_append_right _ hfp,hout⟩

theorem unreported_finished {r : Visited} (h : r.result = .finished) : r.unreported = [] := by
  simp [Visited.unreported,h]

theorem unreported_pending {r : Visited} (h : r.decoder.exceptions ≠ []) : r.unreported = [] := by
  simp [Visited.unreported,h]

theorem overruns_of_accepts (L : Libbson) :
    (∀ v depth touched, accepts L v = true → overruns L depth touched v = false) ∧
    (∀ d depth touched afterCompound, acceptsAll L d = true →
      overrunsAll L depth touched afterCompound d = false) := by
  refine BsonValue.induction ?leaf ?document ?array ?scope ?nil ?cons
  case leaf =>
    intro v hv depth touched _
    cases v with
    | document | array | codeWithScope => exact hv.elim
    | _ => rfl
  case document | array => exact fun d ih depth touched h => ih _ _ _ h
  case scope => exact fun c s ih depth touched h => ih _ _ _ h
  case nil => exact fun depth touched afterCompound _ => rfl
  case cons =>
    intro key v rest ihv ihd depth touched afterCompound h
    simp only [acceptsAll,Bool.and_eq_true] at h
    obtain ⟨⟨hvalid,hv⟩,hrest⟩ := h
    simp only [overrunsAll,hvalid,hv,Bool.and_self,if_true]
    exact ihd _ _ _ hrest

theorem visitDocument_unreported (key : CString) (children : Visit) (parent : BsonState)
    (dec : Decoder) : (visitDocument U key children parent dec).unreported =
      (children ⟨.array none [],parent.map,none,false⟩ (dec.push key .document)).unreported := by
  rw [visitDocument]
  dsimp only
  split
  · rename_i h
    rw [unreported_finished h,unreported_finished rfl]
  · rename_i h
    simp [Visited.unreported,h]

theorem visitArray_unreported (key : CString) (children : Visit) (parent : BsonState)
    (dec : Decoder) : (visitArray U key children parent dec).unreported =
      (children ⟨.array none [],parent.map,none,true⟩ (dec.push key .array)).unreported := by
  rw [visitArray]
  dsimp only
  split
  · rename_i h
    rw [unreported_finished h,unreported_finished rfl]
  · rename_i h
    simp [Visited.unreported,h]

theorem leaf_renders (quiet pending : Prop) {v : BsonValue} (hv : v.IsLeaf)
    (htext : L.textValid v = true) (n : ℕ) (key : CString) (state : BsonState) {dec : Decoder} {path : List CString} {touched : ℕ}
    {afterCompound : Bool} (h : Touched dec.fieldPath path touched afterCompound) :
    Renders (renderedField L U key v state dec ++ (visitField L U n key v state dec).unreported)
        false quiet pending ∧
      (accepts L v = true → Touched (visitField L U n key v state dec).decoder.fieldPath path
        (max touched (path.length+1)) false) := by
  cases v with
  | document | array | codeWithScope => exact hv.elim
  | corrupt => exact absurd htext (by simp [Libbson.textValid])
  | unsupported typeCode =>
    refine ⟨?_,fun ha => absurd ha (by simp [accepts])⟩
    have hthrown : (visitField L U n key (.unsupported typeCode) state dec).unreported = [] :=
      unreported_pending (List.cons_ne_nil _ _)
    rw [hthrown,List.append_nil]
    exact renders_singleton (iff_of_true (h.holds.inBounds_writeItem key) rfl) fun _ => rfl
  | binary subtype data =>
    have hfinished : (visitField L U n key (.binary subtype data) state dec).result = .finished := by
      rw [visitField,visitBinary_eq]
      rfl
    rw [unreported_finished hfinished]
    refine ⟨renders_nil,fun _ => ?_⟩
    rw [visitField,visitBinary_eq]
    exact h.writeItem key
  | _ => exact ⟨renders_nil,fun _ => h.writeItem key⟩

theorem scope_unreported (n : ℕ) (key : CString) (c : Bytes) (scope : Doc) (state : BsonState)
    {dec : Decoder} {path : List CString} (h : dec.fieldPath.Holds path) :
    (visitField L U n key (.codeWithScope c scope) state dec).unreported = [] := by
  cases ha : acceptsAll L scope with
  | true =>
    have hv : accepts L (.codeWithScope c scope) = true := ha
    exact unreported_finished ((visit_finished L U).1 _ n key state dec path h hv).result
  | false =>
    obtain ⟨hok,hne,-⟩ := bsonToZvalRoot_rejects (U:=U) ha true BsonState.init dec.exceptions
    refine unreported_pending ?_
    rw [visitField,visitCodewscope]
    simpa [hok] using hne

theorem exceptions_visitField (hsilent : U.Silent) (n : ℕ) (key : CString) {v : BsonValue}
    (ha : accepts L v = true) (state : BsonState) (dec : Decoder) {path : List CString}
    (h : dec.fieldPath.Holds path) :
    (visitField L U n key v state dec).decoder.exceptions = dec.exceptions := by
  have hfinished := (visit_finished L U).1 v n key state dec path h ha
  rw [hfinished.decoder.exceptions,hsilent.2.autoloadField,
    (materialise_quiet hsilent.1 hsilent.2).1]

theorem visitField_pending (n : ℕ) (key : CString) (v : BsonValue) (state : BsonState)
    (dec : Decoder) (h : dec.exceptions ≠ []) :
    (visitField L U n key v state dec).decoder.exceptions ≠ [] := by
  obtain ⟨thrown,hthrown,-⟩ := (visit_decodes L U).1 v n key state dec
  rw [hthrown]
  exact fun hnil => h (List.append_eq_nil_iff.mp hnil).2

/-- What an element renders, and the path after a visit of it to the end. -/
def FieldRenders (L : Libbson) (U : Userland) (v : BsonValue) : Prop :=
  ∀ n key state dec path touched afterCompound, L.textValid v = true →
    Touched dec.fieldPath path touched afterCompound →
    Renders (renderedField L U key v state dec ++ (visitField L U n key v state dec).unreported)
        (overruns L path.length touched v) (U.Silent ∧ dec.exceptions = [])
        (dec.exceptions ≠ []) ∧
      (accepts L v = true → Touched (visitField L U n key v state dec).decoder.fieldPath path
        (max touched (path.length + levels v)) v.isCompound)

def AllRender (L : Libbson) (U : Userland) (d : Doc) : Prop :=
  ∀ n state dec path touched afterCompound, Touched dec.fieldPath path touched afterCompound →
    Renders (renderedAll L U n d state dec ++ (visitAll L U n d state dec).unreported)
        (overrunsAll L path.length touched afterCompound d) (U.Silent ∧ dec.exceptions = [])
        (dec.exceptions ≠ []) ∧
      (acceptsAll L d = true → ∃ afterCompound', Touched
        (visitAll L U n d state dec).decoder.fieldPath path
        (max touched (path.length + levelsAll d)) afterCompound')

theorem document_renders {d : Doc} (hd : AllRender L U d) : FieldRenders L U (.document d) := by
  intro n key state dec path touched afterCompound _ h
  obtain ⟨hrenders,htouched⟩ := hd 0 ⟨.array none [],state.map,none,false⟩
    (dec.push key .document) _ _ _ (h.push key .document)
  rw [List.length_append,List.length_singleton] at hrenders
  rw [visitField,visitDocument_unreported]
  refine ⟨hrenders,fun ha => ?_⟩
  have hfinished := ((visit_finished L U).2 d 0 ⟨.array none [],state.map,none,false⟩
    (dec.push key .document) _ (h.push key .document).holds ha).result
  obtain ⟨_,hchild⟩ := htouched ha
  rw [visitDocument]
  simp only [hfinished,if_true,levels]
  exact hchild.close

theorem array_renders {d : Doc} (hd : AllRender L U d) : FieldRenders L U (.array d) := by
  intro n key state dec path touched afterCompound _ h
  obtain ⟨hrenders,htouched⟩ := hd 0 ⟨.array none [],state.map,none,true⟩
    (dec.push key .array) _ _ _ (h.push key .array)
  rw [List.length_append,List.length_singleton] at hrenders
  rw [visitField,visitArray_unreported]
  refine ⟨hrenders,fun ha => ?_⟩
  have hfinished := ((visit_finished L U).2 d 0 ⟨.array none [],state.map,none,true⟩
    (dec.push key .array) _ (h.push key .array).holds ha).result
  obtain ⟨_,hchild⟩ := htouched ha
  rw [visitArray]
  simp only [hfinished,if_true,levels]
  exact hchild.close

theorem scope_renders {scope : Doc} (c : Bytes) (hscope : AllRender L U scope) :
    FieldRenders L U (.codeWithScope c scope) := by
  intro n key state dec path touched afterCompound _ h
  rw [scope_unreported n key c scope state h.holds,List.append_nil]
  refine ⟨(hscope 0 { BsonState.init with zchild := .array none [] }
    ⟨FieldPath.alloc,dec.exceptions,[]⟩ [] 0 false Touched.alloc).1,fun ha => ?_⟩
  have hok := (bsonToZvalEx_fresh (U:=U) (L:=L) (d:=scope) ha Typemap.default dec.exceptions).1
  have hok' : (bsonToZvalRoot U (L.offset scope) (visitAll L U 0 scope) true BsonState.init
      dec.exceptions).1.ok = true := hok
  rw [visitField,visitCodewscope]
  simp only [hok',if_true]
  exact h.writeItem key

theorem corrupt_renders {dec : Decoder} {path : List CString} {touched : ℕ} {afterCompound : Bool}
    (n : ℕ) (state : BsonState) (h : Touched dec.fieldPath path touched afterCompound) :
    Renders (Visited.unreported ⟨.corrupt n,state,dec⟩)
      (overrunsAt path.length touched afterCompound) (U.Silent ∧ dec.exceptions = [])
      (dec.exceptions ≠ []) := by
  by_cases he : dec.exceptions = []
  · have hunreported : Visited.unreported ⟨.corrupt n,state,dec⟩ = [dec.fieldPath] := by
      simp [Visited.unreported,he]
    rw [hunreported]
    exact renders_singleton h.inBounds_iff fun hne => absurd he hne
  · have hunreported : Visited.unreported ⟨.corrupt n,state,dec⟩ = [] := unreported_pending he
    rw [hunreported]
    exact ⟨fun _ _ hfp => absurd hfp List.not_mem_nil,
      fun _ _ hfp => absurd hfp List.not_mem_nil,fun hq => absurd hq.2 he⟩

theorem cons_renders {v : BsonValue} {rest : Doc} (key : CString) (hv : FieldRenders L U v)
    (hd : AllRender L U rest) : AllRender L U ((key,v)::rest) := by
  intro n state dec path touched afterCompound h
  simp only [renderedAll,visitAll,overrunsAll]
  cases hvalid : L.keyValid key && L.textValid v with
  | false =>
    refine ⟨?_,fun ha => absurd ha (by simp [acceptsAll,hvalid])⟩
    simp only [Bool.false_eq_true,if_false,List.nil_append]
    exact corrupt_renders n state h
  | true =>
    have htext : L.textValid v = true := (Bool.and_eq_true _ _ ▸ hvalid).2
    obtain ⟨hrenders,htouched⟩ := hv n key state (dec.enterVisitor key) path touched
      afterCompound htext h
    simp only [if_true]
    cases ha : accepts L v with
    | false =>
      have hstopped := ((visit_rejected L U).1 v n key state (dec.enterVisitor key) path h.holds
        ha).result
      simp only [hstopped,if_false,List.append_nil,Bool.false_eq_true]
      exact ⟨hrenders,fun hall => absurd hall (by simp [acceptsAll,ha])⟩
    | true =>
      have hfinished := ((visit_finished L U).1 v n key state (dec.enterVisitor key) path h.holds
        ha).result
      rw [(overruns_of_accepts L).1 v _ _ ha,unreported_finished hfinished,List.append_nil]
        at hrenders
      obtain ⟨hrest,hlevels⟩ := hd (n+1)
        (visitField L U n key v state (dec.enterVisitor key)).state _ path _ _ (htouched ha)
      simp only [hfinished,if_true,List.append_assoc]
      refine ⟨⟨(hrenders.append hrest).inBounds,fun hp => ?_,fun hq => ?_⟩,fun hall => ?_⟩
      · exact (hrenders.append hrest).inBoundsPending (visitField_pending n key v state _ hp)
      · have hsame := exceptions_visitField hq.1 n key ha state (dec.enterVisitor key) h.holds
        exact (hrenders.append hrest).outOfBounds ⟨hq.1,hsame.trans hq.2⟩
      · simp only [acceptsAll,hvalid,ha,Bool.and_self,Bool.true_and] at hall
        obtain ⟨afterCompound',htouched'⟩ := hlevels hall
        have hmax : max touched (path.length + levelsAll ((key,v)::rest)) =
            max (max touched (path.length + levels v)) (path.length + levelsAll rest) := by
          rw [levelsAll]
          omega
        exact ⟨afterCompound',hmax ▸ htouched'⟩

theorem visit_renders (L : Libbson) (U : Userland) :
    (∀ v, FieldRenders L U v) ∧ ∀ d, AllRender L U d := by
  refine BsonValue.induction ?leaf ?document ?array ?scope ?nil ?cons
  case leaf =>
    intro v hv n key state dec path touched afterCompound htext h
    obtain ⟨hrenders,htouched⟩ := leaf_renders (U:=U) (U.Silent ∧ dec.exceptions = [])
      (dec.exceptions ≠ []) hv htext n key state h
    cases v with
    | document | array | codeWithScope => exact hv.elim
    | _ => exact ⟨hrenders,htouched⟩
  case document => exact fun d hd => document_renders hd
  case array => exact fun d hd => array_renders hd
  case scope => exact fun c scope hscope => scope_renders c hscope
  case nil =>
    intro n state dec path touched afterCompound h
    refine ⟨renders_nil,fun _ => ⟨afterCompound,?_⟩⟩
    rw [levelsAll,Nat.add_zero,Nat.max_eq_left h.le]
    exact h
  case cons => exact fun key v rest hv hd => cons_renders key hv hd

end Visits

/-- The paths rendered in decoding a document. -/
theorem renderedEx_renders (L : Libbson) (U : Userland) (d : Doc) (exhausted : Bool)
    (state : BsonState) (eg : Pending) :
    Renders (renderedEx L U (.read d exhausted) state eg) (overrunsAll L 0 0 false d)
      (U.Silent ∧ eg = []) (eg ≠ []) :=
  ((visit_renders L U).2 d 0 { state with zchild := .array none [] } ⟨FieldPath.alloc,eg,[]⟩ [] 0
    false Touched.alloc).1

end Phongo
