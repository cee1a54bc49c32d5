import Mathlib.Tactic.Common
import Phongo.Bson.Decodable
import Phongo.Bson.Overrun
import Phongo.Graph.Kept
import Phongo.Graph.Walk

/-! The field paths that are rendered for messages, in decoding and in encoding. -/
namespace Phongo
open Walking
variable {T O R : Type}

inductive Conversion (T O R : Type)
  | decode (input : BsonInput)
  | encode (h : PhpHeap T O R) (data : HeapValue T O)

namespace Conversion
variable [DecidableEq T]

/-- Some run of the conversion, on whatever the application does, calls
`php_phongo_field_path_as_string` on `fp`: on its own path, or on that of a scope it decodes. -/
def Renders (L : Libbson) : Conversion T O R → FieldPath → Prop
  | .decode input,fp => ∃ U state eg, fp ∈ renderedEx L U input state eg
  | .encode h data,fp => ∃ U depth flags recursive eg,
    let encoded := (Graph.zvalToBson h L U true depth data flags recursive eg).2
    encoded.ranOut = false ∧ (fp ∈ encoded.rendered ∨ fp ∈ encoded.output.scopePaths)

def scopeRejected (h : PhpHeap T O R) (L : Libbson) (v : HeapValue T O) : Bool :=
  (Graph.scopeOf h v).any fun scope => ! acceptsAll L scope

/-- The input is a document with corruption where the path overruns, or the encoder comes to a
Javascript object whose scope is, and nothing has been thrown before. -/
def Overruns (L : Libbson) : Conversion T O R → Prop
  | .decode (.read d _) => Phongo.Overruns L d
  | .decode .unreadable | .decode .uniterable => False
  | .encode h data => ∃ a, (Graph.rules h L (scopeRejected h L) true []).Comes []
      (Graph.rootAgenda h L data) false a ∧ a.pending = false ∧ Graph.ScopeOverruns h L a.value

end Conversion

section Encoding
variable [DecidableEq T] {h : PhpHeap T O R} {L : Libbson} {U : Userland}

omit [DecidableEq T] in
theorem scopeRejected_of_scopeThrows {v : HeapValue T O}
    (hv : Graph.scopeThrows h L U v = false) : Conversion.scopeRejected h L v = false := by
  unfold Graph.scopeThrows at hv
  unfold Conversion.scopeRejected
  cases hscope : Graph.scopeOf h v with
  | none => rfl
  | some scope =>
    rw [hscope] at hv
    by_contra hrejected
    have ha : acceptsAll L scope = false := by simpa using hrejected
    have hne := (bsonToZvalRoot_rejects (U:=U) ha true BsonState.init []).2.1
    have hnil : (bsonToZvalEx L U (.read scope true) BsonState.init []).exceptions = [] := by
      simpa using hv
    exact hne hnil

omit [DecidableEq T] in
theorem scopeThrows_of_scopeRejected (hsilent : U.Silent) {v : HeapValue T O}
    (hv : Conversion.scopeRejected h L v = false) : Graph.scopeThrows h L U v = false := by
  unfold Conversion.scopeRejected at hv
  unfold Graph.scopeThrows
  cases hscope : Graph.scopeOf h v with
  | none => rfl
  | some scope =>
    rw [hscope] at hv
    have ha : acceptsAll L scope = true := by simpa using hv
    have heg := (bsonToZvalEx_fresh (U:=U) ha Typemap.default []).2.2
    have hquiet := materialiseRoot_quiet (L:=L) hsilent.1 hsilent.2 Typemap.default [] scope
    have hnil : (bsonToZvalEx L U (.read scope true) BsonState.init []).exceptions = [] :=
      heg.trans hquiet
    simp [hnil]

theorem blocks_of_recursive {throws throws' : HeapValue T O → Bool} {recursive : List T}
    {around : List (HeapValue T O)} {v : HeapValue T O}
    (hv : (Graph.rules h L throws true recursive).blocks around v = false) :
    (Graph.rules h L throws' true []).blocks around v = false := by
  refine Bool.eq_false_iff.mpr fun hany => absurd hv ?_
  obtain ⟨t,ht,hmem⟩ := List.any_eq_true.mp hany
  have hflagged : t ∈ Graph.flagged h L true recursive around := by
    have hmem : t ∈ Graph.flagged h L true [] around := of_decide_eq_true hmem
    simp only [Graph.flagged,List.append_nil] at hmem
    exact List.mem_append_left _ hmem
  exact Bool.ne_false_iff.mpr (List.any_eq_true.mpr ⟨t,ht,decide_eq_true hflagged⟩)

/-- An encoding renders out of bounds only where a scope overruns. -/
theorem inBounds_of_encode {data : HeapValue T O} {fp : FieldPath}
    (hnot : ¬ (Conversion.encode h data).Overruns L)
    (hfp : (Conversion.encode h data).Renders L fp) : fp.InBounds := by
  obtain ⟨U,depth,flags,recursive,eg,hended,hfp⟩ := hfp
  rcases hfp with hfp | hfp
  · obtain ⟨later,hlater,hin⟩ :=
      (Graph.zvalToBson_keeps h L U true depth data flags recursive eg).rendered
    rw [hlater] at hfp
    exact hin fp hfp
  · by_contra hout
    let X : Graph.Setting T O R := ⟨h,L,U,true,recursive⟩
    have hwalks := X.zvalToBson_walks depth data flags eg
    obtain ⟨a,ha,hpending,hoverruns⟩ :=
      (hwalks.level (hwalks.ranOut.symm.trans hended)).scopes.arrived ⟨fp,hfp,hout⟩
    have hcomes := ((follows X.rules depth [] (Graph.rootAgenda h L data) rfl).comes a
      ha).resolve_left List.not_mem_nil
    have heg : (! eg.isEmpty) = false := by
      refine Bool.eq_false_iff.mpr fun hp => ?_
      exact absurd (hpending.symm.trans (hcomes.pending_eq hp)) (by decide)
    have hmilder : Milder X.rules (Graph.rules h L (Conversion.scopeRejected h L) true []) :=
      ⟨rfl,fun _ => scopeRejected_of_scopeThrows,fun _ _ => blocks_of_recursive⟩
    exact hnot ⟨a,hmilder.comes hcomes heg hpending,hpending,hoverruns⟩

/-- Where a scope overruns, an encoding in which the application throws nothing renders out of
bounds. -/
theorem outOfBounds_of_overruns [Fintype T] {data : HeapValue T O}
    (hoverruns : (Conversion.encode h data).Overruns L) :
    ∃ fp, (Conversion.encode h data).Renders L fp ∧ ¬ fp.InBounds := by
  obtain ⟨a,hcomes,hpending,hscope⟩ := hoverruns
  have hsilent : (Userland.keeping .person).Silent :=
    ⟨Userland.keeping_quiet .person,Userland.keeping_loads .person⟩
  let X : Graph.Setting T O R := ⟨h,L,.keeping .person,true,[]⟩
  have hmilder : Milder (Graph.rules h L (Conversion.scopeRejected h L) true []) X.rules :=
    ⟨rfl,fun _ => scopeThrows_of_scopeRejected hsilent,fun _ _ => blocks_of_recursive⟩
  obtain ⟨n,hn⟩ := arrives_of_comes (hmilder.comes hcomes rfl hpending)
  let depth := max n (Fintype.card T + 1)
  have harrived := hn depth (Nat.le_max_left _ _) ⟨false,[],false⟩ rfl rfl
  have hended := Graph.zvalToBson_ends (h:=h) (L:=L) (U:=.keeping .person) (n:=depth)
    (Nat.lt_of_lt_of_le (Nat.lt_succ_self _) (Nat.le_max_right _ _)) data .none [] []
  have hwalks := X.zvalToBson_walks depth data .none []
  obtain ⟨fp,hfp,hout⟩ := (hwalks.level (hwalks.ranOut.symm.trans hended)).scopes.rendered hsilent
    ⟨a,harrived,hpending,hscope⟩
  exact ⟨fp,⟨_,depth,.none,[],[],hended,.inr hfp⟩,hout⟩

end Encoding

def corruptAfterDocument : Doc :=
  [(CString.lit "a",.document []),(CString.lit "b",.corrupt)]

end Phongo
