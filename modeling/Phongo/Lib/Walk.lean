import Mathlib.Tactic.Common

/-! Walks over values that may hold each other, and themselves. Coming to a value may fail, and
some of what a value asks for is left out once something has failed. Where a walk comes is a
relation on the values; following it with enough fuel comes to the same. -/
namespace Walking

/-- What a value has a walk do, in its order. -/
inductive Agenda (V : Type)
  | done
  /-- something fails -/
  | throws (rest : Agenda V)
  | value (v : V) (rest : Agenda V)
  /-- what comes of a call, which is only made while nothing has failed -/
  | call (inner : Agenda V)

structure Rules (V : Type) where
  agenda : V → Agenda V
  /-- coming to the value fails -/
  throws : V → Bool
  /-- the value is not entered inside of these values, and fails -/
  blocks : List V → V → Bool

/-- A value the walk has come to, the values it is inside of, innermost first, and whether
something has failed before. -/
structure Arrival (V : Type) where
  around : List V
  value : V
  pending : Bool

namespace Rules
variable {V : Type} (W : Rules V)

/-- Once the agenda is done, something has failed or not. -/
inductive Passes : List V → Agenda V → Bool → Bool → Prop
  | done {around p} : Passes around .done p p
  | throws {around rest p q} (h : Passes around rest true q) : Passes around (.throws rest) p q
  | blocked {around v rest p q} (hv : W.blocks around v = true)
      (h : Passes around rest true q) : Passes around (.value v rest) p q
  | entered {around v rest p p' q} (hv : W.blocks around v = false)
      (hinside : Passes (v::around) (W.agenda v) (p || W.throws v) p')
      (h : Passes around rest p' q) : Passes around (.value v rest) p q
  | skipped {around inner} : Passes around (.call inner) true true
  | called {around inner q} (h : Passes around inner false q) : Passes around (.call inner) false q

/-- Following the agenda, the walk comes to a value. -/
inductive Comes : List V → Agenda V → Bool → Arrival V → Prop
  | here {around v rest p} : Comes around (.value v rest) p ⟨around,v,p⟩
  | inside {around v rest p c} (hv : W.blocks around v = false)
      (h : Comes (v::around) (W.agenda v) (p || W.throws v) c) : Comes around (.value v rest) p c
  | throws {around rest p c} (h : Comes around rest true c) : Comes around (.throws rest) p c
  | blocked {around v rest p c} (hv : W.blocks around v = true)
      (h : Comes around rest true c) : Comes around (.value v rest) p c
  | entered {around v rest p p' c} (hv : W.blocks around v = false)
      (hinside : W.Passes (v::around) (W.agenda v) (p || W.throws v) p')
      (h : Comes around rest p' c) : Comes around (.value v rest) p c
  | called {around inner c} (h : Comes around inner false c) : Comes around (.call inner) false c

end Rules

/-- How far a walk with fuel has come. -/
structure Walker (V : Type) where
  pending : Bool
  arrivals : List (Arrival V)
  ranOut : Bool

/-- The agenda, where values are visited by `visit`. -/
def follow {V : Type} (visit : V → Walker V → Walker V) : Agenda V → Walker V → Walker V
  | .done, s => s
  | .throws rest, s => follow visit rest { s with pending := true }
  | .value v rest, s => follow visit rest (visit v s)
  | .call inner, s => if s.pending then s else follow visit inner s

def Walker.arrive {V : Type} (s : Walker V) (around : List V) (v : V) : Walker V :=
  { s with arrivals := s.arrivals ++ [⟨around,v,s.pending⟩] }

/-- Nothing is visited beyond the fuel. -/
def Rules.visit {V : Type} (W : Rules V) : ℕ → List V → V → Walker V → Walker V
  | 0,_,_,s => { s with ranOut := true }
  | n+1,around,v,s =>
    if s.ranOut then s
    else if W.blocks around v then { s.arrive around v with pending := true }
    else follow (W.visit n (v::around)) (W.agenda v)
      { s.arrive around v with pending := s.pending || W.throws v }

section Following
variable {V : Type} {W : Rules V} {around : List V} {a : Agenda V} {p q : Bool} {c : Arrival V}

/-- A walk that has run out of fuel comes nowhere else. -/
theorem visit_of_ranOut (n : ℕ) (v : V) {s : Walker V} (h : s.ranOut = true) :
    W.visit n around v s = s := by
  cases n with
  | zero => simp [Rules.visit,← h]
  | succ n => simp [Rules.visit,h]

theorem visit_blocked {v : V} (hv : W.blocks around v = true) (n : ℕ) {s : Walker V}
    (h : s.ranOut = false) :
    W.visit (n+1) around v s = { s.arrive around v with pending := true } := by
  simp [Rules.visit,h,hv]

theorem visit_entered {v : V} (hv : W.blocks around v = false) (n : ℕ) {s : Walker V}
    (h : s.ranOut = false) :
    W.visit (n+1) around v s = follow (W.visit n (v::around)) (W.agenda v)
      { s.arrive around v with pending := s.pending || W.throws v } := by
  simp [Rules.visit,h,hv]

theorem follow_of_ranOut {visit : V → Walker V → Walker V}
    (hvisit : ∀ v s, s.ranOut = true → visit v s = s) (a : Agenda V) {s : Walker V}
    (h : s.ranOut = true) :
    (follow visit a s).ranOut = true ∧ (follow visit a s).arrivals = s.arrivals := by
  induction a generalizing s with
  | done => exact ⟨h,rfl⟩
  | throws rest ih => exact ih (s:={ s with pending := true }) h
  | value v rest ih =>
    rw [follow,hvisit v s h]
    exact ih h
  | call inner ih =>
    rw [follow]
    split_ifs
    · exact ⟨h,rfl⟩
    · exact ih h

theorem arrivals_follow {visit : V → Walker V → Walker V}
    (hvisit : ∀ v s, s.arrivals <+: (visit v s).arrivals) (a : Agenda V) (s : Walker V) :
    s.arrivals <+: (follow visit a s).arrivals := by
  induction a generalizing s with
  | done => exact List.prefix_rfl
  | throws rest ih => exact ih { s with pending := true }
  | value v rest ih => exact (hvisit v s).trans (ih (visit v s))
  | call inner ih =>
    rw [follow]
    split_ifs
    · exact List.prefix_rfl
    · exact ih s

theorem arrivals_visit (n : ℕ) (around : List V) (v : V) (s : Walker V) :
    s.arrivals <+: (W.visit n around v s).arrivals := by
  induction n generalizing around v s with
  | zero => exact List.prefix_rfl
  | succ n ih =>
    have harrive : s.arrivals <+: (s.arrive around v).arrivals := List.prefix_append _ _
    rw [Rules.visit]
    split_ifs
    · exact List.prefix_rfl
    · exact harrive
    · exact harrive.trans (arrivals_follow (ih (v::around)) (W.agenda v)
        { s.arrive around v with pending := s.pending || W.throws v })

/-- The walker has come only to what the agenda leads to, and if it got to the end, the agenda
passes. -/
structure Follows (W : Rules V) (around : List V) (a : Agenda V) (s s' : Walker V) : Prop where
  comes : ∀ c ∈ s'.arrivals, c ∈ s.arrivals ∨ W.Comes around a s.pending c
  passes : s'.ranOut = false → W.Passes around a s.pending s'.pending

structure Visits (W : Rules V) (around : List V) (v : V) (s s' : Walker V) : Prop where
  comes : ∀ c ∈ s'.arrivals, c ∈ s.arrivals ∨ c = ⟨around,v,s.pending⟩ ∨
    W.blocks around v = false ∧ W.Comes (v::around) (W.agenda v) (s.pending || W.throws v) c
  passes : s'.ranOut = false → W.blocks around v = true ∧ s'.pending = true ∨
    W.blocks around v = false ∧
      W.Passes (v::around) (W.agenda v) (s.pending || W.throws v) s'.pending

theorem follows_of_visits {n : ℕ} (hvisit : ∀ v s, s.ranOut = false →
      Visits W around v s (W.visit n around v s)) (a : Agenda V) {s : Walker V}
    (hs : s.ranOut = false) : Follows W around a s (follow (W.visit n around) a s) := by
  induction a generalizing s with
  | done => exact ⟨fun c hc => .inl hc,fun _ => .done⟩
  | throws rest ih =>
    obtain ⟨hcomes,hpasses⟩ := ih (s:={ s with pending := true }) hs
    exact ⟨fun c hc => (hcomes c hc).imp_right .throws,fun hout => .throws (hpasses hout)⟩
  | value v rest ih =>
    have hv := hvisit v s hs
    rw [follow]
    cases hout : (W.visit n around v s).ranOut with
    | true =>
      obtain ⟨hrest,harrivals⟩ := follow_of_ranOut (fun v _ => visit_of_ranOut n v) rest hout
      refine ⟨fun c hc => ?_,fun h => absurd (hrest.symm.trans h) (by decide)⟩
      rw [harrivals] at hc
      rcases hv.comes c hc with hc | rfl | ⟨hblocks,hc⟩
      · exact .inl hc
      · exact .inr .here
      · exact .inr (.inside hblocks hc)
    | false =>
      obtain ⟨hcomes,hpasses⟩ := ih hout
      have hpass := hv.passes hout
      refine ⟨fun c hc => ?_,fun h => ?_⟩
      · rcases hcomes c hc with hc | hc
        · rcases hv.comes c hc with hc | rfl | ⟨hblocks,hc⟩
          · exact .inl hc
          · exact .inr .here
          · exact .inr (.inside hblocks hc)
        · rcases hpass with ⟨hblocks,hpending⟩ | ⟨hblocks,hinside⟩
          · rw [hpending] at hc
            exact .inr (.blocked hblocks hc)
          · exact .inr (.entered hblocks hinside hc)
      · have hrest := hpasses h
        rcases hpass with ⟨hblocks,hpending⟩ | ⟨hblocks,hinside⟩
        · rw [hpending] at hrest
          exact .blocked hblocks hrest
        · exact .entered hblocks hinside hrest
  | call inner ih =>
    rw [follow]
    cases hp : s.pending with
    | true =>
      rw [if_pos rfl]
      refine ⟨fun c hc => .inl hc,fun _ => ?_⟩
      rw [hp]
      exact .skipped
    | false =>
      obtain ⟨hcomes,hpasses⟩ := ih hs
      rw [if_neg Bool.false_ne_true]
      rw [hp] at hcomes hpasses
      refine ⟨fun c hc => ?_,fun h => ?_⟩
      · rw [hp]
        exact (hcomes c hc).imp_right .called
      · rw [hp]
        exact .called (hpasses h)

theorem visits (W : Rules V) (n : ℕ) (around : List V) (v : V) {s : Walker V}
    (hs : s.ranOut = false) : Visits W around v s (W.visit n around v s) := by
  have harrive : ∀ around v (s : Walker V), ∀ c ∈ (s.arrive around v).arrivals,
      c ∈ s.arrivals ∨ c = ⟨around,v,s.pending⟩ := fun around v s c hc =>
    (List.mem_append.mp hc).imp_right List.mem_singleton.mp
  induction n generalizing around v s with
  | zero => exact ⟨fun c hc => .inl hc,fun h => absurd h (by simp [Rules.visit])⟩
  | succ n ih =>
    cases hblocks : W.blocks around v with
    | true =>
      rw [visit_blocked hblocks n hs]
      exact ⟨fun c hc => (harrive around v s c hc).imp_right .inl,fun _ => .inl ⟨hblocks,rfl⟩⟩
    | false =>
      rw [visit_entered hblocks n hs]
      obtain ⟨hcomes,hpasses⟩ := follows_of_visits (n:=n) (fun v' _ h => ih (v::around) v' h)
        (W.agenda v) (s:={ s.arrive around v with pending := s.pending || W.throws v }) hs
      refine ⟨fun c hc => ?_,fun h => .inr ⟨hblocks,hpasses h⟩⟩
      rcases hcomes c hc with hc | hc
      · exact (harrive around v s c hc).imp_right .inl
      · exact .inr (.inr ⟨hblocks,hc⟩)

theorem follows (W : Rules V) (n : ℕ) (around : List V) (a : Agenda V) {s : Walker V}
    (hs : s.ranOut = false) : Follows W around a s (follow (W.visit n around) a s) :=
  follows_of_visits (fun v _ h => visits W n around v h) a hs

theorem follow_of_passes (h : W.Passes around a p q) : ∃ n, ∀ n' ≥ n, ∀ s : Walker V,
    s.ranOut = false → s.pending = p → (follow (W.visit n' around) a s).ranOut = false ∧
      (follow (W.visit n' around) a s).pending = q := by
  induction h with
  | done => exact ⟨0,fun n' _ s hs hp => ⟨hs,hp⟩⟩
  | throws _ ih =>
    obtain ⟨n,hn⟩ := ih
    exact ⟨n,fun n' hn' s hs _ => hn n' hn' { s with pending := true } hs rfl⟩
  | @blocked around v _ _ _ hblocks _ ih =>
    obtain ⟨n,hn⟩ := ih
    refine ⟨n+1,fun n' hn' s hs _ => ?_⟩
    obtain ⟨m,rfl⟩ := Nat.exists_eq_add_of_le' hn'
    rw [follow,← Nat.add_assoc,visit_blocked hblocks (m+n) hs]
    exact hn (m+n+1) (by omega) { s.arrive around v with pending := true } hs rfl
  | @entered around v _ _ _ _ hblocks _ _ ihinside ih =>
    obtain ⟨n,hn⟩ := ihinside
    obtain ⟨k,hk⟩ := ih
    refine ⟨n+k+1,fun n' hn' s hs hp => ?_⟩
    obtain ⟨m,rfl⟩ := Nat.exists_eq_add_of_le' hn'
    obtain ⟨hout,hpending⟩ := hn (m+(n+k)) (by omega)
      { s.arrive around v with pending := s.pending || W.throws v } hs (by simp [hp])
    rw [follow,← Nat.add_assoc,visit_entered hblocks (m+(n+k)) hs]
    apply hk (m+(n+k)+1) (by omega) _ hout hpending
  | skipped =>
    refine ⟨0,fun n' _ s hs hp => ?_⟩
    rw [follow,if_pos hp]
    exact ⟨hs,hp⟩
  | called _ ih =>
    obtain ⟨n,hn⟩ := ih
    refine ⟨n,fun n' hn' s hs hp => ?_⟩
    rw [follow,if_neg (by simp [hp])]
    exact hn n' hn' s hs hp

/-- Where the agenda leads to, a walker comes with enough fuel. -/
theorem arrives_of_comes (h : W.Comes around a p c) : ∃ n, ∀ n' ≥ n, ∀ s : Walker V,
    s.ranOut = false → s.pending = p → c ∈ (follow (W.visit n' around) a s).arrivals := by
  induction h with
  | @here around v rest _ =>
    refine ⟨1,fun n' hn' s hs hp => ?_⟩
    obtain ⟨m,rfl⟩ := Nat.exists_eq_add_of_le' hn'
    have harrived : ⟨around,v,s.pending⟩ ∈ (s.arrive around v).arrivals :=
      List.mem_append_right _ (List.mem_singleton.mpr rfl)
    rw [follow,← hp]
    apply (arrivals_follow (arrivals_visit (m+1) around) rest _).subset
    cases hblocks : W.blocks around v with
    | true =>
      rw [visit_blocked hblocks m hs]
      exact harrived
    | false =>
      rw [visit_entered hblocks m hs]
      apply (arrivals_follow (arrivals_visit m (v::around)) _ _).subset
      exact harrived
  | @inside around v rest _ _ hblocks _ ih =>
    obtain ⟨n,hn⟩ := ih
    refine ⟨n+1,fun n' hn' s hs hp => ?_⟩
    obtain ⟨m,rfl⟩ := Nat.exists_eq_add_of_le' hn'
    rw [follow,← Nat.add_assoc]
    apply (arrivals_follow (arrivals_visit (m+n+1) around) rest _).subset
    rw [visit_entered hblocks (m+n) hs]
    exact hn (m+n) (by omega) { s.arrive around v with pending := s.pending || W.throws v } hs
      (by simp [hp])
  | throws _ ih =>
    obtain ⟨n,hn⟩ := ih
    exact ⟨n,fun n' hn' s hs _ => hn n' hn' { s with pending := true } hs rfl⟩
  | @blocked around v _ _ _ hblocks _ ih =>
    obtain ⟨n,hn⟩ := ih
    refine ⟨n+1,fun n' hn' s hs _ => ?_⟩
    obtain ⟨m,rfl⟩ := Nat.exists_eq_add_of_le' hn'
    rw [follow,← Nat.add_assoc,visit_blocked hblocks (m+n) hs]
    exact hn (m+n+1) (by omega) { s.arrive around v with pending := true } hs rfl
  | @entered around v _ p p' _ hblocks hinside _ ih =>
    have hpassed : W.Passes around (.value v .done) p p' := .entered hblocks hinside .done
    obtain ⟨n,hn⟩ := follow_of_passes hpassed
    obtain ⟨k,hk⟩ := ih
    refine ⟨n+k,fun n' hn' s hs hp => ?_⟩
    obtain ⟨hout,hpending⟩ := hn n' (by omega) s hs hp
    exact hk n' (by omega) _ hout hpending
  | called _ ih =>
    obtain ⟨n,hn⟩ := ih
    refine ⟨n,fun n' hn' s hs hp => ?_⟩
    rw [follow,if_neg (by simp [hp])]
    exact hn n' hn' s hs hp

/-- The relation and the walks with fuel come to the same values. -/
theorem comes_iff : W.Comes around a p c ↔
    ∃ n, c ∈ (follow (W.visit n around) a ⟨p,[],false⟩).arrivals := by
  constructor
  · intro h
    obtain ⟨n,hn⟩ := arrives_of_comes h
    exact ⟨n,hn n (Nat.le_refl n) ⟨p,[],false⟩ rfl rfl⟩
  · rintro ⟨n,hc⟩
    exact ((follows W n around a rfl).comes c hc).resolve_left List.not_mem_nil

end Following

section Milder
variable {V : Type} {W W' : Rules V} {around : List V} {a : Agenda V} {p q : Bool} {c : Arrival V}

/-- Under the second rules no more fails, and no more is blocked, than under the first. -/
structure Milder (W W' : Rules V) : Prop where
  agenda : W'.agenda = W.agenda
  throws : ∀ v, W.throws v = false → W'.throws v = false
  blocks : ∀ around v, W.blocks around v = false → W'.blocks around v = false

theorem Rules.Passes.pending_eq (h : W.Passes around a p q) (hp : p = true) : q = true := by
  induction h with
  | done => exact hp
  | throws _ ih | blocked _ _ ih => exact ih rfl
  | entered _ _ _ ihinside ih => exact ih (ihinside (by simp [hp]))
  | skipped => rfl
  | called => cases hp

theorem Rules.Comes.pending_eq (h : W.Comes around a p c) (hp : p = true) : c.pending = true := by
  induction h with
  | here => exact hp
  | inside _ _ ih => exact ih (by simp [hp])
  | throws _ ih | blocked _ _ ih => exact ih rfl
  | entered _ hinside _ ih => exact ih (hinside.pending_eq (by simp [hp]))
  | called => cases hp

theorem Milder.passes (hW : Milder W W') (h : W.Passes around a p q) (hp : p = false)
    (hq : q = false) : W'.Passes around a false false := by
  induction h with
  | done => exact .done
  | throws h _ | blocked _ h _ => exact absurd (hq.symm.trans (h.pending_eq rfl)) (by decide)
  | @entered around v rest p p' q hblocks hinside h ihinside ih =>
    have hp' : p' = false := by
      cases hp' : p' with
      | false => rfl
      | true => exact absurd (hq.symm.trans (h.pending_eq hp')) (by decide)
    have hthrows : W.throws v = false := by
      cases hthrows : W.throws v with
      | false => rfl
      | true => exact absurd (hp'.symm.trans (hinside.pending_eq (by simp [hthrows]))) (by decide)
    refine .entered (hW.blocks _ _ hblocks) ?_ (ih hp' hq)
    rw [hW.agenda,hW.throws v hthrows]
    exact ihinside (by simp [hp,hthrows]) hp'
  | skipped => cases hp
  | called _ ih => exact .called (ih rfl hq)

/-- Where a walk comes before anything has failed, one by milder rules comes too. -/
theorem Milder.comes (hW : Milder W W') (h : W.Comes around a p c) (hp : p = false)
    (hc : c.pending = false) : W'.Comes around a false c := by
  induction h with
  | here => exact hp ▸ .here
  | @inside around v rest p c hblocks h ih =>
    have hthrows : W.throws v = false := by
      cases hthrows : W.throws v with
      | false => rfl
      | true => exact absurd (hc.symm.trans (h.pending_eq (by simp [hthrows]))) (by decide)
    refine .inside (hW.blocks _ _ hblocks) ?_
    rw [hW.agenda,hW.throws v hthrows]
    exact ih (by simp [hp,hthrows]) hc
  | throws h _ | blocked _ h _ => exact absurd (hc.symm.trans (h.pending_eq rfl)) (by decide)
  | @entered around v rest p p' c hblocks hinside h ih =>
    have hp' : p' = false := by
      cases hp' : p' with
      | false => rfl
      | true => exact absurd (hc.symm.trans (h.pending_eq hp')) (by decide)
    have hthrows : W.throws v = false := by
      cases hthrows : W.throws v with
      | false => rfl
      | true => exact absurd (hp'.symm.trans (hinside.pending_eq (by simp [hthrows]))) (by decide)
    refine .entered (hW.blocks _ _ hblocks) ?_ (ih hp' hc)
    rw [hW.agenda,hW.throws v hthrows]
    exact hW.passes hinside (by simp [hp,hthrows]) hp'
  | called _ ih => exact .called (ih rfl hc)

end Milder

end Walking
