import Mathlib.Algebra.Order.Group.Unbundled.Abs
import Mathlib.Tactic.Common
import Phongo.Query.Merge

/-! The "limit" and "singleBatch" options of a Query. -/
namespace Phongo
open OrderedTable Attempt

def Options.withoutLimit (options : Options) : Options :=
  options.filter fun e =>
    e.1 ≠ symtable (ascii "limit") ∧ e.1 ≠ symtable (ascii "singleBatch")

section
variable {Rc : Type} (E : QueryOutside Rc)

/-- The limit converts to a number, and a Query with the other options is accepted. -/
structure QueryOutside.AcceptsApart (filter : Zval) (ht : Option ℕ) (options : Options) :
    Prop where
  converts : (E.fetchLong options "limit" []).2 = []
  accepts : ∃ q, E.Accepts filter (.array ht options.withoutLimit) q

/-- What `mongoc_collection_find_with_opts` requires of these two options. -/
structure QueryOutside.Normalised (options : Options) (opts : Doc) : Prop where
  limit : match options.fetch "limit" with
    | none => find? opts (CString.lit "limit") = none
    | some _ => ∃ n : Int64, find? opts (CString.lit "limit") = some (.int64 n) ∧
        0 ≤ n.toInt ∧ n.toInt = |(E.limit options).toInt|
  singleBatch : find? opts (CString.lit "singleBatch") =
    if E.limit options < 0 then some (.bool true)
    else (options.fetch "singleBatch").map fun z => .bool z.isTrue

/-- A negative limit is made positive, with "singleBatch", or is in conflict with it. -/
structure QueryOutside.NormalisesLimit (filter : Zval) (ht : Option ℕ) (options : Options) :
    Prop where
  rejects : E.AcceptsApart filter ht options →
    ((¬ ∃ q, E.Accepts filter (.array ht options) q) ↔
      E.limit options < 0 ∧ options.SingleBatchFalse)
  normalises : ∀ q, E.Accepts filter (.array ht options) q → E.Normalised options q.opts

variable {E} {options : Options} {opts opts' : Doc} {filter : Zval} {ht : Option ℕ}

theorem Options.fetch_withoutLimit (options : Options) (key : String) :
    options.withoutLimit.fetch key =
      if symtable (ascii key) ≠ symtable (ascii "limit") ∧
        symtable (ascii key) ≠ symtable (ascii "singleBatch") then options.fetch key
      else none := by
  have h := find?_filter (fun k : Key =>
    decide (k ≠ symtable (ascii "limit") ∧ k ≠ symtable (ascii "singleBatch"))) options
    (symtable (ascii key))
  simpa [Options.fetch,Options.withoutLimit] using h

def OtherKey (key : String) : Prop :=
  symtable (ascii key) ≠ symtable (ascii "limit") ∧
    symtable (ascii key) ≠ symtable (ascii "singleBatch")

instance : DecidablePred OtherKey := fun _ => inferInstanceAs (Decidable (_ ∧ _))

theorem OtherKey.fetch_eq {key : String} (h : OtherKey key) :
    options.withoutLimit.fetch key = options.fetch key := by
  rw [Options.fetch_withoutLimit]
  exact if_pos h

theorem QueryOutside.statement_withoutLimit (modifiers : Option Options) {s : List QueryOpt}
    (h : ∀ u ∈ s, OtherKey u.key) (opts : Doc) :
    E.statement options.withoutLimit modifiers s opts = E.statement options modifiers s opts := by
  induction s with
  | nil => rfl
  | cons u s ih =>
    obtain ⟨hu,hrest⟩ := List.forall_mem_cons.mp h
    have hfetch : (u.zarr.of options.withoutLimit modifiers).bind (·.fetch u.key) =
        (u.zarr.of options modifiers).bind (·.fetch u.key) := by
      cases u.zarr with
      | options => exact hu.fetch_eq
      | modifiers => rfl
    rw [QueryOutside.statement,QueryOutside.statement,hfetch,ih hrest]

theorem QueryOutside.statements_withoutLimit (options : Options) (modifiers : Option Options)
    {ss : List (List QueryOpt)} (h : ∀ s ∈ ss, ∀ u ∈ s, OtherKey u.key) (opts : Doc) :
    E.statements options.withoutLimit modifiers ss opts =
      E.statements options modifiers ss opts := by
  induction ss generalizing opts with
  | nil => rfl
  | cons s ss ih =>
    obtain ⟨hs,hrest⟩ := List.forall_mem_cons.mp h
    rw [QueryOutside.statements,QueryOutside.statements,
      QueryOutside.statement_withoutLimit modifiers hs]
    exact congrArg _ (funext fun opts => ih hrest opts)

theorem otherKey_queryStatements : ∀ s ∈ queryStatements, ∀ u ∈ s, OtherKey u.key := by
  decide

/-- The other options are treated the same with or without the two. -/
theorem QueryOutside.acceptsOthers_withoutLimit {q : Query Rc} :
    E.AcceptsOthers filter options.withoutLimit opts q ↔
      E.AcceptsOthers filter options opts q := by
  have hmodifiers : fetchModifiers options.withoutLimit = fetchModifiers options := by
    unfold fetchModifiers
    rw [OtherKey.fetch_eq (by decide)]
  have hhint : ∀ modifiers opts, E.initHint options.withoutLimit modifiers opts =
      E.initHint options modifiers opts := by
    intro modifiers opts
    unfold QueryOutside.initHint
    rw [OtherKey.fetch_eq (by decide)]
  have hrc : E.initReadConcern options.withoutLimit = E.initReadConcern options := by
    unfold QueryOutside.initReadConcern
    rw [OtherKey.fetch_eq (by decide)]
  have hawait : E.initMaxAwaitTimeMs options.withoutLimit = E.initMaxAwaitTimeMs options := by
    unfold QueryOutside.initMaxAwaitTimeMs
    rw [OtherKey.fetch_eq (by decide)]
  have hstatements := fun modifiers => QueryOutside.statements_withoutLimit (E:=E) options
    modifiers otherKey_queryStatements
  constructor
  · intro h
    exact ⟨h.arrayOrObject,h.filterToBson,h.filterValid,
      by simpa only [hmodifiers,hhint,hstatements] using h.appended,
      hrc ▸ h.readConcern,hawait ▸ h.maxAwaitTimeMs⟩
  · intro h
    exact ⟨h.arrayOrObject,h.filterToBson,h.filterValid,
      by simpa only [hmodifiers,hhint,hstatements] using h.appended,
      hrc ▸ h.readConcern,hawait ▸ h.maxAwaitTimeMs⟩

theorem QueryOutside.fetchLong_eq (h : (E.fetchLong options "limit" []).2 = []) :
    E.fetchLong options "limit" [] = (some (E.limit options),[]) :=
  Prod.ext (QueryOutside.fetchLong_fst options []) h

/-- A statement with one key, for an option that needs no conversion that could fail. -/
theorem QueryOutside.statement_single (options : Options) (expand : QueryOptMacro)
    (key : String) (f : Zval → BsonValue) (opts : Doc)
    (h : ∀ z, options.fetch key = some z → E.append ⟨expand,key,.options,key⟩ z opts [] =
      (some (opts ++ [(CString.lit key,f z)]),[])) :
    E.statement options none [⟨expand,key,.options,key⟩] opts [] =
      (some (opts ++ present [(CString.lit key,(options.fetch key).map f)]),[]) := by
  rw [QueryOutside.statement]
  cases hz : options.fetch key with
  | none =>
    simp only [QueryArray.of,Option.bind_some,hz,Option.map_none,present_absent,List.append_nil]
    rfl
  | some z =>
    simp only [QueryArray.of,Option.bind_some,hz,Option.map_some,present_singleton]
    exact h z hz

theorem QueryOutside.initLimitAndSinglebatch_iff :
    E.initLimitAndSinglebatch options opts [] = (some opts',[]) ↔
      E.LimitAccepted options ∧ opts' = opts ++ present (E.limitEntries options) := by
  constructor
  · intro h
    exact (QueryOutside.initLimitAndSinglebatch_eq h).2
  · rintro ⟨⟨hconverts,hconflict⟩,rfl⟩
    have hlimit := QueryOutside.fetchLong_eq hconverts
    unfold QueryOutside.initLimitAndSinglebatch QueryOutside.limitEntries
    refine (bind_of_some hlimit).trans ?_
    by_cases hneg : E.limit options < 0
    · rw [if_pos hneg,if_pos hneg]
      refine (bind_of_some hlimit).trans ?_
      have hfalse : ¬ (options.fetch "singleBatch").any (!·.isTrue) = true := fun hfalse =>
        hconflict ⟨hneg,hfalse⟩
      rw [if_neg hfalse,List.append_assoc]
      rfl
    · rw [if_neg hneg,if_neg hneg]
      have hfirst := QueryOutside.statement_single (E:=E) options (.int64 false) "limit"
        (fun z => .int64 (E.number z)) opts fun z hz => by
          have hz' : E.zvalToLong z [] = (some (E.number z),[]) := by
            refine Prod.ext (QueryOutside.zvalToLong_fst z []) ?_
            rwa [QueryOutside.fetchLong,hz] at hconverts
          exact bind_of_some hz'
      have hsecond := fun opts => QueryOutside.statement_single (E:=E) options (.bool false)
        "singleBatch" (fun z => .bool z.isTrue) opts fun z hz => rfl
      refine (bind_of_some hfirst).trans ((bind_of_some (hsecond _)).trans ?_)
      rw [List.append_assoc,← present_append]
      rfl

theorem QueryOutside.limit_withoutLimit (options : Options) :
    E.limit options.withoutLimit = 0 ∧ E.LimitAccepted options.withoutLimit := by
  have hnone : options.withoutLimit.fetch "limit" = none := by
    rw [Options.fetch_withoutLimit]
    exact if_neg fun h => h.1 rfl
  have hzero : E.limit options.withoutLimit = 0 := by
    rw [QueryOutside.limit,hnone]
  refine ⟨hzero,?_,fun h => ?_⟩
  · rw [QueryOutside.fetchLong,hnone]
    rfl
  · rw [hzero] at h
    exact absurd h.1 (by decide)

theorem QueryOutside.AcceptsOthers.accepts {q : Query Rc}
    (h : E.AcceptsOthers filter options opts q) (hlimit : E.LimitAccepted options) :
    ∃ q, E.Accepts filter (.array ht options) q := by
  refine ⟨{ q with opts := opts ++ present (E.limitEntries options) },
    QueryOutside.accepts_iff.mpr ⟨opts,?_,?_⟩⟩
  · exact ⟨h.arrayOrObject,h.filterToBson,h.filterValid,h.appended,h.readConcern,
      h.maxAwaitTimeMs⟩
  · exact QueryOutside.initLimitAndSinglebatch_iff.mpr ⟨hlimit,rfl⟩

/-- A Query is accepted if it is without the two options, and these are. -/
theorem QueryOutside.exists_accepts_iff :
    (∃ q, E.Accepts filter (.array ht options) q) ↔
      (∃ q, E.Accepts filter (.array ht options.withoutLimit) q) ∧ E.LimitAccepted options := by
  constructor
  · rintro ⟨q,h⟩
    obtain ⟨opts,hothers,hlimit⟩ := QueryOutside.accepts_iff.mp h
    have hwithout := QueryOutside.acceptsOthers_withoutLimit.mpr hothers
    exact ⟨hwithout.accepts (QueryOutside.limit_withoutLimit options).2,
      (QueryOutside.initLimitAndSinglebatch_iff.mp hlimit).1⟩
  · rintro ⟨⟨q,h⟩,haccepted⟩
    obtain ⟨opts,hothers,-⟩ := QueryOutside.accepts_iff.mp h
    exact (QueryOutside.acceptsOthers_withoutLimit.mp hothers).accepts haccepted

theorem QueryOutside.rejects_iff (h : E.AcceptsApart filter ht options) :
    (¬ ∃ q, E.Accepts filter (.array ht options) q) ↔
      E.limit options < 0 ∧ options.SingleBatchFalse := by
  rw [QueryOutside.exists_accepts_iff]
  constructor
  · intro hrejected
    by_contra hconflict
    exact hrejected ⟨h.accepts,h.converts,hconflict⟩
  · rintro hconflict ⟨-,haccepted⟩
    exact haccepted.2 hconflict

theorem toInt_neg_of_ne_minValue {n : Int64} (h : n ≠ Int64.minValue) :
    (-n).toInt = -n.toInt := by
  have hbits : n.toBitVec ≠ BitVec.intMin 64 := fun hbits => h (Int64.toBitVec_inj.mp hbits)
  exact BitVec.toInt_neg_of_ne_intMin hbits

theorem QueryOutside.Accepts.normalised_iff {q : Query Rc}
    (h : E.Accepts filter (.array ht options) q) :
    E.Normalised options q.opts ↔ E.limit options ≠ Int64.minValue := by
  obtain ⟨-,-,hentries⟩ := h.find?_opts
  unfold QueryOutside.limitEntries at hentries
  by_cases hneg : E.limit options < 0
  · rw [if_pos hneg] at hentries
    obtain ⟨hlimit,hrest⟩ := List.forall_mem_cons.mp hentries
    have hsingle := List.forall_mem_singleton.mp hrest
    dsimp only at hlimit hsingle
    have hgiven : ∃ z, options.fetch "limit" = some z := by
      cases hz : options.fetch "limit" with
      | none =>
        simp [QueryOutside.limit,hz] at hneg
      | some z => exact ⟨z,rfl⟩
    obtain ⟨z,hz⟩ := hgiven
    have hnegative : (E.limit options).toInt < 0 := Int64.lt_iff_toInt_lt.mp hneg
    constructor
    · intro hnormalised hmin
      have hentry := hnormalised.limit
      rw [hz] at hentry
      obtain ⟨n,hn,hnonneg,-⟩ := hentry
      rw [hlimit] at hn
      cases hn
      rw [hmin] at hnonneg
      exact absurd hnonneg (by decide)
    · intro hmin
      have hneg' := toInt_neg_of_ne_minValue hmin
      refine ⟨?_,by rw [hsingle,if_pos hneg]⟩
      rw [hz]
      refine ⟨_,hlimit,by omega,?_⟩
      rw [hneg',abs_of_neg hnegative]
  · rw [if_neg hneg] at hentries
    obtain ⟨hlimit,hrest⟩ := List.forall_mem_cons.mp hentries
    have hsingle := List.forall_mem_singleton.mp hrest
    dsimp only at hlimit hsingle
    have hnonneg : 0 ≤ (E.limit options).toInt := by
      have h0 := mt Int64.lt_iff_toInt_lt.mpr hneg
      simpa using h0
    constructor
    · intro _ hmin
      exact hneg (hmin ▸ (by decide))
    · intro _
      refine ⟨?_,by rw [hsingle,if_neg hneg]⟩
      cases hz : options.fetch "limit" with
      | none => simpa [hz] using hlimit
      | some z =>
        have hnumber : E.limit options = E.number z := by rw [QueryOutside.limit,hz]
        rw [hz,Option.map_some] at hlimit
        exact ⟨_,hlimit,hnumber ▸ hnonneg,by rw [hnumber,abs_of_nonneg (hnumber ▸ hnonneg)]⟩

/-- A negative limit is normalised, or rejected where it conflicts with "singleBatch", but for the
smallest number, which is its own negation. -/
theorem normalises_limit_iff (filter : Zval) (ht : Option ℕ) (options : Options) :
    E.NormalisesLimit filter ht options ↔
      (E.AcceptsApart filter ht options → E.limit options = Int64.minValue →
        options.SingleBatchFalse) := by
  have hnegative : Int64.minValue < 0 := by decide
  constructor
  · intro h hapart hlimit
    by_contra hfalse
    have haccepted := (not_congr (h.rejects hapart)).mpr fun hconflict => hfalse hconflict.2
    obtain ⟨q,hq⟩ := not_not.mp haccepted
    exact hq.normalised_iff.mp (h.normalises q hq) hlimit
  · intro h
    refine ⟨QueryOutside.rejects_iff,fun q hq => hq.normalised_iff.mpr fun hlimit => ?_⟩
    obtain ⟨hothers,haccepted⟩ := QueryOutside.exists_accepts_iff.mp ⟨q,hq⟩
    exact haccepted.2 ⟨hlimit ▸ hnegative,h ⟨haccepted.1,hothers⟩ hlimit⟩

end

/-- The smallest limit stays negative. -/
theorem not_normalises_limit :
    ¬ QueryOutside.plain.NormalisesLimit (.array none []) none
      [(.str (ascii "limit"),.long Int64.minValue)] := by
  intro h
  have haccepts : QueryOutside.plain.Accepts (.array none [])
      (.array none [(.str (ascii "limit"),.long Int64.minValue)])
      ⟨[],[(CString.lit "limit",.int64 Int64.minValue),(CString.lit "singleBatch",.bool true)],
        none,0⟩ := rfl
  exact haccepts.normalised_iff.mp (h.normalises _ haccepts) rfl

end Phongo
