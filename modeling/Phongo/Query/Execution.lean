import Mathlib.Tactic.Common
import Phongo.Command.Execution
import Phongo.Query.Merge

/-! `phongo_execute_query`: what becomes of the options of a Query and of those it is executed
with. -/
namespace Phongo
open OrderedTable Throwing

structure QueryCall (Rc Rp Wc : Type) where
  client : ℕ
  ns : CString
  query : Query Rc
  options : OptionsArgument Rc Rp Wc

/-- The Cursor object of a query, which is advanced. -/
structure QueryCursor (Rc Rp : Type) where
  cursor : ℕ
  database : CString
  collection : CString
  query : Query Rc
  readPreference : Option Rp
  session : Option SessionObject

structure QueryOutcome (Rc Rp : Type) where
  sent : Option (SentQuery Rc Rp)
  result : Throws (QueryCursor Rc Rp)

/-- What the options of a query come to. -/
structure QueryParts (Rp : Type) where
  readPreference : Option Rp
  session : Option SessionObject
  opts : Doc

namespace MongocExecution
variable {Rc Rp Wc : Type} (M : MongocExecution Rc Rp Wc)

/-- `phongo_execute_query` as far as it looks at the options. -/
def parseQueryOptions (call : QueryCall Rc Rp Wc) (serverId : UInt32) : Throws (QueryParts Rp) := do
  let readPreference ← call.options.parseReadPreference
  let (session,opts) ← call.options.parseSessionInto M call.client call.query.opts
  match M.serverIdAppend serverId opts with
  | some opts => return ⟨readPreference,session,opts⟩
  | none => .error (invalidArgument "Error appending \"serverId\" option" [])

/-- `phongo_execute_query` -/
def executeQuery (call : QueryCall Rc Rp Wc) (serverId : UInt32) : QueryOutcome Rc Rp :=
  match splitNamespace call.ns with
  | none => ⟨none,.error (invalidArgument "%s: %s"
      [.bytes (ascii "Invalid namespace provided"),.bytes call.ns.bytes])⟩
  | some (database,collection) =>
    match M.parseQueryOptions call serverId with
    | .error e => ⟨none,.error e⟩
    | .ok parts =>
      let sent : SentQuery Rc Rp := ⟨call.client,database,collection,call.query.readConcern,
        call.query.filter,parts.opts,parts.readPreference,call.query.maxAwaitTimeMs⟩
      match M.find sent with
      | .error e => ⟨some sent,.error e⟩
      | .ok cursor => ⟨some sent,.ok ⟨cursor,database,collection,call.query,parts.readPreference,
          parts.session⟩⟩

variable {M} {sessionId : Option ℕ → Int64} {call : QueryCall Rc Rp Wc} {serverId : UInt32}
  {parts : QueryParts Rp}

theorem parseQueryOptions_eq_ok (hM : M.Lawful sessionId)
    (h : M.parseQueryOptions call serverId = .ok parts) :
    call.options.parseSession M call.client = .ok parts.session ∧
    parts.opts = call.query.opts ++ present
      [(sessionIdName,parts.session.map fun s => .int64 (sessionId s.clientSession)),
        (serverIdName,some (.int32 serverId.toInt32))] := by
  obtain ⟨readPreference,-,h⟩ := bind_eq_ok.mp h
  obtain ⟨⟨session,opts⟩,hsession,h⟩ := bind_eq_ok.mp h
  obtain ⟨hparsed,hopts⟩ := OptionsArgument.parseSessionInto_eq_ok hM hsession
  cases happend : M.serverIdAppend serverId opts with
  | none =>
    simp only [happend] at h
    cases h
  | some d =>
    simp only [happend] at h
    cases h
    refine ⟨hparsed,?_⟩
    have hserver : [(serverIdName,BsonValue.int32 serverId.toInt32)] =
        present [(serverIdName,some (.int32 serverId.toInt32))] := rfl
    rw [hM.serverIdAppend _ _ _ happend,hopts,List.append_assoc,hserver,← present_append]
    rfl

theorem executeQuery_sent {sent : SentQuery Rc Rp}
    (h : (M.executeQuery call serverId).sent = some sent) :
    ∃ database collection parts, splitNamespace call.ns = some (database,collection) ∧
      M.parseQueryOptions call serverId = .ok parts ∧
      sent = ⟨call.client,database,collection,call.query.readConcern,call.query.filter,parts.opts,
        parts.readPreference,call.query.maxAwaitTimeMs⟩ ∧
      ∀ cursor, (M.executeQuery call serverId).result = .ok cursor →
        cursor.session = parts.session ∧ cursor.query = call.query := by
  unfold executeQuery at h ⊢
  cases hns : splitNamespace call.ns with
  | none => simp [hns] at h
  | some names =>
    obtain ⟨database,collection⟩ := names
    simp only [hns] at h ⊢
    cases hparts : M.parseQueryOptions call serverId with
    | error e => simp [hparts] at h
    | ok parts =>
      simp only [hparts] at h ⊢
      refine ⟨database,collection,parts,rfl,rfl,?_⟩
      split at h
      · cases h
        exact ⟨rfl,fun _ hcursor => (by cases hcursor)⟩
      · cases h
        refine ⟨rfl,fun cursor hcursor => ?_⟩
        cases hcursor
        exact ⟨rfl,rfl⟩

end MongocExecution

/-- The two names of a namespace, joined by a dot, are the namespace. -/
theorem splitNamespace_joins {ns database collection : CString}
    (h : splitNamespace ns = some (database,collection)) :
    ns.bytes = database.bytes ++ 46::collection.bytes ∧ (46 : UInt8) ∉ database.bytes := by
  unfold splitNamespace at h
  split at h
  · rename_i hmem
    cases h
    have happend := List.takeWhile_append_dropWhile (p:=(· ≠ 46)) (l:=ns.bytes)
    have hzero : ∀ {s : Bytes}, s ⊆ ns.bytes → (CString.ofBytes s).bytes = s := fun hs =>
      CString.bytes_ofBytes_of_notMem _ fun h0 => ns.zero_notMem (hs h0)
    have htake : ns.bytes.takeWhile (· ≠ 46) ⊆ ns.bytes := (List.takeWhile_prefix _).subset
    have hdrop : ns.bytes.dropWhile (· ≠ 46) ⊆ ns.bytes := (List.dropWhile_suffix _).subset
    rw [hzero htake,hzero (List.Subset.trans (List.drop_subset 1 _) hdrop)]
    refine ⟨?_,fun h46 => by simpa using List.mem_takeWhile_imp h46⟩
    cases hrest : ns.bytes.dropWhile (· ≠ 46) with
    | nil =>
      have hall := List.dropWhile_eq_nil_iff.mp hrest 46 hmem
      simp at hall
    | cons b rest =>
      have hhead := List.head?_dropWhile_not (· ≠ 46) ns.bytes
      rw [hrest] at hhead
      have hb : b = 46 := by simpa using hhead
      rw [hrest,hb] at happend
      exact happend.symm
  · cases h

section
variable {Rc Rp Wc : Type} {E : QueryOutside Rc} {options : Options} {filter : Zval}
  {ht : Option ℕ}

theorem QueryOutside.Accepts.filter_eq {q : Query Rc}
    (h : E.Accepts filter (.array ht options) q) : q.filter = E.document filter := by
  unfold Accepts construct at h
  split at h
  · obtain ⟨d,eg,hd,h⟩ := Attempt.bind_eq_some.mp h
    obtain rfl := Attempt.clean_bind_check d eg hd
    obtain rfl := (QueryOutside.toBson_eq hd).2
    split at h
    · obtain ⟨_,_,-,h⟩ := Attempt.bind_eq_some.mp h
      obtain ⟨_,_,-,h⟩ := Attempt.bind_eq_some.mp h
      obtain ⟨_,_,-,h⟩ := Attempt.bind_eq_some.mp h
      obtain ⟨_,_,-,h⟩ := Attempt.bind_eq_some.mp h
      obtain ⟨_,_,-,h⟩ := Attempt.bind_eq_some.mp h
      obtain ⟨_,_,-,h⟩ := Attempt.bind_eq_some.mp h
      cases h
      rfl
    · cases h
  · cases h

variable {M : MongocExecution Rc Rp Wc} {sessionId : Option ℕ → Int64}
  {call : QueryCall Rc Rp Wc} {serverId : UInt32} {sent : SentQuery Rc Rp}

/-- What is sent for a Query has each of its options once, as they were given to the Query, with
the server and the session that they were not asked for; the session is of the client, and the
Cursor keeps it. -/
theorem query_sent (hquery : E.Accepts filter (.array ht options) call.query)
    (hM : M.Lawful sessionId) (h : (M.executeQuery call serverId).sent = some sent) :
    (keys sent.opts).Nodup ∧
    (∀ o ∈ mergedOptions, E.Becomes o.kind (o.given options)
      (find? sent.opts (CString.lit o.opt))) ∧
    (∀ e ∈ E.limitEntries options, find? sent.opts e.1 = e.2) ∧
    find? sent.opts serverIdName = some (.int32 serverId.toInt32) ∧
    (∃ session, find? sent.opts sessionIdName =
        session.map (fun s : SessionObject => .int64 (sessionId s.clientSession)) ∧
      session = call.options.given OptionArray.session OptionObject.session? ∧
      (∀ s ∈ session, M.sessionGetClient s.clientSession = sent.client) ∧
      ∀ cursor, (M.executeQuery call serverId).result = .ok cursor → cursor.session = session) ∧
    sent.filter = E.document filter ∧
    call.ns.bytes = sent.database.bytes ++ 46::sent.collection.bytes := by
  obtain ⟨database,collection,parts,hns,hparts,rfl,hresult⟩ :=
    MongocExecution.executeQuery_sent h
  obtain ⟨hparsed,hopts⟩ := MongocExecution.parseQueryOptions_eq_ok hM hparts
  obtain ⟨hgiven,hclient⟩ := OptionsArgument.parseSession_eq_ok hparsed
  obtain ⟨hkeys,hmerged,hlimit⟩ := hquery.find?_opts
  have hn : [sessionIdName,serverIdName].Nodup := by decide
  have hdisjoint : ∀ key ∈ optsKeys, key ∉ [sessionIdName,serverIdName] := by decide
  -- what is appended hides no option, and is hidden by none
  have hown : ∀ key ∈ optsKeys, find? parts.opts key = find? call.query.opts key :=
    fun key hkey => by
      have hnone := (find?_eq_none (present [(sessionIdName,parts.session.map fun s =>
        BsonValue.int64 (sessionId s.clientSession)),
        (serverIdName,some (.int32 serverId.toInt32))]) key).mpr fun hm =>
          hdisjoint key hkey ((keys_present _).subset hm)
      rw [hopts,find?_append,hnone,Option.or_none]
  have hadded : ∀ key ∉ optsKeys, find? parts.opts key = find? (present [(sessionIdName,
      parts.session.map fun s => .int64 (sessionId s.clientSession)),
      (serverIdName,some (.int32 serverId.toInt32))]) key := fun key hkey => by
    have hnone := (find?_eq_none call.query.opts key).mpr fun hm => hkey (hkeys.subset hm)
    rw [hopts,find?_append,hnone,Option.none_or]
  refine ⟨?_,fun o ho => ?_,fun e he => ?_,?_,⟨parts.session,?_,hgiven,hclient,
    fun cursor hcursor => (hresult cursor hcursor).1⟩,hquery.filter_eq,(splitNamespace_joins hns).1⟩
  · dsimp only
    rw [hopts,keys_append]
    refine List.nodup_append'.mpr ⟨hkeys.nodup nodup_optsKeys,(keys_present _).nodup hn,?_⟩
    exact fun key hkey hm => hdisjoint key (hkeys.subset hkey) ((keys_present _).subset hm)
  · have hkey : CString.lit o.opt ∈ optsKeys := List.mem_append_left _ (List.mem_map_of_mem ho)
    rw [hown _ hkey]
    exact hmerged o ho
  · have hkey : e.1 ∈ optsKeys := by
      refine List.mem_append_right _ ?_
      rw [← E.keys_limitEntries options]
      exact List.mem_map_of_mem he
    rw [hown _ hkey]
    exact hlimit e he
  · rw [hadded serverIdName (by decide)]
    exact find?_present hn (by simp)
  · rw [hadded sessionIdName (by decide)]
    exact find?_present hn (by simp)

end

/-- A Query with options of several kinds, executed in a session. -/
def mergingQuery : QueryCall Unit Unit Bool where
  client := 7
  ns := CString.lit "db.c.d"
  query := ⟨[],[(CString.lit "allowPartialResults",.bool false),
    (CString.lit "comment",.utf8 (ascii "a")),(CString.lit "maxTimeMS",.int64 5)],none,0⟩
  options := .array ⟨none,none,some (.session ⟨0,some 7⟩),none⟩

theorem query_sent_merging : ∃ sent,
    (MongocExecution.plain.executeQuery mergingQuery 3).sent = some sent ∧
    (keys sent.opts).Nodup ∧ find? sent.opts serverIdName = some (.int32 3) ∧
    mergingQuery.ns.bytes = sent.database.bytes ++ 46::sent.collection.bytes := by
  have hquery : QueryOutside.plain.Accepts (.array none []) (.array none Options.merging)
    mergingQuery.query := rfl
  obtain ⟨sent,hsent⟩ : ∃ sent,
    (MongocExecution.plain.executeQuery mergingQuery 3).sent = some sent := ⟨_,rfl⟩
  obtain ⟨hn,-,-,hserver,-,-,hns⟩ := query_sent hquery MongocExecution.plain_lawful hsent
  exact ⟨sent,hsent,hn,hserver,hns⟩

end Phongo
