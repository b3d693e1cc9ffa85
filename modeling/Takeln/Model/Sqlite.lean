import Takeln.Model.Postgres
import Takeln.Sql.OrderBy
import Takeln.Time.Parse

/-!
# The SQLite checkpointer

`SqliteCheckpointer` (`store/sqlite.rs`): one table whose columns are texts.  An operation holds the connection, or a
transaction on it, to its end, so it is a function on tables; statements do not fail for reasons outside the table.
The latest row of a thread is the first one by descending `created_at`, a text; the operations that sort rows are
given the arrangement each of their queries uses.
-/

namespace Takeln.Sqlite

open Rfc3339 (InYears rfc3339)
open Sql (Arrangement)

/-- JSON texts of a type (`serde_json`). -/
class JsonText (α : Type) where
  /-- `serde_json::to_string` -/
  toText : α → Except String String
  /-- `serde_json::from_str` -/
  fromText : String → Except String α

/-- Times as the crate `chrono` prints and parses them. -/
class Chrono where
  /-- `to_rfc3339` of a UTC time -/
  toRfc3339 : Int → String
  /-- `parse_from_rfc3339`; `none` for an error -/
  parseFromRfc3339 : String → Option Int
  /-- The earliest time a `DateTime<Utc>` holds. -/
  minUtc : Int

/-- The years 0 to 9999 are printed as RFC 3339 texts and earlier ones with a sign, and what is printed is parsed. -/
class Chrono.Documented [Chrono] : Prop where
  toRfc3339_eq {t : Int} : InYears t → Chrono.toRfc3339 t = rfc3339 t
  toRfc3339_sign {t : Int} : Chrono.minUtc ≤ t → t < Rfc3339.firstTime →
    (Chrono.toRfc3339 t).toList.head? = some '-'
  parse_toRfc3339 {t : Int} : InYears t → Chrono.parseFromRfc3339 (Chrono.toRfc3339 t) = some t

/-- A time of a checkpoint and a cutoff are ordered as their texts, also if the cutoff lies before the year 0. -/
theorem toRfc3339_lt_iff [Chrono] [Chrono.Documented] {t c now : Int} (ht : InYears t) (hnow : InYears now)
    (hc : c ≤ now) (hmin : Chrono.minUtc ≤ c) : Chrono.toRfc3339 t < Chrono.toRfc3339 c ↔ t < c := by
  rw [Chrono.Documented.toRfc3339_eq ht]
  by_cases hyear : Rfc3339.firstTime ≤ c
  · have hc' : InYears c := ⟨hyear, lt_of_le_of_lt hc hnow.2⟩
    rw [Chrono.Documented.toRfc3339_eq hc']
    exact Rfc3339.rfc3339_lt_iff ht hc'
  · have hsign := Chrono.Documented.toRfc3339_sign hmin (not_le.1 hyear)
    have hle : c ≤ t := le_trans (le_of_lt (not_le.1 hyear)) ht.1
    exact iff_of_false (lt_asymm (Rfc3339.lt_rfc3339_of_sign hsign ht)) (not_lt.2 hle)

/-- `parse_status` -/
def parseStatus : String → CheckpointStatus := Postgres.parseCheckpointStatus

/-! ### The table -/

/-- A row of `takeln_checkpoints`. -/
structure Row where
  id : String
  threadId : String
  state : String
  nextNode : String
  dag : Option String
  status : String
  createdAt : String
  yieldRequest : Option String
  claimedInterrupt : Option String
  resolvedInterrupt : Option String

/-- `takeln_checkpoints`, in the order of the inserts. -/
structure Table where
  rows : List Row
  /-- `id TEXT PRIMARY KEY` -/
  keys : (rows.map Row.id).Nodup

/-- `ORDER BY created_at`, with ties settled somehow. -/
abbrev Order := Arrangement Row.createdAt

namespace Table

def empty : Table := ⟨[], List.nodup_nil⟩

/-- The rows of a thread. -/
def thread (T : Table) (threadId : String) : List Row := T.rows.filter fun r => decide (r.threadId = threadId)

/-- `WHERE thread_id = ?1 ORDER BY created_at DESC LIMIT 1` -/
def latest (T : Table) (order : Order) (threadId : String) : Option Row := (order.desc (T.thread threadId)).head?

def insert (T : Table) (row : Row) (hid : row.id ∉ T.rows.map Row.id) : Table where
  rows := T.rows ++ [row]
  keys := by
    rw [List.map_append]
    refine List.Nodup.append T.keys (List.nodup_singleton _) fun id hmem hid' => ?_
    cases List.mem_singleton.1 hid'
    exact hid hmem

/-- Delete the rows of a thread that meet a condition, and count them. -/
def delete (T : Table) (threadId : String) (p : Row → Bool) : Nat × Table :=
  (T.rows.countP fun r => decide (r.threadId = threadId) && p r,
    { rows := T.rows.filter fun r => !(decide (r.threadId = threadId) && p r)
      keys := T.keys.sublist (List.filter_sublist.map _) })

/-- What the update of a claim does to a row, if the latest one has this id. -/
def claimRow (latestId interruptId : String) (r : Row) : Row :=
  if r.id = latestId ∧ r.status = "Yielded" then
    { r with status := "Running", claimedInterrupt := some interruptId }
  else r

theorem claimRow_id (latestId interruptId : String) (r : Row) : (claimRow latestId interruptId r).id = r.id := by
  unfold claimRow
  split <;> rfl

theorem claimRow_threadId (latestId interruptId : String) (r : Row) :
    (claimRow latestId interruptId r).threadId = r.threadId := by
  unfold claimRow
  split <;> rfl

/-- `UPDATE … SET status = 'Running', claimed_interrupt = ?1 WHERE id = (the latest one) AND status = 'Yielded'`,
with the number of rows it changes. -/
def claim (T : Table) (order : Order) (threadId interruptId : String) : Nat × Table :=
  match T.latest order threadId with
  | none => (0, T)
  | some last =>
    (T.rows.countP fun r => decide (r.id = last.id ∧ r.status = "Yielded"),
      { rows := T.rows.map (claimRow last.id interruptId)
        keys := by
          rw [List.map_map]
          simpa only [Function.comp_def, claimRow_id] using T.keys })

/-! ### What statements do to a thread -/

variable {T : Table}

theorem mem_thread {threadId : String} {r : Row} : r ∈ T.thread threadId ↔ r ∈ T.rows ∧ r.threadId = threadId := by
  simp [thread]

/-- The primary key, within a thread. -/
theorem nodup_ids (T : Table) (threadId : String) : ((T.thread threadId).map Row.id).Nodup :=
  T.keys.sublist (List.filter_sublist.map _)

theorem eq_of_id_eq {r r' : Row} (hr : r ∈ T.rows) (hr' : r' ∈ T.rows) (h : r.id = r'.id) : r = r' :=
  List.inj_on_of_nodup_map T.keys hr hr' h

theorem mem_of_latest {order : Order} {threadId : String} {last : Row} (h : T.latest order threadId = some last) :
    last ∈ T.thread threadId :=
  (order.perm _).mem_iff.1 (List.mem_of_mem_head? h)

theorem thread_insert (row : Row) (hid : row.id ∉ T.rows.map Row.id) (threadId : String) :
    (T.insert row hid).thread threadId = T.thread threadId ++ if row.threadId = threadId then [row] else [] := by
  unfold thread insert
  rw [List.filter_append]
  by_cases h : row.threadId = threadId
  · simp [h]
  · simp [h]

theorem delete_fst (threadId : String) (p : Row → Bool) : (T.delete threadId p).1 = (T.thread threadId).countP p := by
  unfold delete thread
  rw [List.countP_filter]
  simp only [Bool.and_comm]

theorem thread_delete_self (threadId : String) (p : Row → Bool) :
    (T.delete threadId p).2.thread threadId = (T.thread threadId).filter fun r => !p r := by
  unfold delete thread
  rw [List.filter_filter, List.filter_filter]
  apply List.filter_congr
  intro r _
  by_cases h : r.threadId = threadId
  · simp [h]
  · simp [h]

theorem thread_delete_of_ne {threadId other : String} (h : other ≠ threadId) (p : Row → Bool) :
    (T.delete threadId p).2.thread other = T.thread other := by
  unfold delete thread
  rw [List.filter_filter]
  apply List.filter_congr
  intro r _
  by_cases hr : r.threadId = other
  · have hne : r.threadId ≠ threadId := fun h' => h (hr.symm.trans h')
    simp [hr, h]
  · simp [hr]

/-- A claim finds the latest row under its id, and no other. -/
theorem claim_fst {order : Order} {threadId interruptId : String} {last : Row}
    (hlast : T.latest order threadId = some last) (hstatus : last.status = "Yielded") :
    (T.claim order threadId interruptId).1 = 1 := by
  have hmem : last ∈ T.rows := (mem_thread.1 (mem_of_latest hlast)).1
  have hcount : T.rows.countP (fun r => decide (r.id = last.id ∧ r.status = "Yielded")) =
      (T.rows.map Row.id).count last.id := by
    rw [List.count_eq_countP, List.countP_map]
    apply List.countP_congr
    intro r hr
    simp only [decide_eq_true_eq, Function.comp_apply, beq_iff_eq]
    constructor
    · exact And.left
    · intro hid
      exact ⟨hid, eq_of_id_eq hr hmem hid ▸ hstatus⟩
  unfold claim
  rw [hlast]
  dsimp only
  rw [hcount]
  exact List.count_eq_one_of_mem T.keys (List.mem_map_of_mem hmem)

theorem thread_claim {order : Order} {threadId : String} {last : Row} (hlast : T.latest order threadId = some last)
    (interruptId other : String) :
    (T.claim order threadId interruptId).2.thread other =
      (T.thread other).map (claimRow last.id interruptId) := by
  unfold claim
  rw [hlast]
  unfold thread
  dsimp only
  rw [List.filter_map]
  simp only [Function.comp_def, claimRow_threadId]

/-- Other threads keep their rows. -/
theorem thread_claim_of_ne {order : Order} {threadId other : String} (hne : other ≠ threadId) (interruptId : String) :
    (T.claim order threadId interruptId).2.thread other = T.thread other := by
  cases hlast : T.latest order threadId with
  | none =>
    unfold claim
    rw [hlast]
  | some last =>
    have hmem := mem_thread.1 (mem_of_latest hlast)
    rw [thread_claim hlast, List.map_congr_left (g := id), List.map_id]
    intro r hr
    have hr' := mem_thread.1 hr
    have hid : r.id ≠ last.id := by
      intro hid
      have heq := eq_of_id_eq hr'.1 hmem.1 hid
      rw [heq] at hr'
      exact hne (hr'.2.symm.trans hmem.2)
    exact if_neg fun h => hid h.1

/-- If the latest row is the last one of its thread, a claim changes the last one. -/
theorem thread_claim_self {order : Order} {threadId : String} {rows : List Row} {last : Row}
    (hlast : T.latest order threadId = some last) (hthread : T.thread threadId = rows ++ [last])
    (hstatus : last.status = "Yielded") (interruptId : String) :
    (T.claim order threadId interruptId).2.thread threadId =
      rows ++ [{ last with status := "Running", claimedInterrupt := some interruptId }] := by
  have hids := T.nodup_ids threadId
  rw [hthread, List.map_append, List.nodup_append] at hids
  rw [thread_claim hlast, hthread, List.map_append]
  congr 1
  · rw [List.map_congr_left (g := id), List.map_id]
    intro r hr
    exact if_neg fun h => hids.2.2 _ (List.mem_map_of_mem hr) _ List.mem_cons_self h.1
  · exact congrArg (fun r => [r]) (if_pos ⟨rfl, hstatus⟩)

end Table

/-! ### The checkpointer -/

/-- The text of an optional column. -/
def encode {α : Type} [JsonText α] : Option α → Except TakelnError (Option String)
  | none => .ok none
  | some a => ((JsonText.toText a).mapError .serializationError).map some

def decode {α : Type} [JsonText α] : Option String → Except TakelnError (Option α)
  | none => .ok none
  | some text => ((JsonText.fromText text).mapError .deserializationError).map some

theorem encode_some_eq_ok {α : Type} [JsonText α] {a : α} {column : Option String} :
    encode (some a) = .ok column ↔ ∃ text, JsonText.toText a = .ok text ∧ column = some text := by
  simp only [encode]
  cases JsonText.toText a with
  | error e => simp [Except.mapError, Except.map]
  | ok text => simp [Except.mapError, Except.map, eq_comm]

theorem decode_some_eq_ok {α : Type} [JsonText α] {text : String} {x : Option α} :
    decode (some text) = .ok x ↔ ∃ a, JsonText.fromText text = .ok a ∧ x = some a := by
  simp only [decode]
  cases (JsonText.fromText text : Except String α) with
  | error e => simp [Except.mapError, Except.map]
  | ok a => simp [Except.mapError, Except.map, eq_comm]

section Operations

variable {S : Type} [JsonText S] [JsonText DAG] [JsonText YieldRequest] [Chrono]

/-- The row a save inserts. -/
def newRow (id : String) (now : Int) (args : SaveArgs S) : Except TakelnError Row := do
  let stateJson ← (JsonText.toText args.state).mapError .serializationError
  let dagJson ← encode args.dag
  let yieldRequestJson ← encode args.yieldRequest
  return {
    id := id, threadId := args.threadId, state := stateJson, nextNode := args.nextNode, dag := dagJson,
    status := args.status.debug, createdAt := Chrono.toRfc3339 now, yieldRequest := yieldRequestJson,
    claimedInterrupt := args.claimedInterrupt, resolvedInterrupt := args.resolvedInterrupt }

/-- The metadata in a row; a time that cannot be parsed is replaced by the current one. -/
def rowMeta (now : Int) (threadId : String) (row : Row) : Except TakelnError CheckpointMeta := do
  let yieldRequest ← decode row.yieldRequest
  return {
    checkpointId := row.id, threadId := threadId, nextNode := row.nextNode, status := parseStatus row.status,
    createdAt := (Chrono.parseFromRfc3339 row.createdAt).getD now, yieldRequest := yieldRequest,
    claimedInterrupt := row.claimedInterrupt, resolvedInterrupt := row.resolvedInterrupt }

/-- Read a row back. -/
def loadRow (now : Int) (threadId : String) (row : Row) : Except TakelnError (Loaded S) := do
  let state ← (JsonText.fromText row.state).mapError .deserializationError
  let dag ← decode row.dag
  let info ← rowMeta now threadId row
  return { state := state, info := info, dag := dag }

/-- Read back what a query found. -/
def loadFound (now : Int) (threadId : String) : Option Row → Except TakelnError (Option (Loaded S))
  | none => .ok none
  | some row => (loadRow now threadId row).map some

namespace Table

variable (T : Table)

def saveState (id : String) (now : Int) (args : SaveArgs S) : Except TakelnError String × Table :=
  match newRow id now args with
  | .error e => (.error e, T)
  | .ok row =>
    if h : row.id ∈ T.rows.map Row.id then
      (.error (.checkpointError "Failed to save: UNIQUE constraint failed: takeln_checkpoints.id"), T)
    else (.ok id, T.insert row h)

def loadState (order : Order) (now : Int) (threadId : String) : Except TakelnError (Option (Loaded S)) :=
  loadFound now threadId (T.latest order threadId)

def loadVersion (now : Int) (threadId checkpointId : String) : Except TakelnError (Option (Loaded S)) :=
  loadFound now threadId ((T.thread threadId).find? fun r => r.id == checkpointId)

def listCheckpoints (order : Order) (now : Int) (threadId : String) : Except TakelnError (List CheckpointMeta) :=
  (order.asc (T.thread threadId)).mapM (rowMeta now threadId)

/-- The ids `SELECT id … ORDER BY created_at DESC LIMIT ?2` returns. -/
def lastIds (order : Order) (threadId : String) (n : Nat) : List String :=
  ((order.desc (T.thread threadId)).take n).map Row.id

/-- Delete the rows a policy does not keep, and count them; a limit is bound as an `i64`. -/
def deleteCheckpoints (order : Order) (threadId : String) (policy : RetentionPolicy) (now : Int) :
    Except TakelnError Nat × Table :=
  match policy with
  | .keepAll => (.ok 0, T)
  | .keepLast n =>
    if 2 ^ 63 ≤ n then
      (.error (.checkpointError "Failed to delete: out of range integral type conversion attempted"), T)
    else
      let (deleted, T') := T.delete threadId fun r => decide (r.id ∉ T.lastIds order threadId n)
      (.ok deleted, T')
  | .olderThan duration =>
    match cutoff now duration with
    | .error e => (.error e, T)
    | .ok cutoff =>
      let (deleted, T') := T.delete threadId fun r => decide (r.createdAt < Chrono.toRfc3339 cutoff)
      (.ok deleted, T')

/-- The last statement of a claim; unless it changes exactly one row, the transaction is rolled back. -/
def updateClaim (order : Order) (threadId interruptId : String) : Except TakelnError ClaimResult × Table :=
  let (rowsAffected, T') := T.claim order threadId interruptId
  if rowsAffected = 1 then (.ok .claimed, T')
  else (.error (.executionError s!"Concurrent resume claim failed for thread '{threadId}'"), T)

/-- What a claim makes of the latest row. -/
def claimLatest (update : Order) (threadId interruptId : String) (last : Row) :
    Except TakelnError ClaimResult × Table :=
  if parseStatus last.status = .running ∧ last.claimedInterrupt = some interruptId then (.ok .inProgress, T)
  else if parseStatus last.status ≠ .yielded then
    if parseStatus last.status = .running then
      let claimed := last.claimedInterrupt.getD "none"
      (.error (.executionError
        s!"Resume claim failed: thread '{threadId}' is already running with claimed_interrupt '{claimed}'"), T)
    else
      (.error (.nothingToResume
        s!"Thread '{threadId}' latest checkpoint status is '{last.status}', expected Yielded"), T)
  else
    match last.yieldRequest with
    | none =>
      (.error (.nothingToResume s!"Thread '{threadId}' has Yielded status but no yield_request metadata"), T)
    | some text =>
      match (JsonText.fromText text : Except String YieldRequest) with
      | .error e => (.error (.deserializationError e), T)
      | .ok yieldReq =>
        if yieldReq.interruptId ≠ interruptId then
          (.error (.invalidResume s!"Expected interrupt_id '{yieldReq.interruptId}', got '{interruptId}'"), T)
        else T.updateClaim update threadId interruptId

/-- Check and claim an interrupt in one transaction. -/
def claimInterrupt (select update : Order) (threadId interruptId : String) :
    Except TakelnError ClaimResult × Table :=
  if (T.thread threadId).any fun r => r.resolvedInterrupt == some interruptId then (.ok .alreadyCompleted, T)
  else
    match T.latest select threadId with
    | none => (.error (.nothingToResume threadId), T)
    | some last => T.claimLatest update threadId interruptId last

omit [JsonText DAG] [JsonText YieldRequest] in
theorem deleteCheckpoints_keepLast {T : Table} {n : Nat} (hn : n < 2 ^ 63) (order : Order) (threadId : String)
    (now : Int) : T.deleteCheckpoints order threadId (.keepLast n) now =
      (.ok (T.delete threadId fun r => decide (r.id ∉ T.lastIds order threadId n)).1,
        (T.delete threadId fun r => decide (r.id ∉ T.lastIds order threadId n)).2) := by
  unfold deleteCheckpoints
  dsimp only
  rw [if_neg (Nat.not_le.2 hn)]

omit [JsonText DAG] [Chrono] in
/-- A claim that succeeds found a `Yielded` row and updated the latest one. -/
theorem claimInterrupt_claimed {T : Table} {select update : Order} {threadId interruptId : String}
    (h : (T.claimInterrupt select update threadId interruptId).1 = .ok .claimed) :
    ∃ last, T.latest select threadId = some last ∧ parseStatus last.status = .yielded ∧
      (T.claimInterrupt select update threadId interruptId).2 = (T.claim update threadId interruptId).2 := by
  unfold claimInterrupt at h ⊢
  split at h
  · cases h
  · rename_i hres
    rw [if_neg hres]
    cases hlast : T.latest select threadId with
    | none =>
      rw [hlast] at h
      cases h
    | some last =>
      rw [hlast] at h
      dsimp only at h ⊢
      unfold claimLatest at h ⊢
      split at h
      · cases h
      · rename_i hrun
        rw [if_neg hrun]
        split at h
        · split at h <;> cases h
        · rename_i hstatus
          rw [if_neg hstatus]
          refine ⟨last, rfl, not_not.1 hstatus, ?_⟩
          cases hreq : last.yieldRequest with
          | none =>
            rw [hreq] at h
            cases h
          | some text =>
            rw [hreq] at h
            dsimp only at h ⊢
            cases hread : (JsonText.fromText text : Except String YieldRequest) with
            | error e =>
              rw [hread] at h
              cases h
            | ok yieldReq =>
              rw [hread] at h
              dsimp only at h ⊢
              split at h
              · cases h
              · rename_i hid
                rw [if_neg hid]
                unfold updateClaim at h ⊢
                dsimp only at h ⊢
                split at h
                · rename_i hrows
                  rw [if_pos hrows]
                · cases h

end Table

end Operations

/-! ### Short runs -/

instance : JsonText Bool where
  toText b := .ok (if b then "true" else "false")
  fromText s := if s = "true" then .ok true else if s = "false" then .ok false else .error "expected a boolean"

/-- The text of a time, exact on the years 0 to 9999. -/
def utcText (t : Int) : String := if InYears t then rfc3339 t else "-" ++ toString t

@[reducible] def utcTimes : Chrono where
  toRfc3339 := utcText
  parseFromRfc3339 := Rfc3339.parse
  minUtc := -8334601228800 * 1000000000

theorem utcText_of_inYears {t : Int} (ht : InYears t) : utcText t = rfc3339 t := if_pos ht

attribute [local instance] utcTimes in
theorem utcTimes_documented : Chrono.Documented where
  toRfc3339_eq ht := utcText_of_inYears ht
  toRfc3339_sign {t} _ ht := by
    have htext : utcText t = "-" ++ toString t := if_neg fun h => absurd h.1 (Int.not_le.2 ht)
    change (utcText t).toList.head? = some '-'
    rw [htext]
    simp
  parse_toRfc3339 {t} ht := by
    change Rfc3339.parse (utcText t) = some t
    rw [utcText_of_inYears ht]
    exact Rfc3339.parse_rfc3339 ht

/-- No DAG is saved. -/
@[reducible] def noDags : JsonText DAG where
  toText _ := .error "no DAG is written"
  fromText _ := .error "no DAG is read"

/-- A text that JSON prints without escapes. -/
def plain (s : String) : Bool := s.toList.all fun c => 32 ≤ c.toNat && c != '"' && c != '\\'

/-- The text of a request whose texts are plain, without a payload, and with no schema or the schema `null`.  Other
requests are not written here. -/
def askText (r : YieldRequest) : Except String String :=
  if (plain r.interruptId && plain r.message && r.schema.getD .null == .null && r.payloadRef.isNone) = true then
    .ok ("\x7b\"interrupt_id\":\"" ++ r.interruptId ++ "\",\"message\":\"" ++ r.message ++ "\",\"schema\":null," ++
      "\"resume_mode\":\"" ++ (match r.resumeMode with | .reEntry => "ReEntry" | .handoff => "Handoff") ++
      "\",\"payload_ref\":null\x7d")
  else .error "not a plain request"

/-- The request that has this text; it is read without a schema. -/
def readAsk (text : String) : Except String YieldRequest :=
  let parts := (text.toList.splitOn '"').map String.ofList
  let r : YieldRequest :=
    { interruptId := parts.getD 3 "", message := parts.getD 7 "",
      resumeMode := if parts.getD 13 "" = "Handoff" then .handoff else .reEntry }
  match askText r with
  | .ok text' => if text' = text then .ok r else .error "expected a request"
  | .error e => .error e

/-- Requests as `serde` writes and reads them, as far as their texts are plain. -/
@[reducible] def askRequests : JsonText YieldRequest where
  toText := askText
  fromText := readAsk

end Takeln.Sqlite
