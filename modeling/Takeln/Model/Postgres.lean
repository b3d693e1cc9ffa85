import Mathlib.Data.List.Nodup
import Takeln.Effect.Evaluate
import Takeln.Model.Memory
import Takeln.Sql.OrderBy

/-!
# The PostgreSQL checkpointer

`save_state`, `load_state` and `claim_interrupt` of `PostgresCheckpointer` (`store/postgres.rs`), as programs of SQL
statements on one table.  Each statement is atomic and may fail.  The columns are those of the table, whose only
guarantee is the primary key: `created_at` is what `NOW()` reads at an insert, so rows may be dated alike or back, and
each query settles ties in its own way.
-/

namespace Takeln.Postgres

open Effect (Signature Prog Semantics Handler Answering)
open Sql (Arrangement)

/-- A type with a JSON encoding (`serde`). -/
class Serde (α : Type) where
  /-- `serde_json::to_value` -/
  toValue : α → Except String Value
  /-- `serde_json::from_value` -/
  fromValue : Value → Except String α

/-- `parse_checkpoint_status` -/
def parseCheckpointStatus (s : String) : CheckpointStatus :=
  if s = "Complete" then .complete
  else if s = "Running" then .running
  else if s = "Yielded" then .yielded
  else if s = "Failed" then .failed
  else if s = "Interrupted" then .interrupted
  else .complete

theorem parseCheckpointStatus_debug (status : CheckpointStatus) : parseCheckpointStatus status.debug = status := by
  cases status <;> decide

theorem parseCheckpointStatus_eq_yielded {s : String} : parseCheckpointStatus s = .yielded ↔ s = "Yielded" := by
  unfold parseCheckpointStatus
  constructor
  · intro h
    by_contra hs
    rw [if_neg hs] at h
    split at h
    · cases h
    split at h
    · cases h
    split at h
    · cases h
    split at h <;> cases h
  · rintro rfl
    decide

/-! ### The table -/

/-- The columns an insert gives. -/
structure Columns where
  id : String
  threadId : String
  state : Value
  nextNode : String
  dag : Option Value
  status : String
  yieldRequest : Option Value
  claimedInterrupt : Option String
  resolvedInterrupt : Option String

/-- A row of `takeln_checkpoints`. -/
structure Row extends Columns where
  createdAt : Int

/-- `takeln_checkpoints`, in the order of the inserts. -/
structure Table where
  rows : List Row
  /-- `id TEXT PRIMARY KEY` -/
  keys : (rows.map fun r => r.id).Nodup

/-- `ORDER BY created_at`, with ties settled somehow. -/
abbrev Order := Arrangement Row.createdAt

namespace Table

def empty : Table := ⟨[], List.nodup_nil⟩

/-- The rows of a thread. -/
def thread (T : Table) (threadId : String) : List Row := T.rows.filter fun r => decide (r.threadId = threadId)

/-- `WHERE thread_id = $1 ORDER BY created_at DESC LIMIT 1` -/
def latest (T : Table) (order : Order) (threadId : String) : Option Row := (order.desc (T.thread threadId)).head?

def insert (T : Table) (c : Columns) (time : Int) (hid : c.id ∉ T.rows.map fun r => r.id) : Table where
  rows := T.rows ++ [⟨c, time⟩]
  keys := by
    rw [List.map_append]
    refine List.Nodup.append T.keys (List.nodup_singleton _) fun id hmem hid' => ?_
    cases List.mem_singleton.1 hid'
    exact hid hmem

/-- What the update of a claim does to a row, if the latest one has this id. -/
def claimRow (latestId interruptId : String) (r : Row) : Row :=
  if r.id = latestId ∧ r.status = "Yielded" then
    { r with status := "Running", claimedInterrupt := some interruptId }
  else r

theorem claimRow_id (latestId interruptId : String) (r : Row) : (claimRow latestId interruptId r).id = r.id := by
  unfold claimRow
  split <;> rfl

theorem claimRow_threadId (latestId interruptId : String) (r : Row) :
    (claimRow latestId interruptId r).threadId = r.threadId := by
  unfold claimRow
  split <;> rfl

theorem claimRow_createdAt (latestId interruptId : String) (r : Row) :
    (claimRow latestId interruptId r).createdAt = r.createdAt := by
  unfold claimRow
  split <;> rfl

/-- `UPDATE … SET status = 'Running', claimed_interrupt = $1 WHERE id = (the latest one) AND status = 'Yielded'` -/
def claim (T : Table) (order : Order) (threadId interruptId : String) : Table :=
  match T.latest order threadId with
  | none => T
  | some last =>
    { rows := T.rows.map (claimRow last.id interruptId)
      keys := by
        rw [List.map_map]
        simpa only [Function.comp_def, claimRow_id] using T.keys }

/-- The number of rows the update changes. -/
def claimable (T : Table) (order : Order) (threadId : String) : Nat :=
  match T.latest order threadId with
  | none => 0
  | some last => T.rows.countP fun r => decide (r.id = last.id ∧ r.status = "Yielded")

variable {T : Table} {order : Order} {threadId interruptId : String} {row last : Row}

theorem mem_thread : row ∈ T.thread threadId ↔ row ∈ T.rows ∧ row.threadId = threadId := by
  simp [thread]

theorem eq_of_id_eq (hrow : row ∈ T.rows) (hlast : last ∈ T.rows) (h : row.id = last.id) : row = last :=
  List.inj_on_of_nodup_map T.keys hrow hlast h

/-- The primary key, within a thread. -/
theorem nodup_ids (T : Table) (threadId : String) : ((T.thread threadId).map fun r => r.id).Nodup :=
  T.keys.sublist (List.filter_sublist.map _)

theorem mem_of_latest (h : T.latest order threadId = some last) : last ∈ T.rows ∧ last.threadId = threadId :=
  mem_thread.1 ((order.perm _).mem_iff.1 (List.mem_of_mem_head? h))

/-- The update of a claim finds the latest row waiting, or nothing. -/
theorem claimable_eq (hlast : T.latest order threadId = some last) :
    T.claimable order threadId = if last.status = "Yielded" then 1 else 0 := by
  have hmem := (mem_of_latest hlast).1
  unfold claimable
  rw [hlast]
  dsimp only
  split
  · rename_i hyielded
    have hone := List.count_eq_one_of_mem T.keys (List.mem_map_of_mem (f := fun r : Row => r.id) hmem)
    rw [List.count, List.countP_map] at hone
    rw [← hone]
    refine List.countP_congr fun r hr => ?_
    simp only [decide_eq_true_eq, Function.comp_apply, beq_iff_eq]
    exact ⟨fun h => h.1, fun h => ⟨h, eq_of_id_eq hr hmem h ▸ hyielded⟩⟩
  · rename_i hno
    refine List.countP_eq_zero.2 fun r hr => ?_
    rw [decide_eq_true_eq]
    exact fun h => hno (eq_of_id_eq hr hmem h.1 ▸ h.2)

/-- What an update that changed a row found. -/
theorem latest_of_claimable (h : T.claimable order threadId = 1) :
    ∃ row, T.latest order threadId = some row ∧ row.status = "Yielded" := by
  cases hlast : T.latest order threadId with
  | none =>
    unfold claimable at h
    rw [hlast] at h
    cases h
  | some last =>
    refine ⟨last, rfl, ?_⟩
    by_contra hno
    rw [claimable_eq hlast, if_neg hno] at h
    cases h

theorem thread_insert {c : Columns} {time : Int} (hid : c.id ∉ T.rows.map fun r => r.id) (t : String) :
    (T.insert c time hid).thread t = T.thread t ++ if c.threadId = t then [⟨c, time⟩] else [] := by
  unfold thread insert
  rw [List.filter_append]
  by_cases h : c.threadId = t
  · simp [h]
  · simp [h]

/-- A claim turns rows of the thread in their places. -/
theorem thread_claim (hlast : T.latest order threadId = some last) (interruptId other : String) :
    (T.claim order threadId interruptId).thread other = (T.thread other).map (claimRow last.id interruptId) := by
  unfold claim thread
  rw [hlast]
  dsimp only
  rw [List.filter_map]
  simp only [Function.comp_def, claimRow_threadId]

/-- A claim in another thread does not touch the rows of a thread. -/
theorem thread_claim_of_ne {other : String} (hne : other ≠ threadId) (interruptId : String) :
    (T.claim order threadId interruptId).thread other = T.thread other := by
  cases hlast : T.latest order threadId with
  | none =>
    unfold claim
    rw [hlast]
  | some last =>
    rw [thread_claim hlast, List.map_congr_left (g := id), List.map_id]
    intro r hr
    obtain ⟨hr, hother⟩ := mem_thread.1 hr
    obtain ⟨hmem, hthread⟩ := mem_of_latest hlast
    exact if_neg fun h => hne (by rw [← hother, ← hthread, eq_of_id_eq hr hmem h.1])

/-- Later rows have later times. -/
def InOrder (T : Table) : Prop := (T.rows.map Row.createdAt).Pairwise (· < ·)

theorem InOrder.thread (h : T.InOrder) (threadId : String) :
    (T.thread threadId).Pairwise fun a b => a.createdAt < b.createdAt :=
  List.pairwise_map.1 (h.sublist (List.filter_sublist.map _))

theorem InOrder.insert (h : T.InOrder) {c : Columns} {time : Int} (hid : c.id ∉ T.rows.map fun r => r.id)
    (htime : ∀ t ∈ T.rows.map Row.createdAt, t < time) : (T.insert c time hid).InOrder := by
  unfold InOrder Table.insert
  rw [List.map_append]
  refine List.pairwise_append.2 ⟨h, List.pairwise_singleton _ _, fun t ht t' ht' => ?_⟩
  cases List.mem_singleton.1 ht'
  exact htime t ht

/-- A claim leaves the times as they are. -/
theorem times_claim (T : Table) (order : Order) (threadId interruptId : String) :
    (T.claim order threadId interruptId).rows.map Row.createdAt = T.rows.map Row.createdAt := by
  unfold Table.claim
  cases T.latest order threadId with
  | none => rfl
  | some last =>
    dsimp only
    rw [List.map_map]
    exact List.map_congr_left fun r _ => claimRow_createdAt last.id interruptId r

theorem InOrder.claim (h : T.InOrder) (order : Order) (threadId interruptId : String) :
    (T.claim order threadId interruptId).InOrder := by
  unfold InOrder
  rw [times_claim]
  exact h

/-- If later rows have later times, the latest row of a thread is its last one. -/
theorem InOrder.latest_eq (h : T.InOrder) (order : Order) (threadId : String) :
    T.latest order threadId = (T.thread threadId).getLast? := order.head_desc (h.thread threadId)

end Table

/-! ### Statements -/

inductive Statement
  | insert (c : Columns)
  | selectResolved (threadId interruptId : String)
  | selectLatest (threadId : String)
  | selectRow (threadId : String)
  | updateClaimed (threadId interruptId : String)

/-- What a statement returns. -/
abbrev Statement.Result : Statement → Type
  | insert _ => Unit
  | selectResolved _ _ => Bool
  | selectLatest _ => Option (String × Option Value × Option String)
  | selectRow _ => Option Row
  | updateClaimed _ _ => Nat

/-- Statements; an error is the report of the database. -/
abbrev sql : Signature := ⟨Statement, fun o => Except String o.Result⟩

/-- What the database answers: a failed statement changes nothing. -/
inductive Answers : Semantics sql Table
  | failed (T : Table) (o : Statement) (msg : String) : Answers T o (.error msg : Except String o.Result) T
  | inserted (T : Table) (c : Columns) (time : Int) (hid : c.id ∉ T.rows.map fun r => r.id) :
      Answers T (.insert c) (.ok () : Except String Unit) (T.insert c time hid)
  | selectedResolved (T : Table) (threadId interruptId : String) :
      Answers T (.selectResolved threadId interruptId)
        (.ok ((T.thread threadId).any fun r => r.resolvedInterrupt == some interruptId) : Except String Bool) T
  | selectedLatest (T : Table) (order : Order) (threadId : String) :
      Answers T (.selectLatest threadId)
        (.ok ((T.latest order threadId).map fun r => (r.status, r.yieldRequest, r.claimedInterrupt)) :
          Except String (Option (String × Option Value × Option String))) T
  | selectedRow (T : Table) (order : Order) (threadId : String) :
      Answers T (.selectRow threadId) (.ok (T.latest order threadId) : Except String (Option Row)) T
  | updatedClaimed (T : Table) (order : Order) (threadId interruptId : String) :
      Answers T (.updateClaimed threadId interruptId) (.ok (T.claimable order threadId) : Except String Nat)
        (T.claim order threadId interruptId)

/-- A database whose statements fail only for a key that exists; its clock reads `now`. -/
def databaseAt (order : Order) (now : Int) : Answering sql Table
  | T, .insert c =>
    if h : c.id ∉ T.rows.map fun r => r.id then (.ok (), T.insert c now h)
    else (.error "duplicate key value violates unique constraint", T)
  | T, .selectResolved threadId interruptId =>
    (.ok ((T.thread threadId).any fun r => r.resolvedInterrupt == some interruptId), T)
  | T, .selectLatest threadId =>
    (.ok ((T.latest order threadId).map fun r => (r.status, r.yieldRequest, r.claimedInterrupt)), T)
  | T, .selectRow threadId => (.ok (T.latest order threadId), T)
  | T, .updateClaimed threadId interruptId =>
    (.ok (T.claimable order threadId), T.claim order threadId interruptId)

theorem databaseAt_answers (order : Order) (now : Int) (T : Table) (o : Statement) :
    Answers T o (databaseAt order now T o).1 (databaseAt order now T o).2 := by
  cases o with
  | insert c =>
    unfold databaseAt
    dsimp only
    split
    · rename_i hfresh
      exact .inserted T c now hfresh
    · exact .failed T _ _
  | selectResolved t i => exact .selectedResolved T t i
  | selectLatest t => exact .selectedLatest T order t
  | selectRow t => exact .selectedRow T order t
  | updateClaimed t i => exact .updatedClaimed T order t i

/-- A database with a clock that ticks at each insert. -/
def database : Handler sql Table := fun T o => some (databaseAt (.stable _) T.rows.length T o)

theorem database_answers (T : Table) (o : Statement) (r : Except String o.Result) (T' : Table)
    (h : database T o = some (r, T')) : Answers T o r T' := by
  have hanswers := databaseAt_answers (.stable _) T.rows.length T o
  rw [Option.some.inj h] at hanswers
  exact hanswers

/-! ### The checkpointer -/

/-- Execute a statement; a failure is a checkpoint error. -/
def execute (o : Statement) (failure : String) : Prog sql TakelnError o.Result :=
  Prog.perform (F := sql) o fun r => .ofExcept (r.mapError fun e => .checkpointError s!"{failure}: {e}")

/-- The encoding of an optional column. -/
def encode {α : Type} [Serde α] (x : Option α) : Prog sql TakelnError (Option Value) :=
  match x with
  | none => return none
  | some a => return some (← Prog.ofExcept ((Serde.toValue a).mapError .serializationError))

def decode {α : Type} [Serde α] (v : Value) : Prog sql TakelnError α :=
  Prog.ofExcept ((Serde.fromValue v).mapError .deserializationError)

variable {S : Type} [State S] [Serde DAG] [Serde YieldRequest]

/-- `save_state`; the id is a fresh UUID. -/
def saveState (checkpointId : String) (args : SaveArgs S) : Prog sql TakelnError String := do
  let stateJson ← Prog.ofExcept ((State.toValue args.state).mapError .serializationError)
  let dagJson ← encode args.dag
  let yieldRequestJson ← encode args.yieldRequest
  execute (.insert
    { id := checkpointId, threadId := args.threadId, state := stateJson, nextNode := args.nextNode, dag := dagJson,
      status := args.status.debug, yieldRequest := yieldRequestJson, claimedInterrupt := args.claimedInterrupt,
      resolvedInterrupt := args.resolvedInterrupt }) "Failed to save"
  return checkpointId

/-- `load_state` -/
def loadState (threadId : String) : Prog sql TakelnError (Option (Loaded S)) := do
  match ← execute (.selectRow threadId) "Failed to load" with
  | none => return none
  | some row =>
    let state ← Prog.ofExcept ((State.fromValue row.state).mapError .deserializationError)
    let dag ← match row.dag with
      | none => Prog.ret none
      | some v => some <$> decode v
    let yieldRequest ← match row.yieldRequest with
      | none => Prog.ret none
      | some v => some <$> decode v
    return some
      { state := state
        info :=
          { checkpointId := row.id, threadId := threadId, nextNode := row.nextNode,
            status := parseCheckpointStatus row.status, createdAt := row.createdAt, yieldRequest := yieldRequest,
            claimedInterrupt := row.claimedInterrupt, resolvedInterrupt := row.resolvedInterrupt }
        dag := dag }

/-- The last statement of a claim: turn the latest checkpoint from `Yielded` to `Running`. -/
def updateClaim (threadId interruptId : String) : Prog sql TakelnError ClaimResult := do
  let rowsAffected : Nat ← execute (.updateClaimed threadId interruptId) "Failed to claim interrupt"
  if rowsAffected = 1 then return .claimed
  else .fail (.executionError s!"Concurrent resume claim failed for thread '{threadId}'")

/-- What a claim makes of the latest checkpoint. -/
def claimLatest (threadId interruptId statusStr : String) (yieldReqVal : Option Value)
    (claimedInterrupt : Option String) : Prog sql TakelnError ClaimResult :=
  let status := parseCheckpointStatus statusStr
  if status = .running ∧ claimedInterrupt = some interruptId then return .inProgress
  else if status ≠ .yielded then
    if status = .running then
      let claimed := claimedInterrupt.getD "none"
      .fail (.executionError
        s!"Resume claim failed: thread '{threadId}' is already running with claimed_interrupt '{claimed}'")
    else
      .fail (.nothingToResume s!"Thread '{threadId}' latest checkpoint status is '{statusStr}', expected Yielded")
  else
    match yieldReqVal with
    | none =>
      .fail (.nothingToResume s!"Thread '{threadId}' has Yielded status but no yield_request metadata")
    | some v => do
      let yieldReq : YieldRequest ← decode v
      if yieldReq.interruptId ≠ interruptId then
        .fail (.invalidResume s!"Expected interrupt_id '{yieldReq.interruptId}', got '{interruptId}'")
      else updateClaim threadId interruptId

/-- `claim_interrupt`: is it resolved, what is the latest checkpoint, claim it. -/
def claimInterrupt (threadId interruptId : String) : Prog sql TakelnError ClaimResult := do
  let resolved : Bool ← execute (.selectResolved threadId interruptId) "Failed to check interrupt resolution"
  if resolved then return .alreadyCompleted
  else
    match ← execute (.selectLatest threadId) "Failed to read latest checkpoint" with
    | none => .fail (.nothingToResume threadId)
    | some (statusStr, yieldReqVal, claimedInterrupt) =>
      claimLatest threadId interruptId statusStr yieldReqVal claimedInterrupt

end Takeln.Postgres
