import Takeln.Model.Postgres

/-!
# The history of a thread in PostgreSQL

`load_version`, `list_checkpoints` and `delete_checkpoints` of `PostgresCheckpointer` (`store/postgres.rs`): programs of
one SQL statement each, on the table of `Model/Postgres`.
-/

namespace Takeln.Postgres

open Effect (Signature Prog Answering)

/-! ### Statements -/

namespace Table

/-- Delete the rows of a thread that meet a condition, and count them. -/
def delete (T : Table) (threadId : String) (p : Row → Bool) : Nat × Table :=
  (T.rows.countP fun r => decide (r.threadId = threadId) && p r,
    { rows := T.rows.filter fun r => !(decide (r.threadId = threadId) && p r)
      keys := T.keys.sublist (List.filter_sublist.map _) })

end Table

inductive HistoryStatement
  | selectVersion (threadId checkpointId : String)
  | selectThread (threadId : String)
  | deleteAllBut (threadId : String) (limit : Int)
  | deleteOlder (threadId : String) (cutoff : Int)

/-- What a statement returns. -/
abbrev HistoryStatement.Result : HistoryStatement → Type
  | selectVersion _ _ => Option Row
  | selectThread _ => List Row
  | deleteAllBut _ _ => Nat
  | deleteOlder _ _ => Nat

/-- Statements on the history; an error is the report of the database. -/
abbrev historySql : Signature := ⟨HistoryStatement, fun o => Except String o.Result⟩

/-- A database whose statements fail only for what they are given. -/
def history (order : Order) : Answering historySql Table
  | T, .selectVersion threadId checkpointId => (.ok ((T.thread threadId).find? fun r => r.id == checkpointId), T)
  | T, .selectThread threadId => (.ok (order.asc (T.thread threadId)), T)
  | T, .deleteAllBut threadId limit =>
    if limit < 0 then (.error "LIMIT must not be negative", T)
    else
      let last := ((order.desc (T.thread threadId)).take limit.toNat).map fun r => r.id
      let (deleted, T') := T.delete threadId fun r => decide (r.id ∉ last)
      (.ok deleted, T')
  | T, .deleteOlder threadId cutoff =>
    let (deleted, T') := T.delete threadId fun r => decide (r.createdAt < cutoff)
    (.ok deleted, T')

/-! ### The checkpointer -/

section Checkpointer

variable {S : Type} [State S] [Serde DAG] [Serde YieldRequest]

/-- An optional column. -/
def decodeColumn {α : Type} [Serde α] : Option Value → Except TakelnError (Option α)
  | none => .ok none
  | some v => ((Serde.fromValue v).map some).mapError .deserializationError

omit [Serde DAG] in
/-- The metadata in a row of a thread. -/
def rowMeta (threadId : String) (row : Row) : Except TakelnError CheckpointMeta := do
  let yieldRequest ← decodeColumn row.yieldRequest
  return {
    checkpointId := row.id, threadId := threadId, nextNode := row.nextNode,
    status := parseCheckpointStatus row.status, createdAt := row.createdAt, yieldRequest := yieldRequest,
    claimedInterrupt := row.claimedInterrupt, resolvedInterrupt := row.resolvedInterrupt }

/-- The checkpoint in a row of a thread. -/
def readRow (threadId : String) (row : Row) : Except TakelnError (Loaded S) := do
  let state ← (State.fromValue row.state).mapError .deserializationError
  let dag ← decodeColumn row.dag
  let info ← rowMeta threadId row
  return { state := state, info := info, dag := dag }

/-- The checkpoint in a row, if one was found. -/
def readFound (threadId : String) : Option Row → Except TakelnError (Option (Loaded S))
  | none => .ok none
  | some row => (readRow threadId row).map some

omit [State S] [Serde DAG] [Serde YieldRequest] in
theorem map_decode {α : Type} [Serde α] (v : Value) :
    (some <$> decode v : Prog sql TakelnError (Option α)) = Prog.ofExcept (decodeColumn (some v)) := by
  unfold decode decodeColumn
  dsimp only
  cases (Serde.fromValue v : Except String α) <;> rfl

/-- `load_state` reads a row. -/
theorem loadState_eq (threadId : String) :
    loadState (S := S) threadId =
      (execute (.selectRow threadId) "Failed to load").bind fun found => Prog.ofExcept (readFound threadId found) := by
  unfold loadState
  refine congrArg (Prog.bind _) (funext fun found => ?_)
  cases found with
  | none => rfl
  | some row =>
    unfold readFound readRow rowMeta
    dsimp only
    cases (State.fromValue row.state : Except String S) with
    | error e => rfl
    | ok state =>
      cases row.dag with
      | none =>
        cases row.yieldRequest with
        | none => rfl
        | some v =>
          simp only [map_decode]
          cases (decodeColumn (some v) : Except TakelnError (Option YieldRequest)) <;> rfl
      | some d =>
        simp only [map_decode]
        cases (decodeColumn (some d) : Except TakelnError (Option DAG)) with
        | error e => rfl
        | ok dag =>
          cases row.yieldRequest with
          | none => rfl
          | some v =>
            dsimp only
            cases (decodeColumn (some v) : Except TakelnError (Option YieldRequest)) <;> rfl

/-- Execute a statement; a failure is a checkpoint error. -/
def executeHistory (o : HistoryStatement) (failure : String) : Prog historySql TakelnError o.Result :=
  Prog.perform (F := historySql) o fun r => .ofExcept (r.mapError fun e => .checkpointError s!"{failure}: {e}")

/-- `load_version` -/
def loadVersion (threadId checkpointId : String) : Prog historySql TakelnError (Option (Loaded S)) := do
  match ← executeHistory (.selectVersion threadId checkpointId) "Failed to load version" with
  | none => return none
  | some row => return some (← Prog.ofExcept (readRow threadId row))

/-- `list_checkpoints` -/
def listCheckpoints (threadId : String) : Prog historySql TakelnError (List CheckpointMeta) := do
  let rows : List Row ← executeHistory (.selectThread threadId) "Failed to list"
  Prog.ofExcept (rows.mapM (rowMeta threadId))

/-- `n as i64` -/
def asI64 (n : Nat) : Int := (BitVec.ofNat 64 n).toInt

/-- `delete_checkpoints`, at the time `now`. -/
def deleteCheckpoints (threadId : String) (policy : RetentionPolicy) (now : Int) : Prog historySql TakelnError Nat :=
  match policy with
  | .keepAll => return 0
  | .keepLast n => executeHistory (.deleteAllBut threadId (asI64 n)) "Failed to delete"
  | .olderThan duration =>
    match cutoff now duration with
    | .error e => .fail e
    | .ok cutoff => executeHistory (.deleteOlder threadId cutoff) "Failed to delete"

end Checkpointer

/-! ### What statements do to a thread -/

/-- Of values with distinct keys, those whose key is one of the last keys are the last ones. -/
theorem filter_key_drop {α β : Type} [DecidableEq β] {f : α → β} {l : List α} (h : (l.map f).Nodup) (k : Nat) :
    (l.filter fun a => decide (f a ∈ (l.drop k).map f)) = l.drop k := by
  rw [← List.take_append_drop k l, List.map_append, List.nodup_append] at h
  conv => lhs; rw [← List.take_append_drop k l]
  rw [List.filter_append, List.filter_eq_nil_iff.2, List.filter_eq_self.2, List.nil_append]
  · intro a ha
    rw [List.take_append_drop]
    exact decide_eq_true (List.mem_map_of_mem ha)
  · intro a ha
    rw [List.take_append_drop, decide_eq_true_eq]
    exact fun hmem => h.2.2 _ (List.mem_map_of_mem ha) _ hmem rfl

namespace Table

variable {T : Table} {threadId : String}

theorem delete_fst (threadId : String) (p : Row → Bool) : (T.delete threadId p).1 = (T.thread threadId).countP p := by
  unfold delete thread
  rw [List.countP_filter]
  simp only [Bool.and_comm]

theorem thread_delete_self (threadId : String) (p : Row → Bool) :
    (T.delete threadId p).2.thread threadId = (T.thread threadId).filter fun r => !p r := by
  unfold delete thread
  rw [List.filter_filter, List.filter_filter]
  refine List.filter_congr fun r _ => ?_
  by_cases h : r.threadId = threadId <;> simp [h]

theorem thread_delete_of_ne {other : String} (h : other ≠ threadId) (p : Row → Bool) :
    (T.delete threadId p).2.thread other = T.thread other := by
  unfold delete thread
  rw [List.filter_filter]
  refine List.filter_congr fun r _ => ?_
  by_cases hr : r.threadId = other
  · have hne : r.threadId ≠ threadId := fun h' => h (hr.symm.trans h')
    simp [hr, h]
  · simp [hr]

/-- The rows that are not among the newest ones are deleted. -/
theorem thread_deleteAllBut (h : T.InOrder) (order : Order) (n : Nat) : (T.delete threadId fun r =>
    decide (r.id ∉ ((order.desc (T.thread threadId)).take n).map fun r => r.id)).2.thread threadId =
      (T.thread threadId).drop ((T.thread threadId).length - n) := by
  rw [thread_delete_self, order.take_desc (h.thread threadId), List.map_reverse]
  simp only [List.mem_reverse, decide_not, Bool.not_not]
  exact filter_key_drop (T.nodup_ids threadId) _

theorem InOrder.delete (h : T.InOrder) (threadId : String) (p : Row → Bool) : (T.delete threadId p).2.InOrder :=
  h.sublist (List.filter_sublist.map _)

/-- A deletion removes the rows it counts. -/
theorem delete_fst_add (T : Table) (threadId : String) (p : Row → Bool) :
    (T.delete threadId p).1 + ((T.delete threadId p).2.thread threadId).length = (T.thread threadId).length := by
  have hlength := List.length_eq_countP_add_countP p (l := T.thread threadId)
  rw [delete_fst, thread_delete_self, ← List.countP_eq_length_filter]
  simpa using hlength.symm

end Table

end Takeln.Postgres
