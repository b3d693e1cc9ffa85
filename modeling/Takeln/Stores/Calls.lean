import Takeln.Model.Sqlite

/-!
# Calls of a checkpointer

The operations of the trait `Checkpointer` (`checkpoint.rs`), and how the in-memory and the SQLite checkpointer answer
a sequence of calls.  A call comes with what it may draw from outside: an id, a clock reading, and how SQLite settles
the ties of its queries.
-/

namespace Takeln

open Sqlite (JsonText Chrono Table)

inductive StoreOp (S : Type)
  | saveState (args : SaveArgs S)
  | loadState (threadId : String)
  | loadVersion (threadId checkpointId : String)
  | listCheckpoints (threadId : String)
  | deleteCheckpoints (threadId : String) (policy : RetentionPolicy)
  | claimInterrupt (threadId interruptId : String)

inductive Reply (S : Type)
  | saved (checkpointId : String)
  | loaded (found : Option (Loaded S))
  | listed (infos : List CheckpointMeta)
  | deleted (count : Nat)
  | claimed (result : ClaimResult)

/-- A call, with the id and the clock reading it draws, and the order of ties in its queries. -/
structure StoreCall (S : Type) where
  op : StoreOp S
  id : String
  now : Int
  select : Sqlite.Order
  update : Sqlite.Order

abbrev Answer (S : Type) := Except TakelnError (Reply S)

section

variable {S : Type} [State S]

/-- A call of an `InMemoryCheckpointer`. -/
def MemoryStore.answer (store : MemoryStore) (c : StoreCall S) : Answer S × MemoryStore :=
  match c.op with
  | .saveState args => let (r, store') := store.saveState c.id c.now args; (r.map .saved, store')
  | .loadState threadId => ((store.loadState threadId).map .loaded, store)
  | .loadVersion threadId checkpointId => ((store.loadVersion threadId checkpointId).map .loaded, store)
  | .listCheckpoints threadId => ((store.listCheckpoints threadId).map .listed, store)
  | .deleteCheckpoints threadId policy =>
    let (r, store') := store.deleteCheckpoints threadId policy c.now; (r.map .deleted, store')
  | .claimInterrupt threadId interruptId =>
    let (r, store') := store.claimInterrupt threadId interruptId; (r.map .claimed, store')

variable [JsonText S] [JsonText DAG] [JsonText YieldRequest] [Chrono]

/-- A call of a `SqliteCheckpointer`. -/
def Sqlite.Table.answer (T : Table) (c : StoreCall S) : Answer S × Table :=
  match c.op with
  | .saveState args => let (r, T') := T.saveState c.id c.now args; (r.map .saved, T')
  | .loadState threadId => ((T.loadState c.select c.now threadId).map .loaded, T)
  | .loadVersion threadId checkpointId => ((T.loadVersion c.now threadId checkpointId).map .loaded, T)
  | .listCheckpoints threadId => ((T.listCheckpoints c.select c.now threadId).map .listed, T)
  | .deleteCheckpoints threadId policy =>
    let (r, T') := T.deleteCheckpoints c.select threadId policy c.now; (r.map .deleted, T')
  | .claimInterrupt threadId interruptId =>
    let (r, T') := T.claimInterrupt c.select c.update threadId interruptId; (r.map .claimed, T')

end

variable {S W : Type}

/-- The answers of a store to a sequence of calls. -/
def answers (step : W → StoreCall S → Answer S × W) : W → List (StoreCall S) → List (Answer S)
  | _, [] => []
  | w, c :: cs => (step w c).1 :: answers step (step w c).2 cs

/-- The same result, or errors of the same constructor. -/
def SameReply : Answer S → Answer S → Prop
  | .ok r, .ok r' => r = r'
  | .error e, .error e' => e.ctorIdx = e'.ctorIdx
  | _, _ => False

/-- The id a call gives to a checkpoint. -/
def StoreCall.savedId (c : StoreCall S) : Option String :=
  match c.op with
  | .saveState _ => some c.id
  | _ => none

/-- The clock reading of a call that asks the time. -/
def StoreCall.reading (c : StoreCall S) : Option Int :=
  match c.op with
  | .saveState _ => some c.now
  | .deleteCheckpoints _ (.olderThan _) => some c.now
  | _ => none

/-- Limits fit into an `i64`, and durations and cutoffs into the range of `chrono`. -/
def StoreCall.InRange [Chrono] (c : StoreCall S) : Prop :=
  match c.op with
  | .deleteCheckpoints _ (.keepLast n) => n < 2 ^ 63
  | .deleteCheckpoints _ (.olderThan d) => d.nanos ≤ maxDuration ∧ Chrono.minUtc ≤ c.now - d.nanos
  | _ => True

/-! ### Calls of short runs -/

/-- A call with stable orders of ties. -/
def callAt (op : StoreOp Bool) (id : String) (now : Int) : StoreCall Bool := ⟨op, id, now, .stable _, .stable _⟩

/-- A yielded checkpoint of the thread `t`. -/
def yielded (request : YieldRequest) : SaveArgs Bool where
  threadId := "t"
  state := true
  nextNode := "A"
  dag := none
  status := .yielded
  yieldRequest := some request
  claimedInterrupt := none
  resolvedInterrupt := none
  proof := checkpointProof none

end Takeln
