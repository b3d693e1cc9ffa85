import Takeln.Effect.Layers
import Takeln.Model.PostgresHistory

/-!
# The engines on PostgreSQL

The engines ask a `PostgresCheckpointer` through the trait `Checkpointer`, whose defaults it keeps: it has no head, and
`save_state_bound` saves without a look at the proof.  Its operations are programs of SQL statements, so an engine on
PostgreSQL is a program of statements, of fresh ids for its checkpoints, and of what is not asked of a checkpointer.
-/

namespace Takeln.Postgres

open Effect (Signature Prog Semantics Layer)

inductive ServiceOp (S : Type)
  /-- `Uuid::new_v4()` -/
  | newId
  | statement (o : Statement)
  /-- What is not asked of the checkpointer. -/
  | other (o : Op S)

def ServiceOp.Answer {S : Type} : ServiceOp S → Type
  | newId => String
  | statement o => Except String o.Result
  | other o => o.Answer

abbrev service (S : Type) : Signature := ⟨ServiceOp S, ServiceOp.Answer⟩

/-- The statements are answered by the table, and all else in any way. -/
inductive Serves {S : Type} : Semantics (service S) Table
  | newId (T : Table) (id : String) : Serves T .newId id T
  | statement {T T' : Table} {o : Statement} {r : Except String o.Result} (h : Answers T o r T') :
      Serves T (.statement o) r T'
  | other (T : Table) (o : Op S) (r : o.Answer) : Serves T (.other o) r T

variable {S : Type}

/-- A statement of the checkpointer. -/
def statements : Layer sql (service S) := fun o => .perform (F := service S) (.statement o) .ret

/-- `PostgresCheckpointer` as a `Checkpointer`. -/
def checkpointing [State S] [Serde DAG] [Serde YieldRequest] : Layer (ops S) (service S)
  | .currentHead _ => .ret (.ok none)
  | .saveStateBound args => .perform (F := service S) .newId fun id =>
      ((saveState id args).lower statements).attempt.bind fun r => .ret (r.map .created)
  | .loadState threadId => ((loadState threadId).lower statements).attempt
  | .claimInterrupt threadId interruptId => ((claimInterrupt threadId interruptId).lower statements).attempt
  | o => .perform (F := service S) (.other o) .ret

/-- The statement and its answer, if it is one. -/
def statementOf : Effect.Event (service S) → Option (Effect.Event sql)
  | ⟨.statement o, r⟩ => some ⟨o, r⟩
  | _ => none

end Takeln.Postgres
