import Takeln.Model.Money

/-!
# JSON values, yield requests and errors

The JSON values that serialised states, schemas and resume inputs are made of, the yield requests nodes suspend
with (`hitl.rs`), and the two error types with their texts (`error.rs`).  What the crate takes from other crates is the
class `External`.
-/

namespace Takeln

/-- A JSON number: `u64`, negative `i64`, or a finite `f64` by its value. -/
inductive Number
  | posInt (n : Nat)
  | negInt (n : Int)
  | float (x : ℚ)
  deriving DecidableEq

/-- `serde_json::Value`; the fields of an object are sorted by key. -/
inductive Value
  | null
  | bool (b : Bool)
  | number (n : Number)
  | string (s : String)
  | array (elems : List Value)
  | object (fields : List (String × Value))

namespace Value

mutual

def beq : Value → Value → Bool
  | null, null => true
  | bool a, bool b => a == b
  | number a, number b => a == b
  | string a, string b => a == b
  | array a, array b => beqElems a b
  | object a, object b => beqFields a b
  | _, _ => false

def beqElems : List Value → List Value → Bool
  | [], [] => true
  | a :: as, b :: bs => beq a b && beqElems as bs
  | _, _ => false

def beqFields : List (String × Value) → List (String × Value) → Bool
  | [], [] => true
  | (k, a) :: as, (l, b) :: bs => k == l && beq a b && beqFields as bs
  | _, _ => false

end

instance : BEq Value := ⟨beq⟩

/-- The value of a key of an object. -/
def get (v : Value) (key : String) : Option Value :=
  match v with
  | object fields => fields.lookup key
  | _ => none

def asStr : Value → Option String
  | string s => some s
  | _ => none

def asArray : Value → Option (List Value)
  | array elems => some elems
  | _ => none

end Value

/-- Functions of other crates. -/
class External where
  /-- `Uuid::new_v5` in the OID namespace, printed. -/
  newV5 : String → String
  /-- SHA-256 of a text, in hexadecimal. -/
  sha256Hex : String → String
  /-- `serde_json::to_string` of a value. -/
  valueToString : Value → String
  /-- `{:?}` of a string. -/
  debugStr : String → String
  /-- `{:?}` of a value. -/
  debugValue : Value → String

/-! ### Yield requests -/

inductive ResumeMode
  | reEntry
  | handoff
  deriving DecidableEq

structure YieldRequest where
  interruptId : String
  message : String
  schema : Option Value := none
  resumeMode : ResumeMode := .reEntry
  payloadRef : Option String := none

namespace YieldRequest

def simple (message : String) : YieldRequest := { interruptId := message, message := message }

def new (interruptId message : String) : YieldRequest := { interruptId := interruptId, message := message }

def withSchema (r : YieldRequest) (schema : Value) : YieldRequest := { r with schema := some schema }

def withResumeMode (r : YieldRequest) (mode : ResumeMode) : YieldRequest := { r with resumeMode := mode }

def display (r : YieldRequest) : String := s!"[{r.interruptId}] {r.message}"

end YieldRequest

/-- Who resumes a thread. -/
structure ResumeContext where
  actor : Option String := none
  metadata : Option Value := none

def computeResponseHash [External] (input : Value) : String :=
  External.sha256Hex (External.valueToString input)

/-! ### Errors -/

/-- What a node answers when it does not return a state. -/
inductive GraphError [Money]
  | retryable (msg : String)
  | fatal (msg : String)
  | yield (request : YieldRequest)
  | budgetExceeded (spentEur limitEur : Eur)
  | yieldInDynamicNode (interruptId : String)

inductive TakelnError [Money]
  | nodeNotFound (name : String)
  | checkpointError (msg : String)
  | budgetExceeded (spentEur limitEur : Eur)
  | dagDeadlock (names : String)
  | joinError (msg : String)
  | executionError (msg : String)
  | serializationError (msg : String)
  | deserializationError (msg : String)
  | recursionLimitExceeded (depth limit : Nat)
  | partialWaveFailure (succeeded : List String) (failed : List (String × String))
  | nothingToResume (threadId : String)
  | invalidResume (msg : String)
  | schemaValidationFailed (interruptId reason : String)
  | stepLimitExceeded (steps limit : Nat)
  deriving DecidableEq

private def budgetText [Money] (spentEur limitEur : Eur) : String :=
  s!"Budget exceeded: spent {Money.text spentEur}€ of {Money.text limitEur}€ limit"

def GraphError.display [Money] : GraphError → String
  | retryable msg => s!"Retryable error: {msg}"
  | fatal msg => s!"Fatal error: {msg}"
  | yield request => s!"Suspended/Yielded: {request.display}"
  | budgetExceeded spent limit => budgetText spent limit
  | yieldInDynamicNode id =>
    s!"HITL yield inside dynamic node is not supported (interrupt: '{id}'). Move the yielding node to a top-level graph node."

def TakelnError.display [Money] [External] : TakelnError → String
  | nodeNotFound name => s!"Node '{name}' not found in graph registry"
  | checkpointError msg => s!"Checkpoint failure: {msg}"
  | budgetExceeded spent limit => budgetText spent limit
  | dagDeadlock names => s!"DAG deadlock — pending nodes with no satisfied dependencies: {names}"
  | joinError msg => s!"JoinSet panic: {msg}"
  | executionError msg => s!"Execution error: {msg}"
  | serializationError msg => s!"Serialization error: {msg}"
  | deserializationError msg => s!"Deserialization error: {msg}"
  | recursionLimitExceeded depth limit => s!"DAG recursion depth {depth} exceeds global cap {limit}"
  | partialWaveFailure succeeded failed =>
    let names := ", ".intercalate (succeeded.map External.debugStr)
    let pairs := ", ".intercalate
      (failed.map fun (name, msg) => s!"({External.debugStr name}, {External.debugStr msg})")
    s!"Partial wave failure: [{names}] succeeded, [{pairs}] failed"
  | nothingToResume threadId => s!"Nothing to resume for thread '{threadId}'"
  | invalidResume msg => s!"Invalid resume: {msg}"
  | schemaValidationFailed id reason => s!"Schema validation failed for interrupt '{id}': {reason}"
  | stepLimitExceeded steps limit => s!"Sequential step limit exceeded: {steps} steps (limit: {limit})"

/-! ### Input validation -/

/-- The JSON type `validate_input_against_schema` sees in an input. -/
def actualType : Value → String
  | .null => "null"
  | .bool _ => "boolean"
  | .number (.posInt _) => "integer"
  | .number (.negInt _) => "integer"
  | .number (.float _) => "number"
  | .string _ => "string"
  | .array _ => "array"
  | .object _ => "object"

/-- Basic schema validation: checks JSON type and enum constraints. -/
def validateInputAgainstSchema [Money] [External] (interruptId : String) (input schema : Value) :
    Except TakelnError Unit := do
  if let some expectedType := (schema.get "type").bind Value.asStr then
    let typeOk := if expectedType = "number" then actualType input = "number" ∨ actualType input = "integer"
      else actualType input = expectedType
    if ¬ typeOk then
      throw (.schemaValidationFailed interruptId s!"Expected type '{expectedType}', got '{actualType input}'")
  if let some enumValues := (schema.get "enum").bind Value.asArray then
    if ¬ enumValues.contains input then
      let allowed := ", ".intercalate (enumValues.map External.debugValue)
      throw (.schemaValidationFailed interruptId
        s!"Value {External.debugValue input} not in allowed enum values [{allowed}]")

end Takeln
