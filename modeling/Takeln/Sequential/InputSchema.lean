import Takeln.Model.Memory

/-!
# The schema of a resume input

`validate_input_against_schema` handles the keywords `type` and `enum` of JSON Schema.  It reads `type` only where it is
a string, takes a number for an integer by its representation, and compares the values of `enum` by representation too.
So it rejects a whole number that is written as a float, and accepts what a list of types excludes
(`validateInputAgainstSchema_iff`).
-/

namespace Takeln

/-! ### JSON Schema -/

def Number.value : Number → ℚ
  | posInt n => n
  | negInt n => n
  | float x => x

namespace Value

mutual

/-- Equality of JSON values: numbers are equal if their values are. -/
def same : Value → Value → Bool
  | null, null => true
  | bool a, bool b => a == b
  | number a, number b => a.value == b.value
  | string a, string b => a == b
  | array a, array b => sameElems a b
  | object a, object b => sameFields a b
  | _, _ => false

def sameElems : List Value → List Value → Bool
  | [], [] => true
  | a :: as, b :: bs => same a b && sameElems as bs
  | _, _ => false

def sameFields : List (String × Value) → List (String × Value) → Bool
  | [], [] => true
  | (k, a) :: as, (l, b) :: bs => k == l && same a b && sameFields as bs
  | _, _ => false

end

mutual

/-- Values with the same representation are equal. -/
theorem same_of_beq {a b : Value} (h : beq a b = true) : same a b = true := by
  cases a with
  | array as =>
    cases b with
    | array bs =>
      unfold beq at h
      unfold same
      exact sameElems_of_beqElems h
    | _ => simp [beq] at h
  | object as =>
    cases b with
    | object bs =>
      unfold beq at h
      unfold same
      exact sameFields_of_beqFields h
    | _ => simp [beq] at h
  | number n => cases b <;> simp_all [beq, same]
  | _ => cases b <;> simp_all [beq, same]

theorem sameElems_of_beqElems {as bs : List Value} (h : beqElems as bs = true) : sameElems as bs = true := by
  cases as with
  | nil => cases bs <;> simp_all [beqElems, sameElems]
  | cons a as =>
    cases bs with
    | nil => simp [beqElems] at h
    | cons b bs =>
      obtain ⟨hhead, htail⟩ := (Bool.and_eq_true _ _).mp (by simpa [beqElems] using h)
      simp [sameElems, same_of_beq hhead, sameElems_of_beqElems htail]

theorem sameFields_of_beqFields {as bs : List (String × Value)} (h : beqFields as bs = true) :
    sameFields as bs = true := by
  cases as with
  | nil => cases bs <;> simp_all [beqFields, sameFields]
  | cons a as =>
    cases bs with
    | nil => simp [beqFields] at h
    | cons b bs =>
      obtain ⟨k, a⟩ := a
      obtain ⟨l, b⟩ := b
      obtain ⟨⟨hkey, hhead⟩, htail⟩ : (k = l ∧ beq a b = true) ∧ beqFields as bs = true := by
        simpa [beqFields] using h
      simp [sameFields, hkey, same_of_beq hhead, sameFields_of_beqFields htail]

end

/-- The type `name` includes a value; a number with zero fraction is an integer. -/
def hasType (v : Value) (name : String) : Bool :=
  match v with
  | null => name == "null"
  | bool _ => name == "boolean"
  | number n => name == "number" || name == "integer" && n.value.isInt
  | string _ => name == "string"
  | array _ => name == "array"
  | object _ => name == "object"

end Value

/-- A number with zero fraction that is kept as a float. -/
def Value.IsWholeFloat : Value → Prop
  | number (.float x) => x.isInt = true
  | _ => False

namespace JsonSchema

/-- The types a `type` keyword allows: it is a string or a list of strings. -/
def typeNames : Value → Option (List String)
  | .string name => some [name]
  | .array names => names.mapM Value.asStr
  | _ => none

def acceptsType (schema input : Value) : Bool :=
  match (schema.get "type").bind typeNames with
  | some names => names.any input.hasType
  | none => true

def acceptsEnum (schema input : Value) : Bool :=
  match (schema.get "enum").bind Value.asArray with
  | some allowed => allowed.any input.same
  | none => true

/-- A schema accepts an input, as far as its keywords `type` and `enum` go. -/
def accepts (schema input : Value) : Bool := acceptsType schema input && acceptsEnum schema input

end JsonSchema

/-! ### What the validation checks -/

/-- The type check of `validate_input_against_schema`. -/
def SeesType (input : Value) (expectedType : String) : Prop :=
  if expectedType = "number" then actualType input = "number" ∨ actualType input = "integer"
  else actualType input = expectedType

/-- The type check passes. -/
def PassesType (schema input : Value) : Prop :=
  ∀ name, (schema.get "type").bind Value.asStr = some name → SeesType input name

/-- The enum check passes. -/
def PassesEnum (schema input : Value) : Prop :=
  ∀ allowed, (schema.get "enum").bind Value.asArray = some allowed → allowed.contains input = true

theorem validateInputAgainstSchema_eq_ok_iff [External] {id : String} {input schema : Value} :
    validateInputAgainstSchema id input schema = .ok () ↔ PassesType schema input ∧ PassesEnum schema input := by
  have hreturn : (pure () : Except TakelnError Unit) = .ok () := rfl
  unfold validateInputAgainstSchema PassesType PassesEnum
  cases (schema.get "type").bind Value.asStr with
  | none =>
    cases (schema.get "enum").bind Value.asArray with
    | none => simp [hreturn]
    | some allowed => by_cases henum : allowed.contains input = true <;> simp [henum, hreturn]
  | some name =>
    by_cases hsees : SeesType input name
    · have hsees' := hsees
      unfold SeesType at hsees'
      cases (schema.get "enum").bind Value.asArray with
      | none => simp [hsees, hsees', hreturn]
      | some allowed => by_cases henum : allowed.contains input = true <;> simp [henum, hsees, hsees', hreturn]
    · refine iff_of_false ?_ fun h => hsees (h.1 name rfl)
      unfold SeesType at hsees
      simp only [hsees, not_false_eq_true, if_true]
      intro h
      cases h

theorem Value.IsWholeFloat.hasType {v : Value} (h : v.IsWholeFloat) : v.hasType "integer" = true := by
  cases v with
  | number n =>
    cases n with
    | float x => simpa [Value.hasType, Number.value, Value.IsWholeFloat] using h
    | _ => cases h
  | _ => cases h

/-- The check of the type misses whole floats, and nothing else. -/
theorem seesType_iff {input : Value} {name : String} :
    SeesType input name ↔ input.hasType name = true ∧ ¬ (name = "integer" ∧ input.IsWholeFloat) := by
  have hpos (n : Nat) : (n : ℚ).isInt = true := by simp [Rat.isInt]
  have hneg (n : Int) : (n : ℚ).isInt = true := by simp [Rat.isInt]
  unfold SeesType Value.hasType actualType Value.IsWholeFloat
  by_cases hname : name = "number"
  · cases input with
    | number n => cases n <;> simp [hname]
    | _ => simp [hname]
  · cases input with
    | number n =>
      cases n with
      | posInt n => simp [hname, Number.value, hpos, eq_comm (b := name)]
      | negInt n => simp [hname, Number.value, hneg, eq_comm (b := name)]
      | float x => simp [hname, Number.value, eq_comm (b := name)]
    | _ => simp [hname, eq_comm (b := name)]

theorem acceptsEnum_of_passesEnum {schema input : Value} (h : PassesEnum schema input) :
    JsonSchema.acceptsEnum schema input = true := by
  unfold JsonSchema.acceptsEnum
  unfold PassesEnum at h
  cases henum : (schema.get "enum").bind Value.asArray with
  | none => rfl
  | some allowed =>
    obtain ⟨v, hv, hbeq⟩ := List.contains_iff_exists_mem_beq.1 (h allowed henum)
    exact List.any_eq_true.2 ⟨v, hv, Value.same_of_beq hbeq⟩

/-! ### Where the validation goes wrong -/

/-- The types are given as a list, which the validation does not look at, and the list excludes the input. -/
def ExcludedByList (schema input : Value) : Prop :=
  ∃ names types, schema.get "type" = some (.array names) ∧ names.mapM Value.asStr = some types ∧
    ∀ name ∈ types, input.hasType name = false

/-- An integer is asked for, and the input is one that is kept as a float. -/
def IntegerAsFloat (schema input : Value) : Prop :=
  schema.get "type" = some (.string "integer") ∧ input.IsWholeFloat

/-- The `enum` has a value that is equal to the input, but none with the same representation. -/
def EqualOnlyByValue (schema input : Value) : Prop :=
  ∃ allowed, (schema.get "enum").bind Value.asArray = some allowed ∧ allowed.any input.same = true ∧
    allowed.contains input = false

/-- The type check passes an input that its type excludes exactly if the types are given as a list. -/
theorem excludedByList_iff {schema input : Value} :
    PassesType schema input ∧ JsonSchema.acceptsType schema input = false ↔ ExcludedByList schema input := by
  unfold PassesType JsonSchema.acceptsType ExcludedByList
  cases htype : schema.get "type" with
  | none => simp
  | some keyword =>
    cases keyword with
    | string name =>
      -- a string that passes is a type of the input
      have hsees : SeesType input name → input.hasType name = true := fun h => (seesType_iff.1 h).1
      simpa [Value.asStr, JsonSchema.typeNames] using hsees
    | array names => cases hnames : names.mapM Value.asStr <;> simp [Value.asStr, JsonSchema.typeNames, hnames]
    | _ => simp [Value.asStr, JsonSchema.typeNames]

/-- The type check stops an input of its type exactly if that is an integer kept as a float. -/
theorem integerAsFloat_iff {schema input : Value} :
    JsonSchema.acceptsType schema input = true ∧ ¬ PassesType schema input ↔ IntegerAsFloat schema input := by
  unfold PassesType JsonSchema.acceptsType IntegerAsFloat
  cases htype : schema.get "type" with
  | none => simp
  | some keyword =>
    cases keyword with
    | string name =>
      have hnames : JsonSchema.typeNames (.string name) = some [name] := rfl
      have hasStr : (Value.string name).asStr = some name := rfl
      simp only [Option.bind_some, hnames, hasStr, List.any_cons, List.any_nil, Bool.or_false, Option.some.injEq,
        Value.string.injEq, forall_eq', seesType_iff]
      constructor
      · rintro ⟨htype, hmissed⟩
        by_contra hother
        exact hmissed ⟨htype, hother⟩
      · rintro ⟨rfl, hwhole⟩
        exact ⟨hwhole.hasType, fun h => h.2 ⟨rfl, hwhole⟩⟩
    | _ => simp [Value.asStr, JsonSchema.typeNames]

/-- The enum check stops an input that is allowed exactly if the `enum` has it in another representation only. -/
theorem equalOnlyByValue_iff {schema input : Value} :
    JsonSchema.acceptsEnum schema input = true ∧ ¬ PassesEnum schema input ↔ EqualOnlyByValue schema input := by
  unfold PassesEnum JsonSchema.acceptsEnum EqualOnlyByValue
  cases (schema.get "enum").bind Value.asArray <;> simp

/-- The validation agrees with JSON Schema unless a list of types excludes an input that the `enum` allows, or a whole
float is given for an integer that the `enum` allows, or an input of an allowed type is in the `enum` in another
representation only. -/
theorem validateInputAgainstSchema_iff [External] (id : String) (fields : List (String × Value)) (input : Value) :
    (validateInputAgainstSchema id input (.object fields) = .ok () ↔ JsonSchema.accepts (.object fields) input = true) ↔
      ¬ (ExcludedByList (.object fields) input ∧ PassesEnum (.object fields) input ∨
        IntegerAsFloat (.object fields) input ∧ JsonSchema.acceptsEnum (.object fields) input = true ∨
        JsonSchema.acceptsType (.object fields) input = true ∧ EqualOnlyByValue (.object fields) input) := by
  have henum : PassesEnum (.object fields) input → JsonSchema.acceptsEnum (.object fields) input = true :=
    acceptsEnum_of_passesEnum
  rw [validateInputAgainstSchema_eq_ok_iff, ← excludedByList_iff, ← integerAsFloat_iff, ← equalOnlyByValue_iff,
    JsonSchema.accepts, Bool.and_eq_true, ← Bool.not_eq_true]
  -- what passes the enum check is in the `enum`, so the two sides differ in the types, or in the `enum` alone
  tauto

section Examples

attribute [local instance] shortRuns

/-- The float `1.0` is an integer, but not to the validation. -/
theorem validateInputAgainstSchema_false : ¬ ∀ (id : String) (fields : List (String × Value)) (input : Value),
    validateInputAgainstSchema id input (.object fields) = .ok () ↔
      JsonSchema.accepts (.object fields) input = true := by
  intro h
  have hok := (h "q" [("type", .string "integer")] (.number (.float 1))).2 (by decide +kernel)
  cases hok

end Examples

end Takeln
