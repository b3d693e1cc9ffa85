import Mathlib.Data.List.DropRight
import Takeln.Effect.While
import Takeln.Threads.Permitted

/-!
# The execution history

The records of a graph are shared by all its runs.  Under their lock, the engines trim the history in front of every
push with `while records.len() >= max { records.pop_front() }`.  If `max` is not 0 this loop ends, and the history is
always made of the last `max` records; if `max` is 0 the first push never comes (`keepsRecent_iff`).
-/

namespace Takeln

open Effect Effect.Prog

variable {S W : Type} {max : Nat} {records rest rs : List ExecutionRecord}

/-! ### Trimming -/

/-- The loop that trims a history. -/
abbrev Trims (max : Nat) : List ExecutionRecord → List ExecutionRecord → Prop :=
  Ends (fun records => max ≤ records.length) List.tail

theorem trims_of_le (hlong : max ≤ records.length) : Trims max records rest ↔ Trims max records.tail rest :=
  ends_of_cond hlong

theorem trims_of_lt (hshort : records.length < max) : Trims max records rest ↔ rest = records :=
  ends_of_not (Nat.not_le.2 hshort)

theorem trims_iff : Trims max records rest ↔ trimRecords max records = some rest := by
  induction records with
  | nil =>
    unfold trimRecords
    by_cases hmax : max = 0
    · -- even an empty history is too long
      have hnever : ¬ Trims max [] rest := not_ends fun records => by omega
      rw [if_pos hmax]
      simpa using hnever
    · rw [if_neg hmax, trims_of_lt (Nat.pos_of_ne_zero hmax), Option.some.injEq, eq_comm]
  | cons r records ih =>
    unfold trimRecords
    by_cases hlong : max ≤ (r :: records).length
    · rw [if_pos hlong, trims_of_le hlong]
      exact ih
    · rw [if_neg hlong, trims_of_lt (by omega), Option.some.injEq, eq_comm]

/-- The loop ends if there is room for a record at all. -/
theorem exists_trims (hmax : 0 < max) (records : List ExecutionRecord) : ∃ rest, Trims max records rest := by
  refine exists_ends List.length (fun records hlong => ?_) records
  rw [List.length_tail]
  omega

/-- It leaves the last `max - 1` records. -/
theorem Trims.eq_drop (h : Trims max records rest) : rest = records.drop (records.length + 1 - max) := by
  have hround (l : List ExecutionRecord) (hlong : max ≤ l.length)
      (hl : l.drop (l.length + 1 - max) = records.drop (records.length + 1 - max)) :
      l.tail.drop (l.tail.length + 1 - max) = records.drop (records.length + 1 - max) := by
    rw [← hl]
    cases l with
    | nil => simp
    | cons r l =>
      have hlen : (r :: l).length + 1 - max = l.length + 1 - max + 1 := by
        rw [List.length_cons] at hlong ⊢
        omega
      rw [hlen, List.drop_succ_cons, List.tail_cons]
  obtain ⟨hrest, hshort⟩ := h.invariant hround rfl
  have hall : rest.length + 1 - max = 0 := by omega
  rwa [hall, List.drop_zero] at hrest

/-! ### Recording -/

/-- The history after a sequence of recordings. -/
def recordAll (max : Nat) (rs : List ExecutionRecord) : Option (List ExecutionRecord) := rs.foldlM (pushRecord max) []

@[simp] theorem recordAll_nil : recordAll max [] = some [] := rfl

theorem recordAll_concat (rs : List ExecutionRecord) (r : ExecutionRecord) :
    recordAll max (rs ++ [r]) = (recordAll max rs).bind fun records => pushRecord max records r := by
  simp [recordAll, List.foldlM_append]

/-- A push on the last `max` records leaves the last `max` records. -/
theorem pushRecord_rtake (hmax : 0 < max) (rs : List ExecutionRecord) (r : ExecutionRecord) :
    pushRecord max (rs.rtake max) r = some ((rs ++ [r]).rtake max) := by
  obtain ⟨rest, hrest⟩ := exists_trims hmax (rs.rtake max)
  have hlast : rest ++ [r] = (rs ++ [r]).rtake max := by
    obtain ⟨m, rfl⟩ := Nat.exists_eq_succ_of_ne_zero hmax.ne'
    rw [List.rtake_concat_succ, hrest.eq_drop, List.rtake, List.rtake, List.drop_drop, List.length_drop]
    congr 2
    omega
  rw [pushRecord, trims_iff.1 hrest, Option.map_some, hlast]

/-- The history is made of the last `max` records. -/
theorem recordAll_eq (hmax : 0 < max) (rs : List ExecutionRecord) : recordAll max rs = some (rs.rtake max) := by
  induction rs using List.reverseRecOn with
  | nil => simp
  | append_singleton rs r ih =>
    rw [recordAll_concat, ih, Option.bind_some]
    exact pushRecord_rtake hmax rs r

/-! ### The history of a graph -/

/-- The record an operation adds. -/
def recorded (e : Event (ops S)) : Option ExecutionRecord :=
  match e.op with
  | .record _ r => some r
  | _ => none

/-- A recording uses the limit `max`. -/
def Op.RecordsUpTo (max : Nat) : Op S → Prop
  | .record limit _ => limit = max
  | _ => True

/-- The calls of a graph record with its limit. -/
theorem permitted_recordsUpTo [External] (g : Graph S) (threadId : String) :
    Permitted (Op.RecordsUpTo g.resourceLimits.maxExecutionRecords) g threadId where
  record _ := rfl
  node _ _ _ _ _ _ _ _ _ := trivial
  wave _ _ := trivial
  head := trivial
  save _ := trivial
  load := trivial
  claim _ := trivial
  seq := trivial
  send _ := trivial

/-- An operation leaves the history alone, or pushes what it records. -/
theorem records_of_memory [State S] {env : Env S} {w w' : World} {o : Op S} {r : o.Answer}
    (hr : memory env w o = some (r, w')) :
    (recorded ⟨o, r⟩ = none ∧ w'.records = w.records) ∨
      ∃ limit record, o = .record limit record ∧ recorded ⟨o, r⟩ = some record ∧
        pushRecord limit w.records record = some w'.records := by
  cases o with
  | record limit record =>
    obtain ⟨records, hpush, hw⟩ := Option.map_eq_some_iff.1 hr
    cases hw
    exact Or.inr ⟨limit, record, rfl, rfl, hpush⟩
  | saveStateBound args =>
    cases hr
    exact Or.inl ⟨rfl, rfl⟩
  | claimInterrupt t i =>
    cases hr
    exact Or.inl ⟨rfl, rfl⟩
  | _ =>
    cases hr
    exact Or.inl ⟨rfl, rfl⟩

/-- The history is what the recordings so far leave. -/
def Remembers {ι Q : Type} (max : Nat) (tr : List (Entry (ops S) ι World)) (w : World) (_ : Q) : Prop :=
  recordAll max ((tr.map Entry.event).filterMap recorded) = some w.records

/-- A recording with the limit `max` pushes its record, every other operation leaves the history alone. -/
theorem Remembers.step [State S] {env : Env S} {ι Q : Type} {tr : List (Entry (ops S) ι World)}
    {w w' : World} {q q' : Q} {o : Op S} {r : o.Answer} (h : Remembers max tr w q) (hallow : o.RecordsUpTo max)
    (hr : memory env w o = some (r, w')) (i : ι) : Remembers max (tr ++ [⟨i, w, o, r⟩]) w' q' := by
  unfold Remembers at h ⊢
  rw [List.map_append, List.filterMap_append]
  change recordAll max (_ ++ List.filterMap recorded [⟨o, r⟩]) = _
  rcases records_of_memory hr with ⟨hnone, hsame⟩ | ⟨limit, record, rfl, hsome, hpush⟩
  · rw [hsame, ← h, List.filterMap_cons_none hnone, List.filterMap_nil, List.append_nil]
  · have hlimit : limit = max := hallow
    rw [List.filterMap_cons_some hsome, List.filterMap_nil, recordAll_concat, h, ← hlimit]
    exact hpush

/-- Calls on graphs with one limit, on any threads and interleaved in any order, leave the history that their recordings
leave. -/
theorem records_of_interleaving [External] [State S] [Merge S] {env : Env S} {ι : Type} [DecidableEq ι]
    {threadOf : ι → String} {callOf : ι → Call S} {w w' : World} {tr : List (Entry (ops S) ι World)}
    {P : ι → Prog (ops S) TakelnError Unit} (hmax : ∀ i, (callOf i).graph.resourceLimits.maxExecutionRecords = max)
    (hw : w.records = [])
    (hI : Interleaving (memory env).semantics (fun i => (callOf i).prog (threadOf i)) w tr P w') :
    recordAll max ((tr.map Entry.event).filterMap recorded) = some w'.records := by
  have hpermitted (i : ι) : Permitted (Op.RecordsUpTo max) (callOf i).graph (threadOf i) := by
    rw [← hmax i]
    exact permitted_recordsUpTo _ _
  have hstart : Remembers max ([] : List (Entry (ops S) ι World)) w fun _ : ι => () := congrArg some hw.symm
  obtain ⟨_, hrecords, _⟩ := hI.invariant (fun i => (hpermitted i).call) hstart
    fun tr w q i o r w' h hallow hr => h.step hallow hr i
  exact hrecords

/-! ### The limit -/

/-- In front of every push the loop ends, and after it the history is made of the last records, `max` at most, in their
order. -/
def KeepsRecent (max : Nat) (rs : List ExecutionRecord) : Prop :=
  ∀ n r, rs[n]? = some r → ∃ records rest, recordAll max (rs.take n) = some records ∧ Trims max records rest ∧
    recordAll max (rs.take (n + 1)) = some (rest ++ [r]) ∧ (rest ++ [r]).length ≤ max ∧
    rest ++ [r] = (rs.take (n + 1)).rtake max

/-- The history is trimmed as documented exactly if it may hold a record, or none is recorded. -/
theorem keepsRecent_iff_pos (max : Nat) (rs : List ExecutionRecord) : KeepsRecent max rs ↔ 0 < max ∨ rs = [] := by
  constructor
  · intro h
    cases rs with
    | nil => exact Or.inr rfl
    | cons r rs =>
      obtain ⟨records, rest, _, _, _, hlen, _⟩ := h 0 r rfl
      rw [List.length_append, List.length_singleton] at hlen
      exact Or.inl (by omega)
  · rintro (hmax | rfl)
    · intro n r hr
      have hnext : rs.take (n + 1) = rs.take n ++ [r] := by rw [List.take_add_one, hr, Option.toList_some]
      obtain ⟨rest, hrest⟩ := exists_trims hmax ((rs.take n).rtake max)
      have hpush := pushRecord_rtake hmax (rs.take n) r
      rw [pushRecord, trims_iff.1 hrest, Option.map_some, ← hnext] at hpush
      have hlast : rest ++ [r] = (rs.take (n + 1)).rtake max := Option.some.inj hpush
      refine ⟨_, rest, recordAll_eq hmax _, hrest, ?_, ?_, hlast⟩
      · rw [recordAll_eq hmax, hlast]
      · rw [hlast, List.rtake, List.length_drop]
        omega
    · intro n r hr
      cases hr

/-- What the recordings of calls on graphs with one limit leave is trimmed as documented exactly if the history may hold
a record, or none is recorded; and it is the history that any such calls leave. -/
theorem keepsRecent_iff [External] [State S] [Merge S] (max : Nat) (rs : List ExecutionRecord) :
    (KeepsRecent max rs ↔ 0 < max ∨ rs = []) ∧
    ∀ {env : Env S} {ι : Type} [DecidableEq ι] {threadOf : ι → String} {callOf : ι → Call S} {w w' : World}
      {tr : List (Entry (ops S) ι World)} {P : ι → Prog (ops S) TakelnError Unit},
      (∀ i, (callOf i).graph.resourceLimits.maxExecutionRecords = max) → w.records = [] →
      Interleaving (memory env).semantics (fun i => (callOf i).prog (threadOf i)) w tr P w' →
      recordAll max ((tr.map Entry.event).filterMap recorded) = some w'.records :=
  ⟨keepsRecent_iff_pos max rs, fun hmax hw hI => records_of_interleaving hmax hw hI⟩

/-- With the limit 0 the first record of a history is never pushed. -/
theorem keepsRecent_false : ¬ ∀ max rs, KeepsRecent max rs := by
  intro h
  obtain ⟨records, rest, _, htrims, _⟩ := h 0 [⟨"A", "success", none, none, 1, none, none, none, none⟩] 0 _ rfl
  exact not_ends (fun records => Nat.zero_le _) htrims

end Takeln
