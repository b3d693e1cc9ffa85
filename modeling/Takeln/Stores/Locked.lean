import Mathlib.Data.List.Induction
import Takeln.Sequential.Interrupts
import Takeln.Stores.Calls

/-!
# The in-memory checkpointer behind its mutex

Every call of an `InMemoryCheckpointer` works on its map under a lock.  `chrono` panics on a time before its first one,
so a deletion of what is older than a very long duration panics when it computes its cutoff; the mutex is then poisoned,
and every later call that takes the lock fails.
-/

namespace Takeln

open Sqlite (Chrono)

/-- A store with the flag of its mutex. -/
structure LockedStore where
  store : MemoryStore
  poisoned : Bool

/-- `InMemoryCheckpointer::new` -/
def LockedStore.new : LockedStore := ⟨fun _ => none, false⟩

/-- How a call ends. -/
inductive Ending (S : Type)
  | returned (answer : Answer S)
  | panicked

/-- What a lock of a poisoned mutex is reported as. -/
def poisoning : TakelnError := .checkpointError "Mutex poisoning: poisoned lock: another task failed inside"

section

variable {S : Type} [Chrono]

/-- The cutoff of a deletion is before the first time of `chrono`. -/
def MemoryStore.Overflows (store : MemoryStore) (c : StoreCall S) : Prop :=
  match c.op with
  | .deleteCheckpoints threadId (.olderThan d) =>
    (store threadId).isSome ∧ d.nanos ≤ maxDuration ∧ c.now - d.nanos < Chrono.minUtc
  | _ => False

instance (store : MemoryStore) (c : StoreCall S) : Decidable (store.Overflows c) := by
  unfold MemoryStore.Overflows
  split <;> infer_instance

namespace LockedStore

variable [State S] (l : LockedStore)

/-- A call, from the lock on. -/
def locked (c : StoreCall S) : Ending S × LockedStore :=
  if l.poisoned then (.returned (.error poisoning), l)
  else if l.store.Overflows c then (.panicked, { l with poisoned := true })
  else
    let (answer, store') := l.store.answer c
    (.returned answer, { l with store := store' })

/-- A call.  A save serialises its state before it takes the lock. -/
def answer (c : StoreCall S) : Ending S × LockedStore :=
  match c.op with
  | .saveState args =>
    match State.toValue args.state with
    | .error e => (.returned (.error (.serializationError e)), l)
    | .ok _ => l.locked c
  | _ => l.locked c

/-- The store after some calls. -/
def after (calls : List (StoreCall S)) : LockedStore := calls.foldl (fun l c => (l.answer c).2) l

/-- Some calls and their endings. -/
def log : LockedStore → List (StoreCall S) → List (StoreCall S × Ending S)
  | _, [] => []
  | l, c :: cs => (c, (l.answer c).1) :: log (l.answer c).2 cs

@[simp] theorem after_nil : l.after ([] : List (StoreCall S)) = l := rfl

theorem after_concat (calls : List (StoreCall S)) (c : StoreCall S) :
    l.after (calls ++ [c]) = ((l.after calls).answer c).2 := by
  simp [after]

theorem log_concat (calls : List (StoreCall S)) (c : StoreCall S) :
    l.log (calls ++ [c]) = l.log calls ++ [(c, ((l.after calls).answer c).1)] := by
  induction calls generalizing l with
  | nil => rfl
  | cons c' cs ih => exact congrArg _ (ih (l.answer c').2)

variable {l} {c : StoreCall S}

/-- A call that finds the mutex sound and its cutoff in range is answered by the store. -/
theorem answer_of_sound (hfree : l.poisoned = false) (hrange : ¬ l.store.Overflows c) :
    l.answer c = (.returned (l.store.answer c).1, { l with store := (l.store.answer c).2 }) := by
  have hlocked : l.locked c = (.returned (l.store.answer c).1, { l with store := (l.store.answer c).2 }) := by
    simp [locked, hfree, hrange]
  unfold answer
  split
  · rename_i args hop
    split
    · rename_i e hvalue
      simp [MemoryStore.answer, hop, MemoryStore.saveState, hvalue, Except.map]
    · exact hlocked
  · exact hlocked

/-- A call on a poisoned mutex fails and changes nothing. -/
theorem answer_of_poisoned (h : l.poisoned = true) : (∃ e, (l.answer c).1 = .returned (.error e)) ∧
    (l.answer c).2 = l := by
  have hlocked : l.locked c = (.returned (.error poisoning), l) := by simp [locked, h]
  unfold answer
  split
  · split
    · exact ⟨⟨_, rfl⟩, rfl⟩
    · rw [hlocked]
      exact ⟨⟨_, rfl⟩, rfl⟩
  · rw [hlocked]
    exact ⟨⟨_, rfl⟩, rfl⟩

/-- A call whose cutoff is out of range poisons the mutex. -/
theorem poisoned_of_overflows (h : l.store.Overflows c) : (l.answer c).2.poisoned = true := by
  have hlocked : (l.locked c).2.poisoned = true := by
    unfold locked
    split
    · assumption
    · rfl
  unfold answer
  split
  · rename_i hop
    simp [MemoryStore.Overflows, hop] at h
  · exact hlocked

/-- A sound store, called with a cutoff out of range. -/
theorem answer_of_overflows (hfree : l.poisoned = false) (h : l.store.Overflows c) :
    l.answer c = (.panicked, { l with poisoned := true }) := by
  have hlocked : l.locked c = (.panicked, { l with poisoned := true }) := by simp [locked, hfree, h]
  unfold answer
  split
  · rename_i hop
    simp [MemoryStore.Overflows, hop] at h
  · exact hlocked

/-- A poisoned mutex stays poisoned. -/
theorem poisoned_after (h : l.poisoned = true) (calls : List (StoreCall S)) : l.after calls = l := by
  induction calls with
  | nil => rfl
  | cons c cs ih =>
    change (l.answer c).2.after cs = l
    rw [(answer_of_poisoned h).2]
    exact ih

end LockedStore

/-! ### Calls that panic -/

omit [Chrono] in
/-- A save on a thread whose state can be serialised. -/
def StoreCall.SavesTo [State S] (c : StoreCall S) (threadId : String) : Prop :=
  match c.op with
  | .saveState args => args.threadId = threadId ∧ ∃ v, State.toValue args.state = .ok v
  | _ => False

/-- A deletion, on a thread that was saved to, of what is older than a duration that `chrono` can hold, but that goes
back before its first time. -/
def StoreCall.OverflowsAfter [State S] (before : List (StoreCall S)) (c : StoreCall S) : Prop :=
  match c.op with
  | .deleteCheckpoints threadId (.olderThan d) =>
    (∃ c' ∈ before, c'.SavesTo threadId) ∧ d.nanos ≤ maxDuration ∧ c.now - d.nanos < Chrono.minUtc
  | _ => False

/-- No call of a sequence panics. -/
def PanicFree [State S] (calls : List (StoreCall S)) : Prop :=
  ∀ before c after, calls = before ++ c :: after → ¬ c.OverflowsAfter before

theorem panicFree_nil [State S] : PanicFree ([] : List (StoreCall S)) := by
  intro before c after h
  simp at h

theorem panicFree_concat [State S] {calls : List (StoreCall S)} {c : StoreCall S} :
    PanicFree (calls ++ [c]) ↔ PanicFree calls ∧ ¬ c.OverflowsAfter calls := by
  constructor
  · intro h
    exact ⟨fun before c' after hcalls => h before c' (after ++ [c]) (by rw [hcalls]; simp), h calls c [] rfl⟩
  · rintro ⟨hcalls, hc⟩ before c' after heq
    rcases List.eq_nil_or_concat after with rfl | ⟨after', last, rfl⟩
    · obtain ⟨rfl, hlast⟩ := List.append_inj' heq rfl
      cases hlast
      exact hc
    · rw [List.concat_eq_append, ← List.cons_append, ← List.append_assoc] at heq
      exact hcalls before c' after' (List.append_inj' heq rfl).1

omit [Chrono] in
/-- The threads of a store, after a call. -/
theorem isSome_answer [State S] (store : MemoryStore) (c : StoreCall S) (threadId : String) :
    ((store.answer c).2 threadId).isSome ↔ (store threadId).isSome ∨ c.SavesTo threadId := by
  have hupdate : ∀ (t : String) (l : List MemoryCheckpoint), (store t).isSome →
      ((Function.update store t (some l) threadId).isSome ↔ (store threadId).isSome) := by
    intro t l ht
    by_cases h : threadId = t
    · simp [h, ht]
    · simp [h]
  unfold StoreCall.SavesTo
  cases hop : c.op with
  | saveState args =>
    simp only [MemoryStore.answer, hop, MemoryStore.saveState]
    cases hvalue : State.toValue args.state with
    | error e => simp
    | ok v =>
      by_cases h : threadId = args.threadId
      · simp [h]
      · simp [h, Ne.symm h]
  | deleteCheckpoints t policy =>
    simp only [MemoryStore.answer, hop, MemoryStore.deleteCheckpoints, or_false]
    cases hs : store t with
    | none => rfl
    | some list =>
      have ht : (store t).isSome := by rw [hs]; rfl
      cases policy with
      | keepAll => rfl
      | keepLast n =>
        dsimp only
        split
        · exact hupdate t _ ht
        · rfl
      | olderThan d =>
        dsimp only
        split
        · rfl
        · exact hupdate t _ ht
  | claimInterrupt t i =>
    simp only [MemoryStore.answer, hop, or_false]
    rw [MemoryStore.claimInterrupt_store]
    split
    · rename_i hclaimed
      obtain ⟨-, last, hlast, -⟩ := MemoryStore.claimInterrupt_claimed_iff.1 hclaimed
      refine hupdate t _ ?_
      cases hs : store t with
      | none => simp [MemoryStore.rows, hs] at hlast
      | some list => rfl
    · rfl
  | _ => simp [MemoryStore.answer, hop]

namespace LockedStore

variable [State S]

/-- As long as the mutex is sound, a thread is there exactly if it was saved to. -/
theorem isSome_after {calls : List (StoreCall S)} (h : (new.after calls).poisoned = false) (t : String) :
    ((new.after calls).store t).isSome ↔ ∃ c ∈ calls, c.SavesTo t := by
  induction calls using List.reverseRecOn with
  | nil => simp [new]
  | append_singleton cs c ih =>
    rw [after_concat] at h ⊢
    by_cases hpoisoned : (new.after cs).poisoned = true
    · rw [(answer_of_poisoned hpoisoned).2, hpoisoned] at h
      cases h
    · rw [Bool.not_eq_true] at hpoisoned
      by_cases hrange : (new.after cs).store.Overflows c
      · rw [poisoned_of_overflows hrange] at h
        cases h
      · rw [answer_of_sound hpoisoned hrange, isSome_answer, ih hpoisoned]
        simp [or_and_right, exists_or]

theorem overflows_iff {calls : List (StoreCall S)} (h : (new.after calls).poisoned = false) (c : StoreCall S) :
    (new.after calls).store.Overflows c ↔ c.OverflowsAfter calls := by
  unfold MemoryStore.Overflows StoreCall.OverflowsAfter
  cases c.op with
  | deleteCheckpoints t policy =>
    cases policy with
    | olderThan d =>
      dsimp only
      rw [isSome_after h]
    | _ => rfl
  | _ => rfl

/-- The mutex is sound exactly as long as no call has panicked. -/
theorem poisoned_eq_false_iff {calls : List (StoreCall S)} : (new.after calls).poisoned = false ↔ PanicFree calls := by
  induction calls using List.reverseRecOn with
  | nil => exact iff_of_true rfl panicFree_nil
  | append_singleton cs c ih =>
    rw [panicFree_concat, ← ih, after_concat]
    cases hpoisoned : (new.after cs).poisoned with
    | true =>
      rw [(answer_of_poisoned hpoisoned).2, hpoisoned]
      simp
    | false =>
      rw [← overflows_iff hpoisoned]
      by_cases hrange : (new.after cs).store.Overflows c
      · simp [poisoned_of_overflows hrange, hrange]
      · simp [answer_of_sound hpoisoned hrange, hpoisoned, hrange]

/-! ### Calls after a panic -/

/-- No call panics, and every call is answered by the store itself, never by a poisoned mutex. -/
def Unharmed (calls : List (StoreCall S)) : Prop :=
  (new.log calls).map Prod.snd = (answers MemoryStore.answer (fun _ => none) calls).map .returned

/-- The calls from a sound store on are answered by the store itself exactly if its mutex is sound after them. -/
theorem map_log_eq_iff {l : LockedStore} (hfree : l.poisoned = false) (calls : List (StoreCall S)) :
    (l.log calls).map Prod.snd = (answers MemoryStore.answer l.store calls).map .returned ↔
      (l.after calls).poisoned = false := by
  induction calls generalizing l with
  | nil => exact iff_of_true rfl hfree
  | cons c cs ih =>
    have hafter : l.after (c :: cs) = (l.answer c).2.after cs := rfl
    rw [hafter, log, answers, List.map_cons, List.map_cons, List.cons.injEq]
    by_cases hrange : l.store.Overflows c
    · -- the panic is no answer of the store, and poisons the mutex for good
      have hpoisoned := poisoned_of_overflows hrange
      rw [poisoned_after hpoisoned, hpoisoned, answer_of_overflows hfree hrange]
      simp
    · rw [answer_of_sound hfree hrange, ← ih (l := { l with store := (l.store.answer c).2 }) hfree]
      exact and_iff_right rfl

/-- A deletion returns and leaves the store in working order exactly if it does not go back before `chrono`'s first time
on a thread that was saved to. -/
theorem unharmed_iff (calls : List (StoreCall S)) : Unharmed calls ↔ PanicFree calls := by
  have hlog := map_log_eq_iff (l := new) rfl calls
  exact hlog.trans poisoned_eq_false_iff

end LockedStore

end

/-! ### A panic -/

section Examples

open Sqlite (utcTimes)

attribute [local instance] utcTimes

/-- Save, delete what is older than some 300000 years, and load. -/
def panicking : List (StoreCall Bool) :=
  [callAt (.saveState (yielded (.simple "q"))) "c0" 0,
    callAt (.deleteCheckpoints "t" (.olderThan ⟨10000000000000000000000⟩)) "" 0,
    callAt (.loadState "t") "" 0]

theorem unharmed_false : ¬ ∀ calls : List (StoreCall Bool), LockedStore.Unharmed calls := by
  intro h
  have hdelete := congrArg (fun endings => endings[1]?) (h panicking)
  cases hdelete

end Examples

end Takeln
