import Mathlib.Logic.Relation
import Takeln.Effect.Akin
import Takeln.Stores.Checkpointers
import Takeln.Stores.Pruning

/-!
# Retention while calls run

`delete_checkpoints` may be called at any moment, in between the store operations of calls that run.  The engines ask
for the latest checkpoint of their thread only, and a claim also for one that resolves its interrupt.  So as long as
deletions keep these, as `KeepLast(n)` does with the former, no call notices them (`deletions_unnoticed`).
-/

namespace Takeln

open Effect Effect.Prog

variable {S : Type}

/-! ### Deletions -/

/-- A deletion that keeps the latest checkpoint of its thread, and one that resolves an interrupt of `J` if there was
any. -/
inductive Retains (J : String → String → Prop) (store : MemoryStore) : MemoryStore → Prop
  | delete (threadId : String) (policy : RetentionPolicy) (now : Int)
    (hlast : ((store.deleteCheckpoints threadId policy now).2.rows threadId).getLast? =
      (store.rows threadId).getLast?)
    (hresolved : ∀ i, J threadId i → Resolved (store.rows threadId) i →
      Resolved ((store.deleteCheckpoints threadId policy now).2.rows threadId) i) :
    Retains J store (store.deleteCheckpoints threadId policy now).2

section Retains

variable {J : String → String → Prop} {store store' : MemoryStore} {threadId : String}

/-- `KeepLast` keeps the latest checkpoint. -/
theorem retains_keepLast {n : Nat} (hn : 1 ≤ n) (now : Int)
    (hresolved : ∀ i, J threadId i → Resolved (store.rows threadId) i →
      Resolved ((store.rows threadId).drop ((store.rows threadId).length - n)) i) :
    Retains J store (store.deleteCheckpoints threadId (.keepLast n) now).2 := by
  have hrows := store.rows_keepLast threadId n now
  refine .delete threadId (.keepLast n) now ?_ fun i hi hres => ?_
  · rw [hrows, MemoryStore.getLast?_keepLast hn]
  · rw [hrows]
    exact hresolved i hi hres

/-- What the rows of a store have to do with those it had before some deletions. -/
structure Spared (J : String → String → Prop) (store store' : MemoryStore) : Prop where
  last (t : String) : (store'.rows t).getLast? = (store.rows t).getLast?
  resolved (t i : String) (hi : J t i) : Resolved (store'.rows t) i ↔ Resolved (store.rows t) i

theorem Spared.trans {store'' : MemoryStore} (h : Spared J store store') (h' : Spared J store' store'') :
    Spared J store store'' :=
  ⟨fun t => (h'.last t).trans (h.last t), fun t i hi => (h'.resolved t i hi).trans (h.resolved t i hi)⟩

theorem Retains.spared (h : Retains J store store') : Spared J store store' := by
  cases h with
  | delete threadId policy now hlast hresolved =>
    have hrows (t : String) (ht : t ≠ threadId) :
        (store.deleteCheckpoints threadId policy now).2.rows t = store.rows t := by
      rcases MemoryStore.rows_deleteCheckpoints store threadId policy now t with ⟨-, hrows⟩ | ⟨-, hrows⟩
      · exact hrows
      · rw [hrows, if_neg (Ne.symm ht)]
    refine ⟨fun t => ?_, fun t i hi => ?_⟩
    · by_cases ht : t = threadId
      · rw [ht, hlast]
      · rw [hrows t ht]
    · by_cases ht : t = threadId
      · subst ht
        refine ⟨?_, hresolved i hi⟩
        -- nothing is resolved by a deletion
        rintro ⟨cp, hcp, hcpi⟩
        refine ⟨cp, ?_, hcpi⟩
        rcases MemoryStore.rows_deleteCheckpoints store t policy now t with ⟨-, hrows⟩ | ⟨-, hrows⟩
        · rwa [hrows] at hcp
        · rw [hrows, if_pos rfl] at hcp
          exact (retain_sublist _ _ _ _).mem hcp
      · rw [hrows t ht]

theorem spared_of_deletions (h : Relation.ReflTransGen (Retains J) store store') : Spared J store store' := by
  induction h with
  | refl => exact ⟨fun _ => rfl, fun _ _ _ => Iff.rfl⟩
  | tail _ hlast ih => exact ih.trans hlast.spared

end Retains

/-! ### Calls among deletions -/

/-- Before each operation any number of deletions may be made. -/
def retaining [State S] (env : Env S) (J : String → String → Prop) : Semantics (ops S) World := fun w o r w' =>
  ∃ store, Relation.ReflTransGen (Retains J) w.store store ∧ memory env { w with store := store } o = some (r, w')

/-- The second world has lost to deletions what nobody asks for. -/
structure Unnoticed (J : String → String → Prop) (w w' : World) : Prop where
  store : Spared J w.store w'.store
  rest : w' = { w with store := w'.store }

section Steps

variable {J : String → String → Prop} {w w' : World}

/-- Both stores get the same rows in place of the latest one. -/
theorem Spared.update {store store' : MemoryStore} (h : Spared J store store') {t : String}
    {rows rows' : List MemoryCheckpoint} (hlast : rows'.getLast? = rows.getLast?)
    (hresolved : ∀ i, J t i → (Resolved rows' i ↔ Resolved rows i)) :
    Spared J (Function.update store t (some rows)) (Function.update store' t (some rows')) := by
  refine ⟨fun t' => ?_, fun t' i hi => ?_⟩
  · rw [MemoryStore.rows_update, MemoryStore.rows_update]
    by_cases ht : t' = t
    · rw [if_pos ht, if_pos ht, hlast]
    · rw [if_neg ht, if_neg ht, h.last]
  · rw [MemoryStore.rows_update, MemoryStore.rows_update]
    by_cases ht : t' = t
    · rw [if_pos ht, if_pos ht]
      exact hresolved i (ht ▸ hi)
    · rw [if_neg ht, if_neg ht]
      exact h.resolved t' i hi

theorem getLast?_claimLast (rows : List MemoryCheckpoint) (i : String) :
    (claimLast rows i).getLast? = rows.getLast?.map (·.claimedFor i) := by
  unfold claimLast
  rcases List.eq_nil_or_concat rows with rfl | ⟨l, last, rfl⟩
  · rfl
  · simp

theorem Spared.saveState [State S] {store store' : MemoryStore} (h : Spared J store store') (id : String) (now : Int)
    (args : SaveArgs S) : (store'.saveState id now args).1 = (store.saveState id now args).1 ∧
      Spared J (store.saveState id now args).2 (store'.saveState id now args).2 := by
  unfold MemoryStore.saveState
  cases State.toValue args.state with
  | error e => exact ⟨rfl, h⟩
  | ok val =>
    refine ⟨rfl, h.update ?_ fun i hi => ?_⟩
    · rw [List.getLast?_concat, List.getLast?_concat]
    · rw [resolved_append, resolved_append, h.resolved _ i hi]

theorem Spared.claimInterrupt {store store' : MemoryStore} (h : Spared J store store') {t i : String} (hi : J t i) :
    (store'.claimInterrupt t i).1 = (store.claimInterrupt t i).1 ∧
      Spared J (store.claimInterrupt t i).2 (store'.claimInterrupt t i).2 := by
  have hsame := MemoryStore.claimInterrupt_congr (h.resolved t i hi) (h.last t)
  refine ⟨hsame, ?_⟩
  rw [MemoryStore.claimInterrupt_store, MemoryStore.claimInterrupt_store, hsame]
  split
  · refine h.update ?_ fun j hj => ?_
    · rw [getLast?_claimLast, getLast?_claimLast, h.last]
    · rw [resolved_claimLast, resolved_claimLast, h.resolved t j hj]
  · exact h

variable [State S] {env : Env S}

/-- An operation is answered alike whatever has been lost, if it claims none but the interrupts of `J`. -/
theorem Unnoticed.step (h : Unnoticed J w w') {o : Op S} (ho : ∀ t i, o = .claimInterrupt t i → J t i) {r : o.Answer}
    {w₁' : World} (hstep : memory env w' o = some (r, w₁')) :
    ∃ w₁, memory env w o = some (r, w₁) ∧ Unnoticed J w₁ w₁' := by
  obtain ⟨hstore, hrest⟩ := h
  generalize w'.store = store' at hstore hrest
  subst hrest
  cases o with
  | currentHead t =>
    cases hstep
    exact ⟨_, rfl, hstore, rfl⟩
  | saveStateBound args =>
    obtain ⟨hr, hs⟩ := hstore.saveState (env.newId w.saves) (env.now w.saves) args
    have hsaved (store : MemoryStore) : memory env { w with store := store } (.saveStateBound args) =
        some ((store.saveState (env.newId w.saves) (env.now w.saves) args).1.map .created, { w with
          store := (store.saveState (env.newId w.saves) (env.now w.saves) args).2, saves := w.saves + 1 }) := rfl
    rw [hsaved store', hr] at hstep
    cases hstep
    exact ⟨_, hsaved w.store, hs, rfl⟩
  | loadState t =>
    cases hstep
    refine ⟨_, ?_, hstore, rfl⟩
    have hload : (store'.loadState t : Except TakelnError (Option (Loaded S))) = w.store.loadState t := by
      unfold MemoryStore.loadState
      rw [hstore.last]
    rw [hload]
    rfl
  | claimInterrupt t i =>
    obtain ⟨hr, hs⟩ := hstore.claimInterrupt (ho t i rfl)
    have hclaimed (store : MemoryStore) : memory env { w with store := store } (.claimInterrupt t i) =
        some ((store.claimInterrupt t i).1, { w with store := (store.claimInterrupt t i).2 }) := rfl
    rw [hclaimed store', hr] at hstep
    cases hstep
    exact ⟨_, hclaimed w.store, hs, rfl⟩
  | callNode ctx state timeout token =>
    cases hstep
    exact ⟨_, rfl, hstore, rfl⟩
  | joinWave tasks =>
    cases hstep
    exact ⟨_, rfl, hstore, rfl⟩
  | nextSeq =>
    cases hstep
    exact ⟨_, rfl, hstore, rfl⟩
  | send event =>
    cases hstep
    exact ⟨_, rfl, hstore, rfl⟩
  | record max rec =>
    obtain ⟨records, hpush, hw⟩ := Option.map_eq_some_iff.1 hstep
    cases hw
    exact ⟨_, Option.map_eq_some_iff.2 ⟨records, hpush, rfl⟩, hstore, rfl⟩

/-- What can be done among deletions can be done without them. -/
theorem Unnoticed.retaining (h : Unnoticed J w w') {o : Op S} (ho : ∀ t i, o = .claimInterrupt t i → J t i)
    {r : o.Answer} {w₁' : World} (hstep : retaining env J w' o r w₁') :
    ∃ w₁, (memory env).semantics w o r w₁ ∧ Unnoticed J w₁ w₁' := by
  obtain ⟨store, hdeleted, hstep⟩ := hstep
  refine Unnoticed.step ⟨h.store.trans (spared_of_deletions hdeleted), ?_⟩ ho hstep
  rw [h.rest]

/-- Calls of the engines do not notice deletions that keep the latest checkpoint of the thread, and for each interrupt
that a call claims one that resolves it if there was any: without the deletions they can take the same turns, are
answered the same, come to the same ends and leave the same latest checkpoint of every thread. -/
theorem deletions_unnoticed [External] [Merge S] {ι : Type} [DecidableEq ι] {threadId : ι → String} {call : ι → Call S}
    {w₀ : World} {tr' : List (Entry (ops S) ι World)} {P : ι → Prog (ops S) TakelnError (Option S)}
    (hI : Interleaving (Takeln.retaining env J) (fun i => (call i).answer (threadId i)) w₀ tr' P w')
    (hclaims : ∀ e ∈ tr', ∀ t i, e.op = .claimInterrupt t i → J t i) :
    ∃ tr w, Interleaving (memory env).semantics (fun i => (call i).answer (threadId i)) w₀ tr P w ∧
      List.Forall₂ (fun e e' => e.who = e'.who ∧ e.event = e'.event) tr tr' ∧
      ∀ t, (w.rows t).getLast? = (w'.rows t).getLast? := by
  have hstart : Unnoticed J w₀ w₀ := ⟨spared_of_deletions .refl, rfl⟩
  obtain ⟨tr, w, hI', htr, hw⟩ := hI.simulated (fun _ _ _ _ _ h ho hstep => h.retaining ho hstep) hstart hclaims
  exact ⟨tr, w, hI', htr, fun t => (hw.store.last t).symm⟩

end Steps

section Examples

attribute [local instance] shortRuns

/-- Before each operation all but the latest checkpoint of `t` are deleted, unless that would lose the answer to `q`. -/
def forgetful : Handler (ops Bool) World := fun w o =>
  if (w.rows "t").any (·.resolvedInterrupt == some "q") →
      ((w.rows "t").drop ((w.rows "t").length - 1)).any (·.resolvedInterrupt == some "q") then
    memory telling { w with store := (w.store.deleteCheckpoints "t" (.keepLast 1) 0).2 } o
  else memory telling w o

theorem retaining_of_forgetful (w : World) (o : Op Bool) (r : o.Answer) (w' : World)
    (h : forgetful w o = some (r, w')) : retaining telling (fun t i => t = "t" ∧ i = "q") w o r w' := by
  unfold forgetful at h
  split at h
  · rename_i hkept
    refine ⟨_, .single (retains_keepLast (Nat.le_refl 1) 0 fun i hi hres => ?_), h⟩
    obtain ⟨-, rfl⟩ := hi
    exact any_resolved.1 (hkept (any_resolved.2 hres))
  · exact ⟨w.store, .refl, h⟩

/-- The run asks, then the resumes take turns. -/
def forgotten : List (Entry (ops Bool) (Fin 3) World) ×
    (Fin 3 → Prog (ops Bool) TakelnError (Option Bool)) × World :=
  (schedule forgetful turns [] (fun i => (contest i).answer "t") World.empty).get (by decide +kernel)

theorem forgotten_interleaving :
    Interleaving (retaining telling fun t i => t = "t" ∧ i = "q") (fun i => (contest i).answer "t") World.empty
      forgotten.1 forgotten.2.1 forgotten.2.2 :=
  (Interleaving.start.schedule (Option.some_get _).symm).mono retaining_of_forgetful

/-- Only `q` is claimed. -/
def claimsOnlyQ : Op Bool → Bool
  | .claimInterrupt t i => t == "t" && i == "q"
  | _ => true

theorem deletions_unnoticed_forgotten :
    (forgotten.2.2.rows "t").length = 1 ∧ ∃ tr w,
      Interleaving (memory telling).semantics (fun i => (contest i).answer "t") World.empty tr forgotten.2.1 w ∧
        List.Forall₂ (fun e e' => e.who = e'.who ∧ e.event = e'.event) tr forgotten.1 ∧
        ∀ t, (w.rows t).getLast? = (forgotten.2.2.rows t).getLast? := by
  have hclaims : forgotten.1.all (fun e => claimsOnlyQ e.op) = true := by decide +kernel
  refine ⟨by decide +kernel, deletions_unnoticed forgotten_interleaving fun e he t i hop => ?_⟩
  have hq := List.all_eq_true.1 hclaims e he
  rw [hop] at hq
  simpa [claimsOnlyQ] using hq

end Examples

end Takeln
