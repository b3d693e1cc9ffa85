import Takeln.Stores.History

/-!
# Pruning a thread

`KeepLast(n)` never deletes the latest checkpoint, so `load_state` does not see it.  A claim looks at the whole history
for a checkpoint that resolves the interrupt: the deletion is invisible exactly if every interrupt that a deleted
checkpoint resolves is resolved by a kept one, too (`pruning_invisible_iff`), in memory as in a SQLite table, however
the ties of its queries are settled.
-/

namespace Takeln

open Sqlite (JsonText Chrono Table Row)

variable {S W : Type} {threadId : String} {n : Nat}

/-- After `KeepLast(n)` a load of the thread and a claim on it answer nothing that they could not have answered without
the deletion: the calls differ in nothing but the order of ties in their queries. -/
def PruningInvisible (step : W → StoreCall S → Answer S × W) (w : W) (threadId : String) (n : Nat) : Prop :=
  ∀ prune : StoreCall S, prune.op = .deleteCheckpoints threadId (.keepLast n) →
    ∀ c : StoreCall S, (c.op = .loadState threadId ∨ ∃ interruptId, c.op = .claimInterrupt threadId interruptId) →
      ∃ select update, (step (step w prune).2 c).1 = (step w { c with select := select, update := update }).1

/-- Every interrupt that a deleted row resolves is resolved by a kept one. -/
def KeepsResolutions {ρ : Type} (resolved : ρ → Option String) (kept deleted : List ρ) : Prop :=
  ∀ r ∈ deleted, ∀ interruptId, resolved r = some interruptId → ∃ r' ∈ kept, resolved r' = some interruptId

/-- The kept rows resolve what all the rows resolve. -/
theorem keepsResolutions_iff {ρ : Type} {resolved : ρ → Option String} {kept deleted rows : List ρ}
    (hrows : ∀ r, r ∈ rows ↔ r ∈ kept ∨ r ∈ deleted) :
    KeepsResolutions resolved kept deleted ↔
      ∀ i, (∃ r ∈ rows, resolved r = some i) ↔ ∃ r ∈ kept, resolved r = some i := by
  constructor
  · intro h i
    constructor
    · rintro ⟨r, hr, hi⟩
      rcases (hrows r).1 hr with hkept | hdeleted
      · exact ⟨r, hkept, hi⟩
      · exact h r hdeleted i hi
    · rintro ⟨r, hr, hi⟩
      exact ⟨r, (hrows r).2 (Or.inl hr), hi⟩
  · intro h r hr i hi
    exact (h i).1 ⟨r, (hrows r).2 (Or.inr hr), hi⟩

theorem map_claimed_eq {x : Except TakelnError ClaimResult} {r : ClaimResult} :
    x.map (Reply.claimed (S := S)) = .ok (.claimed r) ↔ x = .ok r := by
  cases x with
  | error e => simp [Except.map]
  | ok r' => simp [Except.map]

/-- A deletion with stable orders of ties. -/
def pruneCall (threadId : String) (n : Nat) : StoreCall S :=
  ⟨.deleteCheckpoints threadId (.keepLast n), "", 0, .stable _, .stable _⟩

/-- If the deletion is invisible, the interrupts that count as resolved before it do so after it. -/
theorem PruningInvisible.resolved {step : W → StoreCall S → Answer S × W} {w : W} {i : String} {P : W → Prop}
    (h : PruningInvisible step w threadId n)
    (hcompleted : ∀ w c, c.op = .claimInterrupt threadId i →
      ((step w c).1 = .ok (.claimed .alreadyCompleted) ↔ P w))
    (prune : StoreCall S) (hprune : prune.op = .deleteCheckpoints threadId (.keepLast n)) (hw : P w) :
    P (step w prune).2 := by
  obtain ⟨select, update, hsame⟩ := h prune hprune { prune with op := .claimInterrupt threadId i } (Or.inr ⟨i, rfl⟩)
  have hbefore :=
    (hcompleted w { prune with op := .claimInterrupt threadId i, select := select, update := update } rfl).2 hw
  exact (hcompleted _ { prune with op := .claimInterrupt threadId i } rfl).1 (hsame.trans hbefore)

/-! ### In memory -/

namespace MemoryStore

variable {store store' : MemoryStore} {i : String}

/-- Whether a claim succeeds depends on the latest checkpoint, and on whether some checkpoint resolves the interrupt. -/
theorem claimInterrupt_congr (hresolved : Resolved (store'.rows threadId) i ↔ Resolved (store.rows threadId) i)
    (hlast : (store'.rows threadId).getLast? = (store.rows threadId).getLast?) :
    (store'.claimInterrupt threadId i).1 = (store.claimInterrupt threadId i).1 := by
  unfold claimInterrupt
  cases hs : store threadId with
  | none =>
    have hrows : store.rows threadId = [] := by simp [rows, hs]
    cases hs' : store' threadId with
    | none => rfl
    | some list' =>
      have hrows' : store'.rows threadId = list' := rows_eq hs'
      rw [hrows, hrows'] at hlast
      have hnil : list' = [] := List.getLast?_eq_none_iff.1 hlast
      rw [hnil]
      rfl
  | some list =>
    have hrows : store.rows threadId = list := rows_eq hs
    cases hs' : store' threadId with
    | none =>
      have hrows' : store'.rows threadId = [] := by simp [rows, hs']
      rw [hrows, hrows'] at hlast
      have hnil : list = [] := List.getLast?_eq_none_iff.1 hlast.symm
      rw [hnil]
      rfl
    | some list' =>
      have hrows' : store'.rows threadId = list' := rows_eq hs'
      rw [hrows, hrows'] at hlast hresolved
      -- the two histories resolve the same and end alike
      have hany : list'.any (·.resolvedInterrupt == some i) = list.any (·.resolvedInterrupt == some i) := by
        rw [Bool.eq_iff_iff, any_resolved, any_resolved]
        exact hresolved
      dsimp only
      rw [hany, hlast]
      split
      · rfl
      · cases list.getLast? with
        | none => rfl
        | some last =>
          dsimp only
          split
          · rfl
          · cases last.status with
            | yielded =>
              cases last.yieldRequest with
              | none => rfl
              | some request =>
                dsimp only
                split
                · rfl
                · rfl
            | _ => rfl

theorem rows_keepLast (store : MemoryStore) (threadId : String) (n : Nat) (now : Int) :
    (store.deleteCheckpoints threadId (.keepLast n) now).2.rows threadId =
      (store.rows threadId).drop ((store.rows threadId).length - n) := by
  rcases rows_deleteCheckpoints store threadId (.keepLast n) now threadId with ⟨⟨e, he⟩, -⟩ | ⟨-, hrows⟩
  · unfold deleteCheckpoints at he
    cases hs : store threadId with
    | none => simp [hs] at he
    | some list =>
      rw [hs] at he
      dsimp only at he
      split at he
      · cases he
      · cases he
  · rw [hrows, if_pos rfl]
    rfl

theorem getLast?_keepLast (hn : 1 ≤ n) (rows : List MemoryCheckpoint) :
    (rows.drop (rows.length - n)).getLast? = rows.getLast? := by
  rw [List.getLast?_drop]
  split
  · have hnil : rows = [] := List.eq_nil_of_length_eq_zero (by omega)
    rw [hnil]
    rfl
  · rfl

variable [State S]

theorem answer_alreadyCompleted_iff {c : StoreCall S} (hc : c.op = .claimInterrupt threadId i) :
    (store.answer c).1 = .ok (.claimed .alreadyCompleted) ↔ Resolved (store.rows threadId) i := by
  unfold answer
  rw [hc]
  exact map_claimed_eq.trans claimInterrupt_alreadyCompleted_iff

theorem pruningInvisible_iff (hn : 1 ≤ n) :
    PruningInvisible (MemoryStore.answer (S := S)) store threadId n ↔
      KeepsResolutions MemoryCheckpoint.resolvedInterrupt
        ((store.rows threadId).drop ((store.rows threadId).length - n))
        ((store.rows threadId).take ((store.rows threadId).length - n)) := by
  have hsplit (r : MemoryCheckpoint) : r ∈ store.rows threadId ↔
      r ∈ (store.rows threadId).drop ((store.rows threadId).length - n) ∨
        r ∈ (store.rows threadId).take ((store.rows threadId).length - n) := by
    conv => lhs; rw [← List.take_append_drop ((store.rows threadId).length - n) (store.rows threadId)]
    rw [List.mem_append, or_comm]
  have hstore (prune : StoreCall S) (hprune : prune.op = .deleteCheckpoints threadId (.keepLast n)) :
      (store.answer prune).2.rows threadId = (store.rows threadId).drop ((store.rows threadId).length - n) := by
    unfold answer
    rw [hprune]
    exact rows_keepLast store threadId n prune.now
  rw [keepsResolutions_iff hsplit]
  constructor
  · intro h i
    refine ⟨fun hresolved => ?_, fun ⟨r, hr, hi⟩ => ⟨r, (hsplit r).2 (Or.inl hr), hi⟩⟩
    have hkept := h.resolved (fun _ _ => answer_alreadyCompleted_iff) (pruneCall threadId n) rfl hresolved
    rw [hstore _ rfl] at hkept
    exact hkept
  · intro h prune hprune c hc
    have hrows := hstore prune hprune
    have hlast : ((store.answer prune).2.rows threadId).getLast? = (store.rows threadId).getLast? := by
      rw [hrows]
      exact getLast?_keepLast hn _
    refine ⟨c.select, c.update, ?_⟩
    rcases hc with hload | ⟨i, hclaim⟩
    · have hsame : ((store.answer prune).2.loadState threadId : Except TakelnError (Option (Loaded S))) =
          store.loadState threadId := by
        unfold loadState
        rw [hlast]
      generalize (store.answer prune).2 = store' at hsame
      unfold answer
      rw [hload]
      exact congrArg (Except.map Reply.loaded) hsame
    -- a kept checkpoint resolves it if any does
    · have hresolved : Resolved ((store.answer prune).2.rows threadId) i ↔ Resolved (store.rows threadId) i := by
        rw [hrows]
        exact (h i).symm
      have hsame := claimInterrupt_congr hresolved hlast
      generalize (store.answer prune).2 = store' at hsame
      unfold answer
      rw [hclaim]
      exact congrArg (Except.map Reply.claimed) hsame

end MemoryStore

/-! ### In a table -/

namespace Sqlite.Table

open Sqlite (Order)

variable {T : Table} {i : String}

theorem exists_latest {r : Row} (hr : r ∈ T.thread threadId)
    (hmax : ∀ r' ∈ T.thread threadId, r'.createdAt ≤ r.createdAt) : ∃ order, T.latest order threadId = some r :=
  Sql.Arrangement.exists_head hr hmax

theorem latest_eq_none_iff {order : Order} : T.latest order threadId = none ↔ T.thread threadId = [] := by
  unfold latest
  rw [List.head?_eq_none_iff]
  constructor
  · intro h
    have hperm := order.perm (T.thread threadId)
    rw [h] at hperm
    exact hperm.symm.eq_nil
  · intro h
    rw [h]
    exact (order.perm []).eq_nil

/-- The rows that `KeepLast` keeps are the first ones in its order. -/
theorem mem_keepLast {del : Order} {r : Row} :
    r ∈ (T.delete threadId fun r => decide (r.id ∉ T.lastIds del threadId n)).2.thread threadId ↔
      r ∈ (del.desc (T.thread threadId)).take n := by
  rw [thread_keepLast, List.mem_filter, decide_eq_true_eq]
  have hsub {r : Row} (hr : r ∈ (del.desc (T.thread threadId)).take n) : r ∈ T.thread threadId :=
    (del.perm _).mem_iff.1 (List.mem_of_mem_take hr)
  constructor
  · rintro ⟨hr, hid⟩
    obtain ⟨r', hr', hsame⟩ := List.mem_map.1 hid
    have heq : r' = r := eq_of_id_eq (mem_thread.1 (hsub hr')).1 (mem_thread.1 hr).1 hsame
    rw [← heq]
    exact hr'
  · intro hr
    exact ⟨hsub hr, List.mem_map_of_mem hr⟩

/-- The latest row is kept. -/
theorem head_keepLast (hn : 1 ≤ n) {del : Order} {first : Row} (hfirst : T.latest del threadId = some first) :
    first ∈ (T.delete threadId fun r => decide (r.id ∉ T.lastIds del threadId n)).2.thread threadId := by
  obtain ⟨rest, hrest⟩ := List.head?_eq_some_iff.1 hfirst
  obtain ⟨k, rfl⟩ : ∃ k, n = k + 1 := ⟨n - 1, by omega⟩
  rw [mem_keepLast, hrest, List.take_succ_cons]
  exact List.mem_cons_self

/-- What is the latest row of what is left could have been the latest one before. -/
theorem exists_latest_eq (hn : 1 ≤ n) (del order : Order) : ∃ order', T.latest order' threadId =
    (T.delete threadId fun r => decide (r.id ∉ T.lastIds del threadId n)).2.latest order threadId := by
  cases hfirst : T.latest del threadId with
  | none =>
    rw [latest_eq_none_iff] at hfirst
    have hnone : (T.delete threadId fun r => decide (r.id ∉ T.lastIds del threadId n)).2.thread threadId = [] := by
      rw [thread_keepLast, hfirst]
      rfl
    exact ⟨order, (latest_eq_none_iff.2 hfirst).trans (latest_eq_none_iff.2 hnone).symm⟩
  | some first =>
    have hkept := head_keepLast hn hfirst
    cases hlast : (T.delete threadId fun r => decide (r.id ∉ T.lastIds del threadId n)).2.latest order threadId with
    | none =>
      rw [latest_eq_none_iff] at hlast
      rw [hlast] at hkept
      cases hkept
    | some r =>
      have hr : r ∈ T.thread threadId := (del.perm _).mem_iff.1
        (List.mem_of_mem_take (mem_keepLast.1 (mem_of_latest hlast)))
      refine exists_latest hr fun r' hr' => ?_
      exact le_trans (Sql.Arrangement.le_of_head del hfirst r' hr') (Sql.Arrangement.le_of_head order hlast first hkept)

/-- A claim changes the latest row if it is `Yielded`. -/
theorem claim_fst_eq {order : Order} {last : Row} (hlast : T.latest order threadId = some last) :
    (T.claim order threadId i).1 = if last.status = "Yielded" then 1 else 0 := by
  by_cases hstatus : last.status = "Yielded"
  · rw [if_pos hstatus]
    exact claim_fst hlast hstatus
  · rw [if_neg hstatus]
    have hmem : last ∈ T.rows := (mem_thread.1 (mem_of_latest hlast)).1
    unfold claim
    rw [hlast]
    refine List.countP_eq_zero.2 fun r hr hboth => ?_
    obtain ⟨hid, hyielded⟩ := of_decide_eq_true hboth
    exact hstatus (eq_of_id_eq hr hmem hid ▸ hyielded)

section

variable [JsonText YieldRequest]

omit [JsonText YieldRequest] in
theorem updateClaim_congr {T' : Table} {order order' : Order} {last : Row} (h : T.latest order threadId = some last)
    (h' : T'.latest order' threadId = some last) :
    (T'.updateClaim order' threadId i).1 = (T.updateClaim order threadId i).1 := by
  unfold updateClaim
  dsimp only
  rw [claim_fst_eq h, claim_fst_eq h']
  split
  · rfl
  · rfl

/-- What is made of the latest row depends on the table only through the final update. -/
theorem claimLatest_congr {T' : Table} {order order' : Order}
    (h : (T'.updateClaim order' threadId i).1 = (T.updateClaim order threadId i).1) (last : Row) :
    (T'.claimLatest order' threadId i last).1 = (T.claimLatest order threadId i last).1 := by
  unfold claimLatest
  split
  · rfl
  split
  · split
    · rfl
    · rfl
  cases last.yieldRequest with
  | none => rfl
  | some text =>
    dsimp only
    cases (JsonText.fromText text : Except String YieldRequest) with
    | error e => rfl
    | ok request =>
      dsimp only
      split
      · rfl
      · exact h

theorem claimLatest_ne_alreadyCompleted (order : Order) (last : Row) :
    (T.claimLatest order threadId i last).1 ≠ .ok .alreadyCompleted := by
  intro h
  unfold claimLatest at h
  split at h
  · cases h
  split at h
  · split at h
    · cases h
    · cases h
  cases hrequest : last.yieldRequest with
  | none =>
    rw [hrequest] at h
    cases h
  | some text =>
    rw [hrequest] at h
    dsimp only at h
    cases hread : (JsonText.fromText text : Except String YieldRequest) with
    | error e =>
      rw [hread] at h
      cases h
    | ok request =>
      rw [hread] at h
      dsimp only at h
      split at h
      · cases h
      · unfold updateClaim at h
        dsimp only at h
        split at h
        · cases h
        · cases h

omit [JsonText YieldRequest] in
theorem any_resolved {rows : List Row} :
    (rows.any fun r => r.resolvedInterrupt == some i) = true ↔ ∃ r ∈ rows, r.resolvedInterrupt = some i := by
  simp

theorem claimInterrupt_alreadyCompleted_iff {select update : Order} :
    (T.claimInterrupt select update threadId i).1 = .ok .alreadyCompleted ↔
      ∃ r ∈ T.thread threadId, r.resolvedInterrupt = some i := by
  rw [← any_resolved]
  unfold claimInterrupt
  constructor
  · intro h
    split at h
    · assumption
    · split at h
      · cases h
      · exact absurd h (claimLatest_ne_alreadyCompleted _ _)
  · intro h
    rw [if_pos h]

/-- A claim looks at the latest row its queries find, and at whether some row resolves the interrupt. -/
theorem claimInterrupt_congr {T' : Table} {select update select' update' : Order}
    (hselect : T.latest select threadId = T'.latest select' threadId)
    (hupdate : T.latest update threadId = T'.latest update' threadId)
    (hresolved : (∃ r ∈ T'.thread threadId, r.resolvedInterrupt = some i) ↔
      ∃ r ∈ T.thread threadId, r.resolvedInterrupt = some i) :
    (T'.claimInterrupt select' update' threadId i).1 = (T.claimInterrupt select update threadId i).1 := by
  have hany : ((T'.thread threadId).any fun r => r.resolvedInterrupt == some i) =
      (T.thread threadId).any fun r => r.resolvedInterrupt == some i := by
    rw [Bool.eq_iff_iff, any_resolved, any_resolved]
    exact hresolved
  unfold claimInterrupt
  rw [hany, hselect]
  split
  · rfl
  cases hlast : T'.latest select' threadId with
  | none => rfl
  | some last =>
    refine claimLatest_congr ?_ last
    cases hfound : T'.latest update' threadId with
    | none =>
      rw [latest_eq_none_iff] at hfound
      have hmem := mem_of_latest hlast
      rw [hfound] at hmem
      cases hmem
    | some found => exact updateClaim_congr (hupdate.trans hfound) hfound

end

section

variable [JsonText S] [JsonText DAG] [JsonText YieldRequest] [Chrono]

theorem answer_alreadyCompleted_iff {c : StoreCall S} (hc : c.op = .claimInterrupt threadId i) :
    (T.answer c).1 = .ok (.claimed .alreadyCompleted) ↔ ∃ r ∈ T.thread threadId, r.resolvedInterrupt = some i := by
  unfold answer
  rw [hc]
  exact map_claimed_eq.trans claimInterrupt_alreadyCompleted_iff

theorem pruningInvisible_iff (hn : 1 ≤ n) :
    PruningInvisible (Table.answer (S := S)) T threadId n ↔
      2 ^ 63 ≤ n ∨ ∀ order : Order, KeepsResolutions Row.resolvedInterrupt
        ((order.desc (T.thread threadId)).take n) ((order.desc (T.thread threadId)).drop n) := by
  by_cases hlimit : 2 ^ 63 ≤ n
  · -- the deletion is refused
    refine iff_of_true (fun prune hprune c hc => ⟨c.select, c.update, ?_⟩) (Or.inl hlimit)
    have hsame : (T.answer prune).2 = T := by
      unfold answer
      rw [hprune]
      unfold deleteCheckpoints
      dsimp only
      rw [if_pos hlimit]
    rw [hsame]
  rw [or_iff_right hlimit]
  have hsplit (order : Order) (r : Row) : r ∈ T.thread threadId ↔
      r ∈ (order.desc (T.thread threadId)).take n ∨ r ∈ (order.desc (T.thread threadId)).drop n := by
    rw [← List.mem_append, List.take_append_drop]
    exact ((order.perm _).mem_iff).symm
  have htable (prune : StoreCall S) (hprune : prune.op = .deleteCheckpoints threadId (.keepLast n)) :
      (T.answer prune).2 = (T.delete threadId fun r => decide (r.id ∉ T.lastIds prune.select threadId n)).2 := by
    unfold answer
    rw [hprune]
    dsimp only
    rw [deleteCheckpoints_keepLast (not_le.1 hlimit)]
  constructor
  · intro h order
    -- claims tell what is resolved
    refine (keepsResolutions_iff (hsplit order)).2 fun i => ⟨fun hresolved => ?_, fun ⟨r, hr, hi⟩ => ?_⟩
    · obtain ⟨r, hr, hi⟩ := h.resolved (fun _ _ => answer_alreadyCompleted_iff)
        { pruneCall threadId n with select := order } rfl hresolved
      rw [htable _ rfl] at hr
      exact ⟨r, mem_keepLast.1 hr, hi⟩
    · exact ⟨r, (hsplit order r).2 (Or.inl hr), hi⟩
  · intro h prune hprune c hc
    rw [htable prune hprune]
    -- the latest checkpoint is kept, whichever of several it is
    have hlatest (order : Order) : ∃ order', T.latest order' threadId =
        (T.delete threadId fun r => decide (r.id ∉ T.lastIds prune.select threadId n)).2.latest order threadId :=
      exists_latest_eq hn prune.select order
    have hresolved (i : String) := (keepsResolutions_iff (hsplit prune.select)).1 (h prune.select) i
    have hmem (r : Row) :
        r ∈ (T.delete threadId fun r => decide (r.id ∉ T.lastIds prune.select threadId n)).2.thread threadId ↔
          r ∈ (prune.select.desc (T.thread threadId)).take n := mem_keepLast
    generalize (T.delete threadId fun r => decide (r.id ∉ T.lastIds prune.select threadId n)).2 = T' at hlatest hmem
    obtain ⟨select, hselect⟩ := hlatest c.select
    obtain ⟨update, hupdate⟩ := hlatest c.update
    refine ⟨select, update, ?_⟩
    unfold answer
    rcases hc with hload | ⟨i, hclaim⟩
    · rw [hload]
      dsimp only
      unfold loadState
      rw [hselect]
    · rw [hclaim]
      refine congrArg (Except.map Reply.claimed) (claimInterrupt_congr hselect hupdate ?_)
      simp only [hmem]
      exact (hresolved i).symm

end

end Sqlite.Table

/-- `KeepLast(n)` is invisible to loads and claims exactly if no deleted checkpoint is the only one that resolves an
interrupt. -/
theorem pruning_invisible_iff [State S] [JsonText S] [JsonText DAG] [JsonText YieldRequest] [Chrono]
    (store : MemoryStore) (T : Table) (threadId : String) {n : Nat} (hn : 1 ≤ n) :
    (PruningInvisible (MemoryStore.answer (S := S)) store threadId n ↔
      KeepsResolutions MemoryCheckpoint.resolvedInterrupt
        ((store.rows threadId).drop ((store.rows threadId).length - n))
        ((store.rows threadId).take ((store.rows threadId).length - n))) ∧
    (PruningInvisible (Table.answer (S := S)) T threadId n ↔
      2 ^ 63 ≤ n ∨ ∀ order : Sqlite.Order, KeepsResolutions Row.resolvedInterrupt
        ((order.desc (T.thread threadId)).take n) ((order.desc (T.thread threadId)).drop n)) :=
  ⟨MemoryStore.pruningInvisible_iff hn, Sqlite.Table.pruningInvisible_iff hn⟩

/-! ### An answered question -/

section Examples

open Sqlite (utcTimes noDags askRequests)

attribute [local instance] utcTimes noDags askRequests

/-- `A` asks `q`, which is claimed; `A` completes with the answer, and `B` asks `r`. -/
def answeredCalls : List (StoreCall Bool) :=
  [callAt (.saveState (yielded (.simple "q"))) "c0" 0,
    callAt (.claimInterrupt "t" "q") "" 1,
    callAt (.saveState { yielded (.simple "q") with
      nextNode := "B", status := .complete, yieldRequest := none, resolvedInterrupt := some "q" }) "c1" 2,
    callAt (.saveState { yielded (.simple "r") with nextNode := "B" }) "c2" 3]

def answeredStore : MemoryStore := answeredCalls.foldl (fun store c => (store.answer c).2) fun _ => none

def answeredTable : Table := answeredCalls.foldl (fun T c => (T.answer c).2) .empty

theorem pruning_invisible_false : ¬ PruningInvisible (MemoryStore.answer (S := Bool)) answeredStore "t" 1 := by
  intro h
  have hresolved : (answeredStore.claimInterrupt "t" "q").1 = .ok .alreadyCompleted := by decide +kernel
  have hkept := h.resolved (fun _ _ => MemoryStore.answer_alreadyCompleted_iff) (pruneCall "t" 1) rfl
    (MemoryStore.claimInterrupt_alreadyCompleted_iff.1 hresolved)
  exact absurd (MemoryStore.claimInterrupt_alreadyCompleted_iff.2 hkept) (by decide +kernel)

theorem pruning_invisible_answered :
    (PruningInvisible (MemoryStore.answer (S := Bool)) answeredStore "t" 1 ↔
      KeepsResolutions MemoryCheckpoint.resolvedInterrupt
        ((answeredStore.rows "t").drop ((answeredStore.rows "t").length - 1))
        ((answeredStore.rows "t").take ((answeredStore.rows "t").length - 1))) ∧
    (PruningInvisible (Table.answer (S := Bool)) answeredTable "t" 1 ↔
      2 ^ 63 ≤ 1 ∨ ∀ order : Sqlite.Order, KeepsResolutions Row.resolvedInterrupt
        ((order.desc (answeredTable.thread "t")).take 1) ((order.desc (answeredTable.thread "t")).drop 1)) :=
  pruning_invisible_iff answeredStore answeredTable "t" (by decide)

end Examples

end Takeln
