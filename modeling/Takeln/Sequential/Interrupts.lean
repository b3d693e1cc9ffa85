import Takeln.Model.Memory

/-!
# Open interrupts

An interrupt is open on a thread if no checkpoint of the thread resolves it and the latest one is `Yielded` with a
request for it.  `claim_interrupt` answers `Claimed` exactly when the interrupt is open, and then only the latest
checkpoint changes.  A save appends one checkpoint.
-/

namespace Takeln

variable [Money]

/-- No checkpoint resolves `interruptId`, and the latest one asks for it. -/
def Open (rows : List MemoryCheckpoint) (interruptId : String) : Prop :=
  (∀ cp ∈ rows, cp.resolvedInterrupt ≠ some interruptId) ∧
    ∃ last ∈ rows.getLast?, last.status = .yielded ∧
      ∃ request ∈ last.yieldRequest, request.interruptId = interruptId

/-- Some checkpoint resolves `interruptId`. -/
def Resolved (rows : List MemoryCheckpoint) (interruptId : String) : Prop :=
  ∃ cp ∈ rows, cp.resolvedInterrupt = some interruptId

/-- A checkpoint claimed for `interruptId`. -/
def MemoryCheckpoint.claimedFor (cp : MemoryCheckpoint) (interruptId : String) : MemoryCheckpoint :=
  { cp with status := .running, claimedInterrupt := some interruptId }

/-- The checkpoints with the latest one claimed for `interruptId`. -/
def claimLast (rows : List MemoryCheckpoint) (interruptId : String) : List MemoryCheckpoint :=
  rows.dropLast ++ (rows.getLast?.map (·.claimedFor interruptId)).toList

omit [Money] in
theorem open_iff_of_getLast? {rows : List MemoryCheckpoint} {last : MemoryCheckpoint} {i : String}
    (h : rows.getLast? = some last) :
    Open rows i ↔ ¬ Resolved rows i ∧ last.status = .yielded ∧
      ∃ request, last.yieldRequest = some request ∧ request.interruptId = i := by
  simp [Open, Resolved, h]

omit [Money] in
theorem not_open_of_resolved {rows : List MemoryCheckpoint} {i : String} (h : Resolved rows i) : ¬ Open rows i :=
  fun ho => h.elim fun cp hcp => ho.1 cp hcp.1 hcp.2

omit [Money] in
theorem resolved_append {rows new : List MemoryCheckpoint} {i : String} :
    Resolved (rows ++ new) i ↔ Resolved rows i ∨ Resolved new i := by
  simp [Resolved, or_and_right, exists_or]

omit [Money] in
/-- A claim resolves nothing. -/
@[simp] theorem resolved_claimLast {rows : List MemoryCheckpoint} {i j : String} :
    Resolved (claimLast rows i) j ↔ Resolved rows j := by
  rcases List.eq_nil_or_concat rows with rfl | ⟨ys, last, rfl⟩
  · simp [claimLast]
  · simp [claimLast, Resolved, MemoryCheckpoint.claimedFor]

omit [Money] in
theorem any_resolved {rows : List MemoryCheckpoint} {i : String} :
    rows.any (·.resolvedInterrupt == some i) = true ↔ Resolved rows i := by
  simp [Resolved]

/-- A checkpoint is read back field by field. -/
theorem MemoryCheckpoint.load_eq_ok_iff {S : Type} [State S] {cp : MemoryCheckpoint} {t : String} {loaded : Loaded S} :
    cp.load t = .ok loaded ↔
      State.fromValue cp.state = .ok loaded.state ∧ loaded.info = cp.toMeta t ∧ loaded.dag = cp.dag := by
  unfold MemoryCheckpoint.load
  constructor
  · intro h
    split at h
    · rename_i state hstate
      cases h
      exact ⟨hstate, rfl, rfl⟩
    · cases h
  · rintro ⟨hstate, hinfo, hdag⟩
    rw [hstate, ← hinfo, ← hdag]

namespace MemoryStore

variable {store store' : MemoryStore} {t i : String}

omit [Money] in
theorem rows_update (store : MemoryStore) (t t' : String) (l : List MemoryCheckpoint) :
    rows (Function.update store t (some l)) t' = if t' = t then l else store.rows t' := by
  unfold rows
  by_cases h : t' = t
  · subst h; simp
  · simp [h]

omit [Money] in
@[simp] theorem rows_update_self (store : MemoryStore) (t : String) (l : List MemoryCheckpoint) :
    rows (Function.update store t (some l)) t = l := by
  simp [rows_update]

/-- What is loaded is the latest checkpoint, read back. -/
theorem loadState_of_last {S : Type} [State S] {last : MemoryCheckpoint} (h : (store.rows t).getLast? = some last) :
    store.loadState (S := S) t = (last.load t).map some := by
  unfold loadState
  rw [h]

theorem loadState_eq_ok {S : Type} [State S] {loaded : Loaded S} (h : store.loadState t = .ok (some loaded)) :
    ∃ last, (store.rows t).getLast? = some last ∧ last.load t = .ok loaded := by
  cases hlast : (store.rows t).getLast? with
  | none =>
    unfold loadState at h
    rw [hlast] at h
    cases h
  | some last =>
    rw [loadState_of_last hlast] at h
    refine ⟨last, rfl, ?_⟩
    cases hload : last.load (S := S) t with
    | error e =>
      rw [hload] at h
      cases h
    | ok loaded' =>
      rw [hload] at h
      cases h
      rfl

theorem claimInterrupt_of_resolved (h : Resolved (store.rows t) i) :
    store.claimInterrupt t i = (.ok .alreadyCompleted, store) := by
  unfold claimInterrupt
  cases hs : store t with
  | none => simp [rows, hs, Resolved] at h
  | some l =>
    have hl : store.rows t = l := by simp [rows, hs]
    rw [hl, ← any_resolved] at h
    simp [h]

theorem claimInterrupt_alreadyCompleted_iff :
    (store.claimInterrupt t i).1 = .ok .alreadyCompleted ↔ Resolved (store.rows t) i := by
  refine ⟨fun h => ?_, fun h => by rw [claimInterrupt_of_resolved h]⟩
  unfold claimInterrupt at h
  split at h
  · cases h
  · rename_i l hs
    have hl : store.rows t = l := by simp [rows, hs]
    rw [hl]
    split at h
    · rename_i hres
      exact any_resolved.1 hres
    · split at h
      · cases h
      · split at h
        · cases h
        · split at h
          · split at h
            · cases h
            · split at h <;> cases h
          · cases h
          · cases h

/-- A claim succeeds exactly on an open interrupt. -/
theorem claimInterrupt_claimed_iff :
    (store.claimInterrupt t i).1 = .ok .claimed ↔ Open (store.rows t) i := by
  unfold claimInterrupt
  cases hs : store t with
  | none => simp [rows, hs, Open]
  | some l =>
    have hl : store.rows t = l := by simp [rows, hs]
    rw [hl]
    dsimp only
    split
    · rename_i hres
      have := not_open_of_resolved (any_resolved.1 hres)
      simpa using this
    · rename_i hres
      rw [any_resolved] at hres
      cases hlast : l.getLast? with
      | none => simp [Open, hlast]
      | some last =>
        rw [open_iff_of_getLast? hlast]
        dsimp only
        split
        · rename_i hrun
          simp [hrun.1]
        · cases hst : last.status with
          | yielded =>
            cases hreq : last.yieldRequest with
            | none => simp
            | some request => by_cases hid : request.interruptId = i <;> simp [hid, hres]
          | running => simp
          | complete => simp
          | failed => simp
          | interrupted => simp

/-- A successful claim marks the latest checkpoint; every other answer leaves the store alone. -/
theorem claimInterrupt_store (store : MemoryStore) (t i : String) :
    (store.claimInterrupt t i).2 =
      if (store.claimInterrupt t i).1 = .ok .claimed then
        Function.update store t (some (claimLast (store.rows t) i))
      else store := by
  unfold claimInterrupt
  cases hs : store t with
  | none => simp
  | some l =>
    have hl : store.rows t = l := by simp [rows, hs]
    rw [hl]
    dsimp only
    split
    · simp
    · cases hlast : l.getLast? with
      | none => simp
      | some last =>
        dsimp only
        split
        · simp
        · cases hst : last.status with
          | yielded =>
            cases hreq : last.yieldRequest with
            | none => simp
            | some request =>
              by_cases hid : request.interruptId = i <;>
                simp [hid, claimLast, hlast, MemoryCheckpoint.claimedFor, hreq]
          | running => simp
          | complete => simp
          | failed => simp
          | interrupted => simp

end MemoryStore

/-! ### Operations on a thread -/

/-- The world after the interrupt of a thread was claimed. -/
def World.claimed (w : World) (threadId interruptId : String) : World :=
  { w with store := Function.update w.store threadId (some (claimLast (w.rows threadId) interruptId)) }

@[simp] theorem World.rows_claimed (w : World) (t i : String) : (w.claimed t i).rows t = claimLast (w.rows t) i := by
  simp [World.rows, World.claimed]

theorem World.rows_congr {w w' : World} (h : w'.store = w.store) (t : String) : w'.rows t = w.rows t := by
  unfold World.rows
  rw [h]

section Operations

variable {S : Type} {env : Env S} {w w' : World}

/-- The world after an accepted save of `args`, whose state serialises to `val`. -/
def World.saved (w : World) (env : Env S) (args : SaveArgs S) (val : Value) : World :=
  { w with
    store := Function.update w.store args.threadId
      (some (w.rows args.threadId ++ [.ofSave (env.newId w.saves) (env.now w.saves) val args]))
    saves := w.saves + 1 }

@[simp] theorem World.rows_saved (w : World) (env : Env S) (args : SaveArgs S) (val : Value) :
    (w.saved env args val).rows args.threadId =
      w.rows args.threadId ++ [.ofSave (env.newId w.saves) (env.now w.saves) val args] := by
  simp [World.rows, World.saved]

/-- An operation leaves a thread alone, claims its latest checkpoint, or appends one to it. -/
theorem memory_rows [State S] {o : Op S} {r : o.Answer} (h : memory env w o = some (r, w')) (t : String) :
    w'.rows t = w.rows t ∨ (∃ i, w'.rows t = claimLast (w.rows t) i) ∨
      ∃ args val id time, o = .saveStateBound args ∧ State.toValue args.state = .ok val ∧
        w'.rows t = w.rows t ++ [.ofSave id time val args] := by
  cases o with
  | saveStateBound args =>
    simp only [memory, MemoryStore.saveState, Option.some.injEq] at h
    obtain ⟨_, rfl⟩ := h
    cases hval : State.toValue args.state with
    | error e => exact Or.inl rfl
    | ok val =>
      by_cases ht : t = args.threadId
      · subst ht
        exact Or.inr (Or.inr ⟨args, val, _, _, rfl, hval, World.rows_saved w env args val⟩)
      · refine Or.inl ?_
        simp [World.rows, MemoryStore.rows_update, ht]
  | claimInterrupt t' i =>
    simp only [memory, Option.some.injEq] at h
    obtain ⟨_, rfl⟩ := h
    have hstore := MemoryStore.claimInterrupt_store w.store t' i
    split at hstore
    · by_cases ht : t = t'
      · subst ht
        refine Or.inr (Or.inl ⟨i, ?_⟩)
        simp [World.rows, hstore]
      · refine Or.inl ?_
        simp [World.rows, hstore, MemoryStore.rows_update, ht]
    · exact Or.inl (by simp [World.rows, hstore])
  | record max r =>
    obtain ⟨records, _, hw⟩ := Option.map_eq_some_iff.1 h
    cases hw
    exact Or.inl rfl
  | _ => cases h; exact Or.inl rfl

end Operations

end Takeln
