import Takeln.Sequential.Rounds

/-!
# Saves and the store

The in-memory store keeps what was saved on a thread, in order: whatever a claim does not change can be read off the
accepted saves (`rows_map_of_steps`).
-/

namespace Takeln

open Effect

variable {S A : Type}

/-- The accepted saves of a thread. -/
def savesOf (threadId : String) (tr : List (Event (ops S))) : List (SaveArgs S) :=
  (writes tr).filter fun args => decide (args.threadId = threadId)

@[simp] theorem savesOf_append (threadId : String) (tr tr' : List (Event (ops S))) :
    savesOf threadId (tr ++ tr') = savesOf threadId tr ++ savesOf threadId tr' := by
  simp [savesOf]

variable [State S] {env : Env S} {w w' : World}

/-- What an operation does to a thread: nothing, or it saves a checkpoint, or claims the latest one. -/
inductive ThreadStep (env : Env S) (t : String) (w w' : World) : Event (ops S) → Prop
  | idle {e : Event (ops S)} (hrows : w'.rows t = w.rows t) (hsaves : ∀ args, written e = some args → args.threadId ≠ t)
      (hclaims : ∀ i, e ≠ ⟨.claimInterrupt t i, .ok .claimed⟩) : ThreadStep env t w w' e
  | saved (args : SaveArgs S) (val : Value) (ht : args.threadId = t) (hval : State.toValue args.state = .ok val)
      (hrows : w'.rows t = w.rows t ++ [.ofSave (env.newId w.saves) (env.now w.saves) val args]) :
      ThreadStep env t w w' ⟨.saveStateBound args, .ok (.created (env.newId w.saves))⟩
  | claimed (i : String) (hopen : Open (w.rows t) i) (hrows : w'.rows t = claimLast (w.rows t) i) :
      ThreadStep env t w w' ⟨.claimInterrupt t i, .ok .claimed⟩

theorem threadStep_of_claim {t' i : String} {r : Except TakelnError ClaimResult}
    (h : memory env w (.claimInterrupt t' i : Op S) = some (r, w')) (t : String) :
    ThreadStep env t w w' (⟨.claimInterrupt t' i, r⟩ : Event (ops S)) := by
  have hpair : ((w.store.claimInterrupt t' i).1, ({ w with store := (w.store.claimInterrupt t' i).2 } : World)) =
      (r, w') := Option.some.inj h
  obtain ⟨hr, rfl⟩ := Prod.mk.inj hpair
  have hstore := MemoryStore.claimInterrupt_store w.store t' i
  rw [hr] at hstore
  by_cases hclaimed : r = .ok .claimed
  · subst hclaimed
    rw [if_pos rfl] at hstore
    by_cases ht : t' = t
    · subst ht
      refine .claimed i (MemoryStore.claimInterrupt_claimed_iff.1 hr) ?_
      simp [World.rows, hstore]
    · refine .idle ?_ (fun _ h => by cases h) fun i' h => ?_
      · simp [World.rows, hstore, MemoryStore.rows_update, Ne.symm ht]
      · cases h
        exact ht rfl
  · rw [if_neg hclaimed] at hstore
    refine .idle (by simp [World.rows, hstore]) (fun _ h => by cases h) fun i' h => ?_
    cases h
    exact hclaimed rfl

theorem threadStep_of_memory {o : Op S} {r : o.Answer} (h : memory env w o = some (r, w')) (t : String) :
    ThreadStep env t w w' ⟨o, r⟩ := by
  cases o with
  | saveStateBound args =>
    simp only [memory, MemoryStore.saveState, Option.some.injEq] at h
    cases hval : State.toValue args.state with
    | error e =>
      rw [hval] at h
      cases h
      exact .idle rfl (fun _ h => by cases h) fun _ h => by cases h
    | ok val =>
      rw [hval] at h
      cases h
      by_cases ht : args.threadId = t
      · subst ht
        exact .saved args val rfl hval (World.rows_saved w env args val)
      · refine .idle ?_ (fun args' h => ?_) fun _ h => by cases h
        · simp [World.rows, MemoryStore.rows_update, Ne.symm ht]
        · cases h
          exact ht
  | claimInterrupt t' i =>
    exact threadStep_of_claim h t
  | record max r =>
    obtain ⟨records, _, hw⟩ := Option.map_eq_some_iff.1 h
    cases hw
    exact .idle rfl (fun _ h => by cases h) fun _ h => by cases h
  | _ =>
    cases h
    exact .idle rfl (fun _ h => by cases h) fun _ h => by cases h

/-! ### The checkpoints of a thread -/

omit [State S] in
theorem savesOf_eq_nil {t : String} {e : Event (ops S)} (h : ∀ args, written e = some args → args.threadId ≠ t) :
    savesOf t [e] = [] := by
  cases hw : written e with
  | none => simp [savesOf, writes, hw]
  | some args => simp [savesOf, writes, hw, h args hw]

omit [State S] in
theorem savesOf_eq_singleton {t id : String} {args : SaveArgs S} (ht : args.threadId = t) :
    savesOf t [(⟨.saveStateBound args, .ok (.created id)⟩ : Event (ops S))] = [args] := by
  simp [savesOf, writes, written, checkpointId, ht]

section

variable {f : MemoryCheckpoint → A} {f' : SaveArgs S → A}

/-- An operation adds to a thread what it saves there, as far as claims change nothing. -/
theorem rows_map_of_memory (hsave : ∀ id time val args, f (.ofSave id time val args) = f' args)
    (hclaim : ∀ cp i, cp.status = .yielded → f (cp.claimedFor i) = f cp) {o : Op S} {r : o.Answer}
    (h : memory env w o = some (r, w')) (t : String) :
    (w'.rows t).map f = (w.rows t).map f ++ (savesOf t [(⟨o, r⟩ : Event (ops S))]).map f' := by
  have hstep := threadStep_of_memory h t
  generalize (⟨o, r⟩ : Event (ops S)) = e at hstep
  cases hstep with
  | idle hrows hsaves => rw [hrows, savesOf_eq_nil hsaves, List.map_nil, List.append_nil]
  | saved args val ht _ hrows =>
    rw [hrows, savesOf_eq_singleton ht, List.map_append, List.map_singleton, List.map_singleton, hsave]
  | claimed i hopen hrows =>
    obtain ⟨last, hlast, hstatus, _⟩ := hopen.2
    have hsplit : w.rows t = (w.rows t).dropLast ++ [last] := (List.dropLast_append_getLast? last hlast).symm
    have hkeep : (claimLast (w.rows t) i).map f = (w.rows t).map f := by
      rw [hsplit]
      simp [claimLast, hclaim last i hstatus]
    have hsaves : savesOf t [(⟨.claimInterrupt t i, .ok .claimed⟩ : Event (ops S))] = [] := rfl
    rw [hrows, hkeep, hsaves, List.map_nil, List.append_nil]

theorem rows_map_of_steps (hsave : ∀ id time val args, f (.ofSave id time val args) = f' args)
    (hclaim : ∀ cp i, cp.status = .yielded → f (cp.claimedFor i) = f cp) {tr : List (Event (ops S))}
    (hs : Steps (memory env) w tr w') (t : String) :
    (w'.rows t).map f = (w.rows t).map f ++ (savesOf t tr).map f' := by
  induction hs with
  | nil w => exact (List.append_nil _).symm
  | @cons w w₁ w' o r tr hr _ ih =>
    have hcons : savesOf t (⟨o, r⟩ :: tr) = savesOf t [(⟨o, r⟩ : Event (ops S))] ++ savesOf t tr := by
      rw [← savesOf_append]
      rfl
    rw [ih, rows_map_of_memory hsave hclaim hr t, hcons, List.map_append, List.append_assoc]

end

/-- Each save adds a checkpoint. -/
theorem length_rows_of_steps {tr : List (Event (ops S))} (hs : Steps (memory env) w tr w') (t : String) :
    (w'.rows t).length = (w.rows t).length + (savesOf t tr).length := by
  have hrows : (w'.rows t).map (fun _ => ()) = (w.rows t).map (fun _ => ()) ++ (savesOf t tr).map fun _ => () :=
    rows_map_of_steps (fun _ _ _ _ => rfl) (fun _ _ _ => rfl) hs t
  simpa using congrArg List.length hrows

/-! ### The status of a thread -/

/-- The status of the latest checkpoint of a thread. -/
def World.status (w : World) (threadId : String) : Option CheckpointStatus :=
  (w.rows threadId).getLast?.map MemoryCheckpoint.status

/-- The status that an operation gives to the latest checkpoint of a thread. -/
def statusGiven (threadId : String) (e : Event (ops S)) : Option CheckpointStatus :=
  match e with
  | ⟨.saveStateBound _, _⟩ => ((written e).filter fun args => args.threadId == threadId).map SaveArgs.status
  | ⟨.claimInterrupt t _, .ok .claimed⟩ => if t = threadId then some .running else none
  | _ => none

theorem status_of_memory {o : Op S} {r : o.Answer} (h : memory env w o = some (r, w')) (t : String) :
    w'.status t = (statusGiven t (⟨o, r⟩ : Event (ops S))).or (w.status t) := by
  have hstep := threadStep_of_memory h t
  generalize (⟨o, r⟩ : Event (ops S)) = e at hstep
  cases hstep with
  | idle hrows hsaves hclaims =>
    have hmark : statusGiven t e = none := by
      unfold statusGiven
      split
      · rename_i args ans
        cases hw : written (S := S) ⟨.saveStateBound args, ans⟩ with
        | none => rfl
        | some args' => simp [Option.filter, hsaves args' hw]
      · rename_i t' i
        by_cases ht : t' = t
        · subst ht
          exact absurd rfl (hclaims i)
        · exact if_neg ht
      · rfl
    rw [hmark, Option.none_or, World.status, hrows]
    rfl
  | saved args val ht _ hrows =>
    unfold World.status
    rw [hrows]
    simp [statusGiven, written, checkpointId, MemoryCheckpoint.ofSave, Option.filter, ht]
  | claimed i hopen hrows =>
    obtain ⟨last, hlast, _⟩ := hopen.2
    have hlast' : (w.rows t).getLast? = some last := hlast
    unfold World.status
    rw [hrows]
    simp [claimLast, hlast', statusGiven, MemoryCheckpoint.claimedFor]

end Takeln
