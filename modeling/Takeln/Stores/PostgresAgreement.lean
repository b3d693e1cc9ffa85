import Takeln.Stores.Agreement
import Takeln.Stores.PostgresMirrors

/-!
# The in-memory and the PostgreSQL checkpointer agree

Fed the same ids and the same increasing clock readings, `PostgresCheckpointer` answers any sequence of calls, one after
the other, as `InMemoryCheckpointer` does, in whatever order the database puts rows of one time (`answers_as_memory`).
The engines do on it what they do in memory (`operates_as_memory`), as long as what is saved reads back from JSON.
-/

namespace Takeln.Postgres

open Effect Effect.Prog
open Sqlite (Chrono)

section

variable {S : Type} [State S] [Serde DAG] [Serde YieldRequest] {store : MemoryStore} {T : Table}
  {order : Order} {now : Int}

/-! ### The history -/

omit [State S] [Serde DAG] [Serde YieldRequest] in
theorem sameReply_of_sameEnd {α : Type} {x x' : Except TakelnError α} (h : SameEnd SameKind x x') (f : α → Reply S) :
    SameReply (x.map f) (x'.map f) := by
  cases h with
  | ok a => exact rfl
  | error he => exact he

omit [State S] [Serde DAG] [Serde YieldRequest] in
theorem sameReply_refl (x : Answer S) : SameReply x x := by
  cases x with
  | ok r => exact rfl
  | error e => exact rfl

namespace Mirrors

/-- The row of a checkpoint is found under its id. -/
theorem loadVersion (h : Mirrors store T) (threadId checkpointId : String) :
    evaluate (history order) (Postgres.loadVersion (S := S) threadId checkpointId) T =
      (store.loadVersion threadId checkpointId, T) := by
  have hfound : Option.Rel (Stored threadId) ((store.rows threadId).find? fun cp => cp.checkpointId == checkpointId)
      ((T.thread threadId).find? fun r => r.id == checkpointId) := by
    refine forall₂_find? (h.rows threadId) fun cp row hrow => ?_
    rw [hrow.id]
  unfold Postgres.loadVersion MemoryStore.loadVersion executeHistory
  rw [bind_eq, perform_bind, evaluate_perform]
  change evaluate _ (Prog.bind (ofExcept (.ok ((T.thread threadId).find? fun r => r.id == checkpointId))) _) T = _
  rw [ofExcept_ok, ret_bind]
  generalize ((store.rows threadId).find? fun cp => cp.checkpointId == checkpointId) = found at hfound
  generalize ((T.thread threadId).find? fun r => r.id == checkpointId) = found' at hfound
  cases hfound with
  | none => rfl
  | some hrow =>
    dsimp only
    rw [readRow_eq hrow]
    cases MemoryCheckpoint.load (S := S) threadId _ <;> rfl

theorem mapM_rowMeta {threadId : String} {list : List MemoryCheckpoint} {rows : List Row}
    (h : List.Forall₂ (Stored threadId) list rows) :
    rows.mapM (rowMeta threadId) = .ok (list.map fun cp => cp.toMeta threadId) := by
  induction h with
  | nil => rfl
  | cons hrow _ ih =>
    rw [List.mapM_cons, rowMeta_eq hrow, ih]
    rfl

theorem listCheckpoints (h : Mirrors store T) (threadId : String) :
    evaluate (history order) (Postgres.listCheckpoints threadId) T = (store.listCheckpoints threadId, T) := by
  unfold Postgres.listCheckpoints MemoryStore.listCheckpoints executeHistory
  rw [bind_eq, perform_bind, evaluate_perform]
  change evaluate _ (Prog.bind (ofExcept (.ok (order.asc (T.thread threadId)))) _) T = _
  rw [ofExcept_ok, ret_bind, evaluate_ofExcept, order.asc_eq (h.inOrder.thread threadId),
    mapM_rowMeta (h.rows threadId)]

/-- What is shown for a deletion: the rows that stay are those of the checkpoints that stay. -/
theorem delete (h : Mirrors store T) {threadId : String} {p : Row → Bool} {kept : List MemoryCheckpoint}
    (hrows : List.Forall₂ (Stored threadId) kept ((T.delete threadId p).2.thread threadId)) :
    (T.delete threadId p).1 = (store.rows threadId).length - kept.length ∧
      Mirrors (Function.update store threadId (some kept)) (T.delete threadId p).2 := by
  have hcount := T.delete_fst_add threadId p
  have hlength := (h.rows threadId).length_eq
  have hkept := hrows.length_eq
  exact ⟨by omega, h.update (fun t ht => Table.thread_delete_of_ne ht p) hrows (h.inOrder.delete threadId p)⟩

omit [Serde DAG] [Serde YieldRequest] in
theorem asI64_eq {n : Nat} (h : n < 2 ^ 63) : asI64 n = n := by
  unfold asI64
  rw [BitVec.toInt_eq_toNat_cond, BitVec.toNat_ofNat]
  omega

omit [Serde DAG] [Serde YieldRequest] in
theorem evaluate_deleteAllBut (order : Order) (threadId : String) (n : Nat) (failure : String) (T : Table) :
    evaluate (history order) (executeHistory (.deleteAllBut threadId n) failure) T =
      (.ok (T.delete threadId fun r => decide (r.id ∉ ((order.desc (T.thread threadId)).take n).map fun r => r.id)).1,
        (T.delete threadId fun r =>
          decide (r.id ∉ ((order.desc (T.thread threadId)).take n).map fun r => r.id)).2) := by
  have hlimit : ¬ ((n : Int) < 0) := by omega
  unfold executeHistory
  rw [evaluate_perform]
  unfold history
  dsimp only
  rw [if_neg hlimit, Int.toNat_natCast]
  rfl

/-- A deletion deletes as many checkpoints, and the same. -/
theorem deleteCheckpoints (h : Mirrors store T) (threadId : String) (policy : RetentionPolicy) (now : Int)
    (hlimit : ∀ n, policy = .keepLast n → n < 2 ^ 63) (hduration : ∀ d, policy = .olderThan d → d.nanos ≤ maxDuration) :
    ∃ T', evaluate (history order) (Postgres.deleteCheckpoints threadId policy now) T =
        ((store.deleteCheckpoints threadId policy now).1, T') ∧
      Mirrors (store.deleteCheckpoints threadId policy now).2 T' := by
  cases policy with
  | keepAll =>
    refine ⟨T, ?_, ?_⟩
    · unfold MemoryStore.deleteCheckpoints
      cases store threadId <;> rfl
    · unfold MemoryStore.deleteCheckpoints
      cases store threadId <;> exact h
  | keepLast n =>
    have hrows := List.forall₂_drop ((T.thread threadId).length - n) (h.rows threadId)
    rw [← Table.thread_deleteAllBut h.inOrder order] at hrows
    obtain ⟨hcount, hmirrors⟩ := h.delete hrows
    have hlength := (h.rows threadId).length_eq
    rw [List.length_drop, ← hlength] at hcount
    rw [← hlength] at hmirrors
    have hevaluate := evaluate_deleteAllBut order threadId n "Failed to delete" T
    rw [← asI64_eq (hlimit n rfl), hcount] at hevaluate
    unfold MemoryStore.deleteCheckpoints
    unfold MemoryStore.rows at hmirrors
    refine ⟨_, hevaluate.trans (Prod.ext ?_ rfl), ?_⟩
    · cases hs : store threadId with
      | none => simp [MemoryStore.rows_eq hs]
      | some list =>
        rw [MemoryStore.rows_eq hs, Option.getD_some]
        by_cases hlong : list.length > n
        · simp only [hlong, if_true]
          exact congrArg Except.ok
            (by omega : list.length - (list.length - (list.length - n)) = list.length - n)
        · simp only [hlong, if_false]
          exact congrArg Except.ok (by omega : list.length - (list.length - (list.length - n)) = 0)
    · cases hs : store threadId with
      | none =>
        rw [hs] at hmirrors
        exact hmirrors.congr (MemoryStore.rows_update_of_eq (by simp [MemoryStore.rows_eq hs]))
      | some list =>
        rw [hs, Option.getD_some] at hmirrors
        dsimp only
        by_cases hlong : list.length > n
        · rw [if_pos hlong]
          exact hmirrors
        · rw [if_neg hlong]
          rw [(by omega : list.length - n = 0), List.drop_zero] at hmirrors
          exact hmirrors.congr (MemoryStore.rows_update_of_eq (by simp [MemoryStore.rows_eq hs]))
  | olderThan d =>
    have hcutoff : cutoff now d = .ok (now - d.nanos) := if_pos (hduration d rfl)
    have hrows : List.Forall₂ (Stored threadId)
        ((store.rows threadId).filter fun cp => decide (now - d.nanos ≤ cp.createdAt))
        ((T.delete threadId fun r => decide (r.createdAt < now - d.nanos)).2.thread threadId) := by
      rw [Table.thread_delete_self]
      refine List.rel_filter ?_ (h.rows threadId)
      intro cp row hrow
      simp only [decide_eq_true_eq, Bool.not_eq_true', decide_eq_false_iff_not, hrow.createdAt]
      exact not_lt.symm
    obtain ⟨hcount, hmirrors⟩ := h.delete hrows
    have hevaluate : evaluate (history order) (Postgres.deleteCheckpoints threadId (.olderThan d) now) T =
        (.ok (T.delete threadId fun r => decide (r.createdAt < now - d.nanos)).1,
          (T.delete threadId fun r => decide (r.createdAt < now - d.nanos)).2) := by
      unfold Postgres.deleteCheckpoints
      dsimp only
      rw [hcutoff]
      rfl
    rw [hevaluate, hcount]
    unfold MemoryStore.deleteCheckpoints
    simp only [hcutoff]
    unfold MemoryStore.rows at hmirrors ⊢
    refine ⟨_, Prod.ext ?_ rfl, ?_⟩
    · cases hs : store threadId <;> simp
    · cases hs : store threadId with
      | none =>
        rw [hs] at hmirrors
        exact hmirrors.congr (MemoryStore.rows_update_of_eq (by simp [MemoryStore.rows_eq hs]))
      | some list =>
        rw [hs, Option.getD_some] at hmirrors
        exact hmirrors

end Mirrors

/-! ### Calls -/

/-- A call of a `PostgresCheckpointer`; the database's clock reads what the process's does. -/
def Table.answer (order : Order) (T : Table) (c : StoreCall S) : Answer S × Table :=
  match c.op with
  | .saveState args => let (r, T') := evaluate (databaseAt order c.now) (saveState c.id args) T; (r.map .saved, T')
  | .loadState threadId => let (r, T') := evaluate (databaseAt order c.now) (loadState threadId) T; (r.map .loaded, T')
  | .loadVersion threadId checkpointId =>
    let (r, T') := evaluate (history order) (loadVersion threadId checkpointId) T; (r.map .loaded, T')
  | .listCheckpoints threadId =>
    let (r, T') := evaluate (history order) (listCheckpoints threadId) T; (r.map .listed, T')
  | .deleteCheckpoints threadId policy =>
    let (r, T') := evaluate (history order) (deleteCheckpoints threadId policy c.now) T; (r.map .deleted, T')
  | .claimInterrupt threadId interruptId =>
    let (r, T') := evaluate (databaseAt order c.now) (claimInterrupt threadId interruptId) T; (r.map .claimed, T')

/-- What a call has to keep to: what it saves reads back, and its policy is in range. -/
structure Proper [Chrono] (c : StoreCall S) : Prop where
  readsBack {args : SaveArgs S} : c.op = .saveState args → ReadsBack args
  range : c.InRange

/-- One call is answered alike, and the stores still hold the same. -/
theorem Mirrors.answer [Chrono] (h : Mirrors store T) {c : StoreCall S} {cs : List (StoreCall S)}
    (hbefore : Before store (c :: cs)) (hc : Proper c) :
    SameReply (store.answer c).1 (T.answer order c).1 ∧ Mirrors (store.answer c).2 (T.answer order c).2 := by
  unfold MemoryStore.answer Table.answer
  cases hop : c.op with
  | saveState args =>
    have hid : c.savedId = some c.id := by simp [StoreCall.savedId, hop]
    have hreading : c.reading = some c.now := by simp [StoreCall.reading, hop]
    obtain ⟨T', hT', hmirrors⟩ := h.saveState c.id c.now (hc.readsBack hop)
      (fun t cp hcp => hbefore.older hcp c.now (by simp [hreading]))
      fun t cp hcp hcpid => hbefore.fresh hcp (by simp [hid, hcpid])
    dsimp only
    rw [hT']
    exact ⟨sameReply_refl _, hmirrors⟩
  | loadState t =>
    dsimp only
    rw [h.loadState t]
    exact ⟨sameReply_refl _, h⟩
  | loadVersion t id =>
    dsimp only
    rw [h.loadVersion t id]
    exact ⟨sameReply_refl _, h⟩
  | listCheckpoints t =>
    dsimp only
    rw [h.listCheckpoints t]
    exact ⟨sameReply_refl _, h⟩
  | deleteCheckpoints t policy =>
    have hrange := hc.range
    unfold StoreCall.InRange at hrange
    rw [hop] at hrange
    obtain ⟨T', hT', hmirrors⟩ := h.deleteCheckpoints t policy c.now
      (fun n hn => by subst hn; exact hrange) fun d hd => by subst hd; exact hrange.1
    dsimp only
    rw [hT']
    exact ⟨sameReply_refl _, hmirrors⟩
  | claimInterrupt t i =>
    obtain ⟨r, T', hT', hsame, hmirrors⟩ := h.claimInterrupt t i c.now
    dsimp only
    rw [hT']
    exact ⟨sameReply_of_sameEnd hsame _, hmirrors⟩

/-- Stores that hold the same answer a run of calls alike. -/
theorem Mirrors.run [Chrono] (h : Mirrors store T) {calls : List (StoreCall S)} (hbefore : Before store calls)
    (hids : (calls.filterMap StoreCall.savedId).Nodup)
    (hreadings : (calls.filterMap StoreCall.reading).Pairwise (· < ·)) (hcalls : ∀ c ∈ calls, Proper c) :
    List.Forall₂ SameReply (answers MemoryStore.answer store calls) (answers (Table.answer order) T calls) := by
  induction calls generalizing store T with
  | nil => exact .nil
  | cons c cs ih =>
    obtain ⟨hsame, hnext⟩ := h.answer hbefore (hcalls c List.mem_cons_self)
    exact .cons hsame (ih hnext (hbefore.answer hids hreadings)
      (hids.sublist ((List.sublist_cons_self c cs).filterMap _))
      (hreadings.sublist ((List.sublist_cons_self c cs).filterMap _))
      fun c' hc' => hcalls c' (List.mem_cons_of_mem c hc'))

/-- A PostgreSQL checkpointer whose operations are not interleaved. -/
def checkpointer (order : Order) : Checkpointer S Table where
  saveState id now args T := evaluate (databaseAt order now) (saveState id args) T
  loadState _ threadId T := (evaluate (databaseAt order 0) (loadState threadId) T).1
  claimInterrupt _ threadId interruptId T := evaluate (databaseAt order 0) (claimInterrupt threadId interruptId) T

/-- PostgreSQL keeps up with an in-memory store. -/
theorem standsIn : StandsIn (checkpointer (S := S) order) Mirrors fun _ args => ReadsBack args where
  save {store T id now args} h hok holder hfresh := by
    obtain ⟨T', hT', hmirrors⟩ := h.saveState _ _ hok holder hfresh
    change SameEnd SameKind _ (evaluate (databaseAt order now) (Postgres.saveState id args) T).1 ∧
      Mirrors _ (evaluate (databaseAt order now) (Postgres.saveState id args) T).2
    rw [hT']
    refine ⟨?_, hmirrors⟩
    cases (store.saveState id now args).1 with
    | ok a => exact .ok a
    | error e => exact .error rfl
  load {store T} h query threadId := by
    change SameLoad _ (evaluate (databaseAt order 0) (Postgres.loadState (S := S) threadId) T).1
    rw [h.loadState]
    dsimp only
    cases (store.loadState (S := S) threadId) with
    | error e => exact .error rfl
    | ok found =>
      cases found with
      | none => exact .ok .none
      | some l => exact .ok (.some l l.info.createdAt)
  claim {store T} h query threadId interruptId := by
    obtain ⟨r, T', hT', hsame, hmirrors⟩ := h.claimInterrupt threadId interruptId 0
    change SameEnd SameKind _ (evaluate (databaseAt order 0) (Postgres.claimInterrupt threadId interruptId) T).1 ∧
      Mirrors _ (evaluate (databaseAt order 0) (Postgres.claimInterrupt threadId interruptId) T).2
    rw [hT']
    exact ⟨hsame, hmirrors⟩

end

section Examples

attribute [local instance] instSerdeYieldRequest instSerdeDAG Sqlite.utcTimes shortRuns

theorem readsBack_of_asksSimply {args : SaveArgs Bool} (h : asksSimply args = true) : ReadsBack args where
  dag hd := by
    rw [(simple_of_asksSimply h).1] at hd
    cases hd
  request hr := by
    rw [(simple_of_asksSimply h).2 _ hr]
    exact ⟨_, rfl, rfl⟩

/-- Ask, claim, answer, look, keep the last checkpoint, and look for the first one. -/
def answeredRun : List (StoreCall Bool) :=
  [callAt (.saveState (yielded (.simple "q"))) "c0" 0, callAt (.claimInterrupt "t" "q") "" 0,
    callAt (.claimInterrupt "t" "q") "" 0,
    callAt (.saveState { yielded (.simple "q") with
        status := .complete, yieldRequest := none, resolvedInterrupt := some "q" }) "c1" 1,
    callAt (.claimInterrupt "t" "q") "" 0, callAt (.listCheckpoints "t") "" 0,
    callAt (.deleteCheckpoints "t" (.keepLast 1)) "" 0, callAt (.loadVersion "t" "c0") "" 0]

end Examples

end Takeln.Postgres
