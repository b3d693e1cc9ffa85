import Takeln.Concurrent.PostgresWinner
import Takeln.Model.PostgresHistory
import Takeln.Stores.Checkpointers
import Takeln.Stores.Mirrors

/-!
# One set of checkpoints in memory and in PostgreSQL

A table of `PostgresCheckpointer` mirrors an in-memory store if the rows of a thread are its checkpoints, later ones
with later times (`Mirrors`): the state as the same JSON value, snapshots and requests as values that read back as they
were.  Every operation keeps this, and is answered alike, however the queries settle ties.
-/

namespace Takeln.Postgres

open Effect Effect.Prog

section

variable {S : Type} [State S] [Serde DAG] [Serde YieldRequest] {store : MemoryStore} {T : Table}
  {threadId interruptId : String} {order : Order} {now : Int} {cp : MemoryCheckpoint} {row : Row}

/-- The snapshot and the request of a save read back from JSON as they were. -/
structure ReadsBack (args : SaveArgs S) : Prop where
  dag {dag : DAG} : args.dag = some dag → ∃ v, Serde.toValue dag = .ok v ∧ Serde.fromValue v = .ok dag
  request {r : YieldRequest} : args.yieldRequest = some r → ∃ v, Serde.toValue r = .ok v ∧ Serde.fromValue v = .ok r

/-- A checkpoint of a thread and its row. -/
structure Stored (threadId : String) (cp : MemoryCheckpoint) (row : Row) : Prop where
  id : row.id = cp.checkpointId
  thread : row.threadId = threadId
  state : row.state = cp.state
  nextNode : row.nextNode = cp.nextNode
  dag : decodeColumn row.dag = .ok cp.dag
  status : row.status = cp.status.debug
  createdAt : row.createdAt = cp.createdAt
  yieldRequest : decodeColumn row.yieldRequest = .ok cp.yieldRequest
  claimedInterrupt : row.claimedInterrupt = cp.claimedInterrupt
  resolvedInterrupt : row.resolvedInterrupt = cp.resolvedInterrupt

/-- The table holds the checkpoints of every thread. -/
structure Mirrors (store : MemoryStore) (T : Table) : Prop where
  rows (threadId : String) : List.Forall₂ (Stored threadId) (store.rows threadId) (T.thread threadId)
  inOrder : T.InOrder

/-! ### Columns -/

omit [Serde DAG] [Serde YieldRequest] in
/-- What reads back is encoded. -/
theorem encode_readsBack {α : Type} [Serde α] (x : Option α)
    (h : ∀ a, x = some a → ∃ v, Serde.toValue a = .ok v ∧ Serde.fromValue v = .ok a) :
    ∃ column, encode x = .ret column ∧ decodeColumn column = .ok x := by
  cases x with
  | none => exact ⟨none, rfl, rfl⟩
  | some a =>
    obtain ⟨v, hv, hread⟩ := h a rfl
    refine ⟨some v, ?_, ?_⟩
    · unfold encode
      dsimp only
      rw [hv]
      rfl
    · unfold decodeColumn
      dsimp only
      rw [hread]
      rfl

omit [Serde DAG] [Serde YieldRequest] in
theorem decodeColumn_eq_none {α : Type} [Serde α] {column : Option Value} :
    decodeColumn (α := α) column = .ok none ↔ column = none := by
  cases column with
  | none => exact iff_of_true rfl rfl
  | some v =>
    unfold decodeColumn
    dsimp only
    cases (Serde.fromValue v : Except String α) with
    | error e => exact iff_of_false nofun nofun
    | ok a => exact iff_of_false nofun nofun

omit [Serde DAG] [Serde YieldRequest] in
theorem decodeColumn_eq_some {α : Type} [Serde α] {column : Option Value} {a : α}
    (h : decodeColumn column = .ok (some a)) : ∃ v, column = some v ∧ Serde.fromValue v = .ok a := by
  cases column with
  | none => cases h
  | some v =>
    refine ⟨v, rfl, ?_⟩
    unfold decodeColumn at h
    dsimp only at h
    cases hread : (Serde.fromValue v : Except String α) with
    | error e =>
      rw [hread] at h
      cases h
    | ok a' =>
      rw [hread] at h
      cases h
      rfl

/-! ### Reading rows -/

theorem rowMeta_eq (h : Stored threadId cp row) : rowMeta threadId row = .ok (cp.toMeta threadId) := by
  unfold rowMeta
  rw [h.yieldRequest, h.id, h.nextNode, h.status, h.createdAt, h.claimedInterrupt, h.resolvedInterrupt,
    parseCheckpointStatus_debug]
  rfl

/-- A row is read as its checkpoint. -/
theorem readRow_eq (h : Stored threadId cp row) : readRow (S := S) threadId row = cp.load threadId := by
  unfold readRow MemoryCheckpoint.load
  rw [rowMeta_eq h, h.dag, h.state]
  cases (State.fromValue cp.state : Except String S) <;> rfl

/-- `load_state` reads the latest row. -/
theorem evaluate_loadState (threadId : String) (T : Table) :
    evaluate (databaseAt order now) (loadState (S := S) threadId) T =
      (readFound threadId (T.latest order threadId), T) := by
  rw [loadState_eq, execute, perform_bind, evaluate_perform]
  change evaluate _ (Prog.bind (ofExcept (.ok (T.latest order threadId))) _) T = _
  rw [ofExcept_ok, ret_bind, evaluate_ofExcept]

/-! ### Operations -/

namespace Mirrors

theorem empty : Mirrors (fun _ => none) Table.empty := ⟨fun _ => .nil, .nil⟩

/-- Only the checkpoints of the threads matter. -/
theorem congr {store' : MemoryStore} (h : Mirrors store T) (hrows : ∀ t, store'.rows t = store.rows t) :
    Mirrors store' T := by
  refine ⟨fun t => ?_, h.inOrder⟩
  rw [hrows]
  exact h.rows t

/-- What is shown for a change of one thread. -/
theorem update (h : Mirrors store T) {T' : Table} {list : List MemoryCheckpoint}
    (hother : ∀ t, t ≠ threadId → T'.thread t = T.thread t)
    (hrows : List.Forall₂ (Stored threadId) list (T'.thread threadId)) (hinOrder : T'.InOrder) :
    Mirrors (Function.update store threadId (some list)) T' := by
  refine ⟨fun t => ?_, hinOrder⟩
  rw [MemoryStore.rows_update]
  by_cases ht : t = threadId
  · subst ht
    rw [if_pos rfl]
    exact hrows
  · rw [if_neg ht, hother t ht]
    exact h.rows t

/-- The latest row is that of the latest checkpoint. -/
theorem latest (h : Mirrors store T) (order : Order) (threadId : String) :
    Option.Rel (Stored threadId) (store.rows threadId).getLast? (T.latest order threadId) := by
  rw [h.inOrder.latest_eq]
  rcases forall₂_concat (h.rows threadId) with ⟨hnil, hnil'⟩ | ⟨l, cp, m, row, hl, hm, -, hrow⟩
  · rw [hnil, hnil']
    exact .none
  · rw [hl, hm, List.getLast?_concat, List.getLast?_concat]
    exact .some hrow

theorem loadState (h : Mirrors store T) (threadId : String) :
    evaluate (databaseAt order now) (Postgres.loadState (S := S) threadId) T = (store.loadState threadId, T) := by
  rw [evaluate_loadState]
  have hlatest := h.latest order threadId
  unfold MemoryStore.loadState
  generalize (store.rows threadId).getLast? = found at hlatest
  generalize T.latest order threadId = found' at hlatest
  cases hlatest with
  | none => rfl
  | some hrow =>
    unfold readFound
    dsimp only
    rw [readRow_eq hrow]

/-- A save writes the same checkpoint to both stores, or fails in both. -/
theorem saveState (h : Mirrors store T) {args : SaveArgs S} (id : String) (now : Int) (hargs : ReadsBack args)
    (holder : ∀ t, ∀ cp ∈ store.rows t, cp.createdAt < now) (hfresh : ∀ t, ∀ cp ∈ store.rows t, cp.checkpointId ≠ id) :
    ∃ T', evaluate (databaseAt order now) (Postgres.saveState id args) T = ((store.saveState id now args).1, T') ∧
      Mirrors (store.saveState id now args).2 T' := by
  have hrow : ∀ r ∈ T.rows, ∃ cp ∈ store.rows r.threadId, Stored r.threadId cp r := fun r hr =>
    exists_of_mem_right (h.rows r.threadId) (Table.mem_thread.2 ⟨hr, rfl⟩)
  have hfree : id ∉ T.rows.map fun r => r.id := by
    intro hmem
    obtain ⟨r, hr, rfl⟩ := List.mem_map.1 hmem
    obtain ⟨cp, hcp, hstored⟩ := hrow r hr
    exact hfresh _ cp hcp hstored.id.symm
  have hlater : ∀ t ∈ T.rows.map Row.createdAt, t < now := by
    intro t ht
    obtain ⟨r, hr, rfl⟩ := List.mem_map.1 ht
    obtain ⟨cp, hcp, hstored⟩ := hrow r hr
    exact hstored.createdAt ▸ holder _ cp hcp
  obtain ⟨dagJson, hdag, hdagRead⟩ := encode_readsBack args.dag fun _ => hargs.dag
  obtain ⟨requestJson, hrequest, hrequestRead⟩ := encode_readsBack args.yieldRequest fun _ => hargs.request
  unfold MemoryStore.saveState Postgres.saveState
  cases hval : State.toValue args.state with
  | error e => exact ⟨T, rfl, h⟩
  | ok val =>
    let columns : Columns :=
      { id := id, threadId := args.threadId, state := val, nextNode := args.nextNode, dag := dagJson,
        status := args.status.debug, yieldRequest := requestJson, claimedInterrupt := args.claimedInterrupt,
        resolvedInterrupt := args.resolvedInterrupt }
    refine ⟨T.insert columns now hfree, ?_, h.update (fun t ht => ?_) ?_ (h.inOrder.insert hfree hlater)⟩
    · rw [hdag, hrequest]
      change evaluate _ (Prog.bind (Prog.perform (F := sql) (.insert columns) _) _) T = _
      have hanswer : databaseAt order now T (.insert columns) = (.ok (), T.insert columns now hfree) := dif_pos hfree
      rw [perform_bind, evaluate_perform, hanswer]
      rfl
    · rw [Table.thread_insert, if_neg (Ne.symm ht), List.append_nil]
    · rw [Table.thread_insert, if_pos rfl]
      exact List.rel_append (h.rows _) (.cons ⟨rfl, rfl, rfl, rfl, hdagRead, rfl, rfl, hrequestRead, rfl, rfl⟩ .nil)

end Mirrors

end

/-! ### Claiming -/

namespace Table

variable {T : Table} {threadId : String}

/-- A claim turns the last row of the thread. -/
theorem thread_claim_self {order : Order} {rows : List Row} {last : Row} (hlast : T.latest order threadId = some last)
    (hthread : T.thread threadId = rows ++ [last]) (hstatus : last.status = "Yielded") (interruptId : String) :
    (T.claim order threadId interruptId).thread threadId = rows ++ [last.claimedFor interruptId] := by
  have hids := T.nodup_ids threadId
  rw [hthread, List.map_append, List.nodup_append] at hids
  rw [thread_claim hlast, hthread, List.map_append]
  congr 1
  · rw [List.map_congr_left (g := id), List.map_id]
    intro r hr
    exact if_neg fun h => hids.2.2 _ (List.mem_map_of_mem hr) _ List.mem_cons_self h.1
  · exact congrArg (fun r => [r]) (if_pos ⟨rfl, hstatus⟩)

end Table

section Claims

variable [Serde DAG] [Serde YieldRequest] {store : MemoryStore} {T : Table} {threadId interruptId : String}
  {order : Order} {now : Int}

omit [Serde DAG] in
/-- A claim looks for a row that resolves the interrupt, then at the latest row. -/
theorem evaluate_claimInterrupt (threadId interruptId : String) (T : Table) :
    evaluate (databaseAt order now) (claimInterrupt threadId interruptId) T =
      if ((T.thread threadId).any fun r => r.resolvedInterrupt == some interruptId) = true then
        (.ok .alreadyCompleted, T)
      else match T.latest order threadId with
        | none => (.error (.nothingToResume threadId), T)
        | some row =>
          evaluate (databaseAt order now)
            (claimLatest threadId interruptId row.status row.yieldRequest row.claimedInterrupt) T := by
  unfold claimInterrupt execute
  rw [bind_eq, perform_bind, evaluate_perform]
  change evaluate _ (Prog.bind (ofExcept (.ok _)) _) T = _
  rw [ofExcept_ok, ret_bind]
  split
  · rfl
  · rw [bind_eq, perform_bind, evaluate_perform]
    change evaluate _ (Prog.bind (ofExcept (.ok _)) _) T = _
    rw [ofExcept_ok, ret_bind]
    cases T.latest order threadId <;> rfl

variable (interruptId now) in
omit [Serde DAG] [Serde YieldRequest] in
/-- The update of a claim turns a latest row that waits. -/
theorem evaluate_updateClaim {row : Row} (hlatest : T.latest order threadId = some row)
    (hstatus : row.status = "Yielded") :
    evaluate (databaseAt order now) (updateClaim threadId interruptId) T =
      (.ok .claimed, T.claim order threadId interruptId) := by
  have hone := Table.claimable_eq hlatest
  rw [if_pos hstatus] at hone
  have hanswer : databaseAt order now T (.updateClaimed threadId interruptId) =
      (.ok 1, T.claim order threadId interruptId) :=
    congrArg (fun n => ((.ok n : Except String Nat), T.claim order threadId interruptId)) hone
  unfold updateClaim execute
  rw [bind_eq, perform_bind, evaluate_perform, hanswer]
  rfl

/-- A claim of an interrupt that is not resolved, where the thread has a latest checkpoint. -/
theorem Mirrors.claimLatest (h : Mirrors store T) {l : List MemoryCheckpoint} {cp : MemoryCheckpoint} {m : List Row}
    {row : Row} (hs : store threadId = some (l ++ [cp])) (hthread : T.thread threadId = m ++ [row])
    (hrel : List.Forall₂ (Stored threadId) l m) (hrow : Stored threadId cp row)
    (hres : ¬ Resolved (l ++ [cp]) interruptId) :
    ∃ r T', evaluate (databaseAt order now) (Postgres.claimLatest threadId interruptId row.status row.yieldRequest
        row.claimedInterrupt) T = (r, T') ∧
      SameEnd SameKind (store.claimInterrupt threadId interruptId).1 r ∧
      Mirrors (store.claimInterrupt threadId interruptId).2 T' := by
  have hany : ((l ++ [cp]).any fun cp => cp.resolvedInterrupt == some interruptId) = false :=
    Bool.eq_false_iff.2 fun hany => hres (any_resolved.1 hany)
  have hstatus : parseCheckpointStatus row.status = cp.status := by rw [hrow.status, parseCheckpointStatus_debug]
  have hclaimed := hrow.claimedInterrupt
  have hrequest := hrow.yieldRequest
  have hlatest : T.latest order threadId = some row := by
    rw [h.inOrder.latest_eq, hthread, List.getLast?_concat]
  unfold Postgres.claimLatest
  rw [hstatus, hclaimed]
  dsimp only
  by_cases hrun : cp.status = .running ∧ cp.claimedInterrupt = some interruptId
  · have hmem : store.claimInterrupt threadId interruptId = (.ok .inProgress, store) := by
      simp [MemoryStore.claimInterrupt, hs, hany, hrun]
    rw [if_pos hrun, hmem]
    exact ⟨_, _, rfl, .ok _, h⟩
  rw [if_neg hrun]
  cases hst : cp.status with
  | running =>
    have hother : cp.claimedInterrupt ≠ some interruptId := fun hc => hrun ⟨hst, hc⟩
    have hmem : ∃ e, store.claimInterrupt threadId interruptId = (.error (.executionError e), store) := by
      simp [MemoryStore.claimInterrupt, hs, hany, hst, hother]
    obtain ⟨e, he⟩ := hmem
    rw [he]
    exact ⟨_, _, rfl, .error rfl, h⟩
  | yielded =>
    cases hreq : cp.yieldRequest with
    | none =>
      rw [hreq, decodeColumn_eq_none] at hrequest
      have hmem : ∃ e, store.claimInterrupt threadId interruptId = (.error (.nothingToResume e), store) := by
        simp [MemoryStore.claimInterrupt, hs, hany, hst, hreq]
      obtain ⟨e, he⟩ := hmem
      rw [he, hrequest]
      exact ⟨_, _, rfl, .error rfl, h⟩
    | some r =>
      rw [hreq] at hrequest
      obtain ⟨v, hv, hread⟩ := decodeColumn_eq_some hrequest
      rw [hv]
      have hdecode : (decode v : Prog sql TakelnError YieldRequest) = .ret r := by
        unfold decode
        rw [hread]
        rfl
      simp only [hdecode]
      by_cases hid : r.interruptId = interruptId
      · -- both turn the latest checkpoint
        have hyielded : row.status = "Yielded" := by
          rw [hrow.status, hst]
          rfl
        have hmem : store.claimInterrupt threadId interruptId =
            (.ok .claimed, Function.update store threadId (some (l ++ [cp.claimedFor interruptId]))) := by
          simp [MemoryStore.claimInterrupt, MemoryCheckpoint.claimedFor, hs, hany, hst, hreq, hid]
        rw [hmem]
        refine ⟨.ok .claimed, T.claim order threadId interruptId, ?_, .ok _,
          h.update (fun t ht => Table.thread_claim_of_ne ht interruptId) ?_
            (h.inOrder.claim order threadId interruptId)⟩
        · have hprog := evaluate_updateClaim interruptId now hlatest hyielded
          simpa [hid] using hprog
        · rw [Table.thread_claim_self hlatest hthread hyielded]
          refine List.rel_append hrel (.cons ?_ .nil)
          exact ⟨hrow.id, hrow.thread, hrow.state, hrow.nextNode, hrow.dag, rfl, hrow.createdAt, hrow.yieldRequest, rfl,
            hrow.resolvedInterrupt⟩
      · have hmem : ∃ e, store.claimInterrupt threadId interruptId = (.error (.invalidResume e), store) := by
          simp [MemoryStore.claimInterrupt, hs, hany, hst, hreq, hid]
        obtain ⟨e, he⟩ := hmem
        rw [he]
        refine ⟨.error (.invalidResume s!"Expected interrupt_id '{r.interruptId}', got '{interruptId}'"), T, ?_,
          .error rfl, h⟩
        simp [hid]
  | _ =>
    have hmem : ∃ e, store.claimInterrupt threadId interruptId = (.error (.nothingToResume e), store) := by
      simp [MemoryStore.claimInterrupt, hs, hany, hst]
    obtain ⟨e, he⟩ := hmem
    rw [he]
    exact ⟨_, _, rfl, .error rfl, h⟩

/-- A claim takes the same branch in both stores. -/
theorem Mirrors.claimInterrupt (h : Mirrors store T) (threadId interruptId : String) (now : Int) :
    ∃ r T', evaluate (databaseAt order now) (Postgres.claimInterrupt threadId interruptId) T = (r, T') ∧
      SameEnd SameKind (store.claimInterrupt threadId interruptId).1 r ∧
      Mirrors (store.claimInterrupt threadId interruptId).2 T' := by
  rw [evaluate_claimInterrupt]
  have hiff : ((T.thread threadId).any fun r => r.resolvedInterrupt == some interruptId) = true ↔
      Resolved (store.rows threadId) interruptId := by
    rw [← any_resolved, forall₂_any (h.rows threadId)]
    intro cp row hrow
    rw [hrow.resolvedInterrupt]
  by_cases hres : Resolved (store.rows threadId) interruptId
  · rw [if_pos (hiff.2 hres), MemoryStore.claimInterrupt_of_resolved hres]
    exact ⟨_, _, rfl, .ok _, h⟩
  rw [if_neg (mt hiff.1 hres)]
  rcases forall₂_concat (h.rows threadId) with ⟨hnil, hnil'⟩ | ⟨l, cp, m, row, hl, hm, hrel, hrow⟩
  · have hmem : store.claimInterrupt threadId interruptId = (.error (.nothingToResume threadId), store) := by
      unfold MemoryStore.claimInterrupt
      unfold MemoryStore.rows at hnil
      cases hs : store threadId with
      | none => rfl
      | some list =>
        rw [hs, Option.getD_some] at hnil
        subst hnil
        rfl
    rw [hmem, h.inOrder.latest_eq, hnil']
    exact ⟨_, _, rfl, .error rfl, h⟩
  · have hs : store threadId = some (l ++ [cp]) := by
      unfold MemoryStore.rows at hl
      cases hs : store threadId with
      | none =>
        rw [hs] at hl
        simp at hl
      | some list =>
        rw [hs, Option.getD_some] at hl
        rw [hl]
    rw [h.inOrder.latest_eq, hm, List.getLast?_concat]
    exact h.claimLatest hs hm hrel hrow (hl ▸ hres)

end Claims

end Takeln.Postgres
