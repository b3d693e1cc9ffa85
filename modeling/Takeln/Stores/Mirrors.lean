import Takeln.Order.Related
import Takeln.Sequential.Interrupts
import Takeln.Stores.Calls
import Takeln.Stores.Recency

/-!
# One set of checkpoints in two stores

An in-memory store and a SQLite table hold the same checkpoints (`Mirrors`) if the list of a thread is the table's rows
of that thread, with later times further on.  Saving and deleting keep this; reading answers alike as long as the yield
requests that are read were stored in texts that read back as the same request.
-/

namespace Takeln

open Rfc3339 (InYears)
open Sqlite (JsonText Chrono Table Row encode decode newRow rowMeta loadRow loadFound)

/-- Replacing the checkpoints of a thread by themselves. -/
theorem MemoryStore.rows_update_of_eq {store : MemoryStore} {threadId : String} {list : List MemoryCheckpoint}
    (h : list = store.rows threadId) (t : String) :
    store.rows t = MemoryStore.rows (Function.update store threadId (some list)) t := by
  rw [MemoryStore.rows_update]
  by_cases ht : t = threadId
  · rw [if_pos ht, h, ht]
  · rw [if_neg ht]

theorem MemoryStore.rows_eq {store : MemoryStore} {threadId : String} {o : Option (List MemoryCheckpoint)}
    (h : store threadId = o) : store.rows threadId = o.getD [] := by
  rw [MemoryStore.rows, h]

section

variable {S : Type} [State S] [JsonText S] [JsonText DAG] [JsonText YieldRequest]

/-- What `serde` guarantees for the arguments of a save. -/
structure SaveArgs.Serde (args : SaveArgs S) : Prop where
  value {v : Value} : State.toValue args.state = .ok v → State.fromValue v = .ok args.state
  text {s : String} : JsonText.toText args.state = .ok s → JsonText.fromText s = .ok args.state
  fails : (∃ e, JsonText.toText args.state = .error e) ↔ ∃ e, State.toValue args.state = .error e
  dag {dag : DAG} : args.dag = some dag → ∃ s, JsonText.toText dag = .ok s ∧ JsonText.fromText s = .ok dag
  request {r : YieldRequest} : args.yieldRequest = some r → ∃ s, JsonText.toText r = .ok s

/-- The JSON text of a request reads back as the request. -/
def YieldRequest.Survives (r : YieldRequest) : Prop :=
  ∃ s, JsonText.toText r = .ok s ∧ JsonText.fromText s = .ok r

/-- The request of a checkpoint survives. -/
def MemoryCheckpoint.Survives (cp : MemoryCheckpoint) : Prop := ∀ r, cp.yieldRequest = some r → r.Survives

/-- The JSON text of a request reads back as one that answers a claim in the same way. -/
def YieldRequest.Claims (r : YieldRequest) (interruptId : String) : Prop :=
  ∃ (s : String) (r' : YieldRequest), JsonText.toText r = .ok s ∧ JsonText.fromText s = .ok r' ∧
    (r'.interruptId = interruptId ↔ r.interruptId = interruptId)

/-- If a claim comes to read the request of the latest checkpoint, the request claims. -/
def ClaimReadable (rows : List MemoryCheckpoint) (interruptId : String) : Prop :=
  ¬ Resolved rows interruptId → ∀ cp, rows.getLast? = some cp → cp.status = .yielded →
    ∀ r, cp.yieldRequest = some r → r.Claims interruptId

/-- The requests that a call reads survive; of the request that a claim reads, only the interrupt id matters. -/
def StoreCall.Readable (store : MemoryStore) (c : StoreCall S) : Prop :=
  match c.op with
  | .loadState threadId => ∀ cp, (store.rows threadId).getLast? = some cp → cp.Survives
  | .loadVersion threadId checkpointId =>
    ∀ cp, ((store.rows threadId).find? fun cp => cp.checkpointId == checkpointId) = some cp → cp.Survives
  | .listCheckpoints threadId => ∀ cp ∈ store.rows threadId, cp.Survives
  | .claimInterrupt threadId interruptId => ClaimReadable (store.rows threadId) interruptId
  | _ => True

/-- Every call reads only requests that survive. -/
def EveryReadable : MemoryStore → List (StoreCall S) → Prop
  | _, [] => True
  | store, c :: cs => c.Readable store ∧ EveryReadable (store.answer c).2 cs

/-! ### One checkpoint in both stores -/

variable [Chrono]

variable (S) in
/-- A checkpoint of a thread and its row. -/
structure Stored (threadId : String) (cp : MemoryCheckpoint) (row : Row) : Prop where
  id : row.id = cp.checkpointId
  thread : row.threadId = threadId
  state : ∃ s : S, State.fromValue cp.state = .ok s ∧ JsonText.fromText row.state = .ok s
  nextNode : row.nextNode = cp.nextNode
  dag : decode row.dag = .ok cp.dag
  status : row.status = cp.status.debug
  years : InYears cp.createdAt
  createdAt : row.createdAt = Chrono.toRfc3339 cp.createdAt
  yieldRequest : encode cp.yieldRequest = .ok row.yieldRequest
  claimedInterrupt : row.claimedInterrupt = cp.claimedInterrupt
  resolvedInterrupt : row.resolvedInterrupt = cp.resolvedInterrupt

variable {threadId : String}

/-! ### The stores of a run -/

variable (S) in
/-- The table holds the checkpoints of every thread, the later ones with later times. -/
structure Mirrors (store : MemoryStore) (T : Table) : Prop where
  rows (threadId : String) : List.Forall₂ (Stored S threadId) (store.rows threadId) (T.thread threadId)
  times (threadId : String) : (store.rows threadId).Pairwise fun a b => a.createdAt < b.createdAt

variable (S) in
/-- The answers are the same exactly if `P`, and then the stores still agree. -/
def Agree (P : Prop) (r : Answer S × MemoryStore) (r' : Answer S × Table) : Prop :=
  (SameReply r.1 r'.1 ↔ P) ∧ (P → Mirrors S r.2 r'.2)

namespace Mirrors

variable {store : MemoryStore} {T : Table}

theorem agree {P : Prop} {a b : Answer S} (h : Mirrors S store T) (hsame : SameReply a b) (hP : P) :
    Agree S P (a, store) (b, T) :=
  ⟨iff_of_true hsame hP, fun _ => h⟩

theorem empty : Mirrors S (fun _ => none) Table.empty where
  rows _ := .nil
  times _ := .nil

/-- Only the checkpoints of the threads matter. -/
theorem congr {store' : MemoryStore} (h : Mirrors S store T) (hrows : ∀ t, store'.rows t = store.rows t) :
    Mirrors S store' T where
  rows t := by
    rw [hrows]
    exact h.rows t
  times t := by
    rw [hrows]
    exact h.times t

/-- What is shown for a change of one thread. -/
theorem update (h : Mirrors S store T) {T' : Table} {list : List MemoryCheckpoint}
    (hother : ∀ t, t ≠ threadId → T'.thread t = T.thread t)
    (hrows : List.Forall₂ (Stored S threadId) list (T'.thread threadId))
    (htimes : list.Pairwise fun a b => a.createdAt < b.createdAt) :
    Mirrors S (Function.update store threadId (some list)) T' where
  rows t := by
    rw [MemoryStore.rows_update]
    by_cases ht : t = threadId
    · subst ht
      rw [if_pos rfl]
      exact hrows
    · rw [if_neg ht, hother t ht]
      exact h.rows t
  times t := by
    rw [MemoryStore.rows_update]
    by_cases ht : t = threadId
    · rw [if_pos ht]
      exact htimes
    · rw [if_neg ht]
      exact h.times t

end Mirrors

/-! ### Saving -/

/-- A save writes the same checkpoint to both stores, or fails in both to write the state. -/
theorem newRow_of_serde {args : SaveArgs S} (id : String) {now : Int} (hargs : args.Serde) (hyears : InYears now) :
    (∃ e e', State.toValue args.state = .error e ∧ newRow id now args = .error (.serializationError e')) ∨
      ∃ v row, State.toValue args.state = .ok v ∧ newRow id now args = .ok row ∧
        Stored S args.threadId (.ofSave id now v args) row := by
  have hdag : ∃ column, encode args.dag = .ok column ∧ decode column = .ok args.dag := by
    cases hd : args.dag with
    | none => exact ⟨none, rfl, rfl⟩
    | some dag =>
      obtain ⟨s, hs, hread⟩ := hargs.dag hd
      exact ⟨some s, Sqlite.encode_some_eq_ok.2 ⟨s, hs, rfl⟩, Sqlite.decode_some_eq_ok.2 ⟨dag, hread, rfl⟩⟩
  have hrequest : ∃ column, encode args.yieldRequest = .ok column := by
    cases hr : args.yieldRequest with
    | none => exact ⟨none, rfl⟩
    | some r =>
      obtain ⟨s, hs⟩ := hargs.request hr
      exact ⟨some s, Sqlite.encode_some_eq_ok.2 ⟨s, hs, rfl⟩⟩
  obtain ⟨dagJson, hdagJson, hdagRead⟩ := hdag
  obtain ⟨requestJson, hrequestJson⟩ := hrequest
  unfold newRow
  cases htext : JsonText.toText args.state with
  | error e' =>
    obtain ⟨e, he⟩ := hargs.fails.1 ⟨e', htext⟩
    exact Or.inl ⟨e, e', he, rfl⟩
  | ok text =>
    cases hvalue : State.toValue args.state with
    | error e =>
      obtain ⟨e', he'⟩ := hargs.fails.2 ⟨e, hvalue⟩
      cases htext.symm.trans he'
    | ok v =>
      rw [hdagJson, hrequestJson]
      refine Or.inr ⟨v, _, rfl, rfl, ?_⟩
      exact ⟨rfl, rfl, ⟨args.state, hargs.value hvalue, hargs.text htext⟩, rfl, hdagRead, rfl, hyears, rfl,
        hrequestJson, rfl, rfl⟩

namespace Mirrors

variable {store : MemoryStore} {T : Table}

theorem saveState (h : Mirrors S store T) {args : SaveArgs S} (id : String) {now : Int} (hargs : args.Serde)
    (hyears : InYears now) (holder : ∀ t, ∀ cp ∈ store.rows t, cp.createdAt < now)
    (hfresh : ∀ t, ∀ cp ∈ store.rows t, cp.checkpointId ≠ id) :
    SameReply ((store.saveState id now args).1.map (Reply.saved (S := S))) ((T.saveState id now args).1.map .saved) ∧
      Mirrors S (store.saveState id now args).2 (T.saveState id now args).2 := by
  have hid : id ∉ T.rows.map Row.id := by
    intro hmem
    obtain ⟨row, hrow, rfl⟩ := List.mem_map.1 hmem
    obtain ⟨cp, hcp, hstored⟩ := exists_of_mem_right (h.rows row.threadId) (Table.mem_thread.2 ⟨hrow, rfl⟩)
    exact hfresh _ cp hcp hstored.id.symm
  unfold MemoryStore.saveState Table.saveState
  rcases newRow_of_serde id hargs hyears with ⟨e, e', hvalue, hrow⟩ | ⟨v, row, hvalue, hrow, hstored⟩
  · rw [hvalue, hrow]
    exact ⟨rfl, h⟩
  · have hrowid : row.id ∉ T.rows.map Row.id := by
      rw [hstored.id]
      exact hid
    rw [hvalue, hrow]
    dsimp only
    rw [dif_neg hrowid]
    refine ⟨rfl, h.update ?_ ?_ ?_⟩
    · intro t ht
      rw [Table.thread_insert, hstored.thread, if_neg (Ne.symm ht), List.append_nil]
    · rw [Table.thread_insert, hstored.thread, if_pos rfl]
      exact List.rel_append (h.rows _) (.cons hstored .nil)
    · rw [List.pairwise_append]
      refine ⟨h.times _, List.pairwise_singleton _ _, fun cp hcp cp' hcp' => ?_⟩
      cases List.mem_singleton.1 hcp'
      exact holder _ cp hcp

end Mirrors

/-! ### Reading -/

variable [Chrono.Documented] {cp : MemoryCheckpoint} {row : Row}

/-- The metadata read from a row are those of the checkpoint if its request survives, and only then. -/
theorem Stored.rowMeta_eq_iff (h : Stored S threadId cp row) (now : Int) :
    rowMeta now threadId row = .ok (cp.toMeta threadId) ↔ cp.Survives := by
  have htime : (Chrono.parseFromRfc3339 row.createdAt).getD now = cp.createdAt := by
    rw [h.createdAt, Chrono.Documented.parse_toRfc3339 h.years]
    rfl
  -- all other columns read back as they were written
  have hmeta : ∀ r, decode row.yieldRequest = .ok r →
      (rowMeta now threadId row = .ok (cp.toMeta threadId) ↔ r = cp.yieldRequest) := by
    intro r hr
    unfold rowMeta MemoryCheckpoint.toMeta Sqlite.parseStatus
    rw [hr, htime, h.id, h.nextNode, h.status, h.claimedInterrupt, h.resolvedInterrupt,
      Postgres.parseCheckpointStatus_debug]
    simp [bind, Except.bind, pure, Except.pure]
  have hrequest := h.yieldRequest
  unfold MemoryCheckpoint.Survives
  cases hcp : cp.yieldRequest with
  | none =>
    rw [hcp] at hrequest hmeta
    have hcolumn : row.yieldRequest = none := (Except.ok.inj hrequest).symm
    rw [hmeta none (by rw [hcolumn]; rfl)]
    simp
  | some r =>
    rw [hcp] at hrequest hmeta
    obtain ⟨s, hs, hcolumn⟩ := Sqlite.encode_some_eq_ok.1 hrequest
    rw [hcolumn] at hmeta
    -- the request reads back if its text does
    have hsurvives : (∀ r₁, some r = some r₁ → r₁.Survives) ↔ JsonText.fromText s = .ok r := by
      constructor
      · intro hall
        obtain ⟨s', hs', hread⟩ := hall r rfl
        cases hs.symm.trans hs'
        exact hread
      · intro hread r₁ hr₁
        cases hr₁
        exact ⟨s, hs, hread⟩
    rw [hsurvives]
    constructor
    · intro hok
      cases hread : (JsonText.fromText s : Except String YieldRequest) with
      | error e =>
        unfold rowMeta at hok
        rw [hcolumn] at hok
        simp [decode, hread, Except.mapError, Except.map, bind, Except.bind] at hok
      | ok r' =>
        have heq := (hmeta (some r') (Sqlite.decode_some_eq_ok.2 ⟨r', hread, rfl⟩)).1 hok
        cases heq
        rfl
    · intro hread
      exact (hmeta (some r) (Sqlite.decode_some_eq_ok.2 ⟨r, hread, rfl⟩)).2 rfl

/-- A checkpoint and its row are loaded as the same, if the request survives. -/
theorem Stored.load_iff (h : Stored S threadId cp row) (now : Int) :
    ∃ loaded : Loaded S, cp.load threadId = .ok loaded ∧ (loadRow now threadId row = .ok loaded ↔ cp.Survives) := by
  obtain ⟨state, hvalue, htext⟩ := h.state
  refine ⟨⟨state, cp.toMeta threadId, cp.dag⟩, MemoryCheckpoint.load_eq_ok_iff.2 ⟨hvalue, rfl, rfl⟩, ?_⟩
  rw [← h.rowMeta_eq_iff now]
  unfold loadRow
  rw [htext, h.dag]
  cases hmeta : rowMeta now threadId row with
  | error e => simp [Except.mapError, bind, Except.bind]
  | ok info => simp [Except.mapError, bind, Except.bind, pure, Except.pure]

/-- A checkpoint and a row that were found are answered alike if the request survives. -/
theorem found_iff {found : Option MemoryCheckpoint} {found' : Option Row} {x : Except TakelnError (Option (Loaded S))}
    (h : Option.Rel (Stored S threadId) found found') (hnone : found = none → x = .ok none)
    (hsome : ∀ cp, found = some cp → x = (cp.load threadId).map some) (now : Int) :
    SameReply (x.map Reply.loaded) ((loadFound now threadId found').map .loaded) ↔
      ∀ cp, found = some cp → cp.Survives := by
  cases h with
  | none =>
    rw [hnone rfl]
    simp [loadFound, SameReply, Except.map]
  | @some cp row hrow =>
    obtain ⟨loaded, hload, hiff⟩ := hrow.load_iff now
    rw [hsome _ rfl, hload]
    simp only [Option.some.injEq, forall_eq']
    rw [← hiff]
    simp only [loadFound]
    cases hread : (loadRow now threadId row : Except TakelnError (Loaded S)) with
    | error e => simp [SameReply, Except.map]
    | ok loaded' => simp [SameReply, Except.map, eq_comm]

/-- Rows are listed as their checkpoints if all their requests survive. -/
theorem mapM_rowMeta_iff {list : List MemoryCheckpoint} {rows : List Row}
    (h : List.Forall₂ (Stored S threadId) list rows) (now : Int) :
    rows.mapM (rowMeta now threadId) = .ok (list.map fun cp => cp.toMeta threadId) ↔ ∀ cp ∈ list, cp.Survives := by
  induction h with
  | nil => simp [pure, Except.pure]
  | cons hrow _ ih =>
    rw [List.forall_mem_cons, ← ih, ← hrow.rowMeta_eq_iff now, List.mapM_cons, List.map_cons]
    cases rowMeta now threadId _ with
    | error e => simp [bind, Except.bind]
    | ok info =>
      cases List.mapM (rowMeta now threadId) _ with
      | error e => simp [bind, Except.bind]
      | ok infos => simp [bind, Except.bind, pure, Except.pure]

namespace Mirrors

variable {store : MemoryStore} {T : Table}

/-- Within a thread the texts of `created_at` increase. -/
theorem sorted (h : Mirrors S store T) (threadId : String) :
    (T.thread threadId).Pairwise fun a b => a.createdAt < b.createdAt := by
  refine forall₂_pairwise (h.rows threadId) (h.times threadId) ?_
  intro cp cp' row row' hrow hrow' hlt
  rw [hrow.createdAt, hrow'.createdAt, Chrono.Documented.toRfc3339_eq hrow.years,
    Chrono.Documented.toRfc3339_eq hrow'.years]
  exact Rfc3339.rfc3339_lt hrow.years hrow'.years hlt

/-- The latest row is the last one. -/
theorem latest_eq (h : Mirrors S store T) (order : Sqlite.Order) (threadId : String) :
    T.latest order threadId = (T.thread threadId).getLast? :=
  order.head_desc (h.sorted threadId)

theorem loadState_iff (h : Mirrors S store T) (order : Sqlite.Order) (now : Int) (threadId : String) :
    SameReply ((store.loadState (S := S) threadId).map Reply.loaded) ((T.loadState order now threadId).map .loaded) ↔
      ∀ cp, (store.rows threadId).getLast? = some cp → cp.Survives := by
  unfold Table.loadState
  rw [h.latest_eq]
  refine found_iff ?_ (fun hlast => ?_) (fun cp hlast => MemoryStore.loadState_of_last hlast) now
  · rcases forall₂_concat (h.rows threadId) with ⟨hnil, hnil'⟩ | ⟨l, cp, m, row, hl, hm, -, hrow⟩
    · rw [hnil, hnil']
      exact .none
    · rw [hl, hm, List.getLast?_concat, List.getLast?_concat]
      exact .some hrow
  · unfold MemoryStore.loadState
    rw [hlast]

theorem loadVersion_iff (h : Mirrors S store T) (now : Int) (threadId checkpointId : String) :
    SameReply ((store.loadVersion (S := S) threadId checkpointId).map Reply.loaded)
        ((T.loadVersion now threadId checkpointId).map .loaded) ↔
      ∀ cp, ((store.rows threadId).find? fun cp => cp.checkpointId == checkpointId) = some cp → cp.Survives := by
  unfold Table.loadVersion
  refine found_iff ?_ (fun hfound => ?_) (fun cp hfound => ?_) now
  · refine forall₂_find? (h.rows threadId) ?_
    intro cp row hrow
    rw [hrow.id]
  · unfold MemoryStore.loadVersion
    rw [hfound]
  · unfold MemoryStore.loadVersion
    rw [hfound]

theorem listCheckpoints_iff (h : Mirrors S store T) (order : Sqlite.Order) (now : Int) (threadId : String) :
    SameReply ((store.listCheckpoints threadId).map (Reply.listed (S := S)))
        ((T.listCheckpoints order now threadId).map .listed) ↔
      ∀ cp ∈ store.rows threadId, cp.Survives := by
  unfold Table.listCheckpoints
  rw [order.asc_eq (h.sorted threadId), ← mapM_rowMeta_iff (h.rows threadId) now]
  cases (T.thread threadId).mapM (rowMeta now threadId) with
  | error e => simp [MemoryStore.listCheckpoints, SameReply, Except.map]
  | ok infos => simp [MemoryStore.listCheckpoints, SameReply, Except.map, eq_comm]

end Mirrors

/-! ### Deleting -/

namespace Mirrors

variable {store : MemoryStore} {T : Table}

omit [Chrono.Documented] in
/-- What is shown for a deletion: the rows that stay are those of the checkpoints that stay. -/
theorem delete (h : Mirrors S store T) {p : Row → Bool} {kept : List MemoryCheckpoint}
    (hkept : kept.Sublist (store.rows threadId))
    (hrows : List.Forall₂ (Stored S threadId) kept ((T.delete threadId p).2.thread threadId)) :
    (T.delete threadId p).1 = (store.rows threadId).length - kept.length ∧
      Mirrors S (Function.update store threadId (some kept)) (T.delete threadId p).2 := by
  refine ⟨?_, h.update (fun t ht => Table.thread_delete_of_ne ht p) hrows ((h.times threadId).sublist hkept)⟩
  have hcount := T.delete_fst_add threadId p
  have hlen := (h.rows threadId).length_eq
  have hlen' := hrows.length_eq
  omega

theorem keepLast (h : Mirrors S store T) (order : Sqlite.Order) {n : Nat} (hn : n < 2 ^ 63) (now : Int)
    (threadId : String) :
    SameReply ((store.deleteCheckpoints threadId (.keepLast n) now).1.map (Reply.deleted (S := S)))
        ((T.deleteCheckpoints order threadId (.keepLast n) now).1.map .deleted) ∧
      Mirrors S (store.deleteCheckpoints threadId (.keepLast n) now).2
        (T.deleteCheckpoints order threadId (.keepLast n) now).2 := by
  have hthread := Table.thread_keepLast_of_sorted (h.sorted threadId) order n
  have hrows := List.forall₂_drop ((T.thread threadId).length - n) (h.rows threadId)
  rw [← hthread] at hrows
  obtain ⟨hcount, hmirrors⟩ := h.delete (List.drop_sublist _ _) hrows
  have hlen := (h.rows threadId).length_eq
  rw [List.length_drop, ← hlen] at hcount
  rw [← hlen] at hmirrors
  rw [Table.deleteCheckpoints_keepLast hn]
  unfold MemoryStore.deleteCheckpoints
  unfold MemoryStore.rows at hcount hlen hmirrors
  cases hs : store threadId with
  | none =>
    rw [hs] at hcount hmirrors
    refine ⟨congrArg Reply.deleted (by simpa using hcount.symm), hmirrors.congr (MemoryStore.rows_update_of_eq ?_)⟩
    simp [MemoryStore.rows_eq hs]
  | some list =>
    rw [hs, Option.getD_some] at hcount hmirrors
    dsimp only
    by_cases hlong : list.length > n
    · rw [if_pos hlong]
      exact ⟨congrArg Reply.deleted (by omega), hmirrors⟩
    · rw [if_neg hlong]
      rw [(by omega : list.length - n = 0), List.drop_zero] at hmirrors
      refine ⟨congrArg Reply.deleted (by omega), hmirrors.congr (MemoryStore.rows_update_of_eq ?_)⟩
      simp [MemoryStore.rows_eq hs]

theorem olderThan (h : Mirrors S store T) (order : Sqlite.Order) {d : Duration} {now : Int} (hnow : InYears now)
    (hd : d.nanos ≤ maxDuration) (hmin : Chrono.minUtc ≤ now - d.nanos) (threadId : String) :
    SameReply ((store.deleteCheckpoints threadId (.olderThan d) now).1.map (Reply.deleted (S := S)))
        ((T.deleteCheckpoints order threadId (.olderThan d) now).1.map .deleted) ∧
      Mirrors S (store.deleteCheckpoints threadId (.olderThan d) now).2
        (T.deleteCheckpoints order threadId (.olderThan d) now).2 := by
  have hcutoff : cutoff now d = .ok (now - d.nanos) := if_pos hd
  have hrows : List.Forall₂ (Stored S threadId)
      ((store.rows threadId).filter fun cp => decide (now - d.nanos ≤ cp.createdAt))
      ((T.delete threadId fun r => decide (r.createdAt < Chrono.toRfc3339 (now - d.nanos))).2.thread threadId) := by
    rw [Table.thread_delete_self]
    refine List.rel_filter ?_ (h.rows threadId)
    intro cp row hrow
    simp only [decide_eq_true_eq, Bool.not_eq_true', decide_eq_false_iff_not]
    rw [hrow.createdAt, Sqlite.toRfc3339_lt_iff hrow.years hnow (by omega) hmin]
    exact not_lt.symm
  obtain ⟨hcount, hmirrors⟩ := h.delete List.filter_sublist hrows
  unfold Table.deleteCheckpoints MemoryStore.deleteCheckpoints
  simp only [hcutoff]
  unfold MemoryStore.rows at hcount hmirrors
  cases hs : store threadId with
  | none =>
    rw [hs] at hcount hmirrors
    refine ⟨congrArg Reply.deleted hcount.symm, hmirrors.congr (MemoryStore.rows_update_of_eq ?_)⟩
    simp [MemoryStore.rows_eq hs]
  | some list =>
    rw [hs, Option.getD_some] at hcount hmirrors
    exact ⟨congrArg Reply.deleted hcount.symm, hmirrors⟩

end Mirrors

end

end Takeln
