import Mathlib.Data.List.Forall2
import Takeln.Stores.Locked
import Takeln.Stores.Mirrors

/-!
# The history of a thread

The checkpoints of a thread that were saved and not deleted (`kept`) are the rows of the in-memory store, in the order
of the saves; a row differs from what was saved only by the one claim of its own request.  `list_checkpoints` and
`load_version` show this after every call of a sequence, unless one of them has panicked (`history_immutable_iff`).
-/

namespace Takeln

open Sqlite (Chrono Save)

section

variable {S : Type}

/-! ### What was saved and not deleted -/

/-- The elements of a list in the order of time that a retention policy keeps. -/
def RetentionPolicy.retain {α : Type} (time : α → Int) (now : Int) (l : List α) : RetentionPolicy → List α
  | keepAll => l
  | keepLast n => l.drop (l.length - n)
  | olderThan d => l.filter fun a => decide (now - d.nanos ≤ time a)

/-- The saves of a thread that are kept, after one more call. -/
def keep (threadId : String) (saves : List (Save S)) (e : StoreCall S × Ending S) : List (Save S) :=
  match e.1.op, e.2 with
  | .saveState args, .returned (.ok (.saved id)) =>
    if args.threadId = threadId then saves ++ [⟨id, e.1.now, args⟩] else saves
  | .deleteCheckpoints t policy, .returned (.ok _) =>
    if t = threadId then policy.retain Save.now e.1.now saves else saves
  | _, _ => saves

/-- The saves of a thread that succeeded and were not deleted since. -/
def kept (threadId : String) (log : List (StoreCall S × Ending S)) : List (Save S) := log.foldl (keep threadId) []

theorem kept_concat (threadId : String) (log : List (StoreCall S × Ending S)) (e : StoreCall S × Ending S) :
    kept threadId (log ++ [e]) = keep threadId (kept threadId log) e := by
  simp [kept]

/-- The metadata of a checkpoint: as it was saved, or after the claim of a request. -/
def saveMeta (threadId : String) (s : Save S) (claim : Option YieldRequest) : CheckpointMeta where
  checkpointId := s.id
  threadId := threadId
  nextNode := s.args.nextNode
  status := if claim.isSome then .running else s.args.status
  createdAt := s.now
  yieldRequest := s.args.yieldRequest
  claimedInterrupt := (claim.map YieldRequest.interruptId).or s.args.claimedInterrupt
  resolvedInterrupt := s.args.resolvedInterrupt

variable [State S] [Chrono]

/-- The store after `k` of some calls. -/
def storeAt (calls : List (StoreCall S)) (k : Nat) : LockedStore := LockedStore.new.after (calls.take k)

/-- The saves of a thread that are kept after `k` of some calls. -/
def keptAt (calls : List (StoreCall S)) (threadId : String) (k : Nat) : List (Save S) :=
  kept threadId (LockedStore.new.log (calls.take k))

/-- The call number `j` claimed the request of a save. -/
def ClaimedBy (calls : List (StoreCall S)) (threadId : String) (s : Save S) (j : Nat) (request : YieldRequest) : Prop :=
  s.args.status = .yielded ∧ s.args.yieldRequest = some request ∧
    ∃ c, calls[j]? = some c ∧ c.op = .claimInterrupt threadId request.interruptId ∧
      ((storeAt calls j).answer c).1 = .returned (.ok (.claimed .claimed))

/-- The request that was claimed by one of the first `k` calls. -/
def claimBefore (claim : Option (Nat × YieldRequest)) (k : Nat) : Option YieldRequest :=
  (claim.filter fun x => decide (x.1 < k)).map Prod.snd

/-- After each call `list_checkpoints` lists the checkpoints of the thread that were saved and not deleted, in the order
of their saves, and `load_version` returns each of them as it was saved, up to one claim of its own request. -/
structure HistoryImmutable (calls : List (StoreCall S)) (threadId : String) : Prop where
  listed (k : Nat) (c : StoreCall S) : k ≤ calls.length → c.op = .listCheckpoints threadId →
    ∃ infos, ((storeAt calls k).answer c).1 = .returned (.ok (.listed infos)) ∧
      infos.map CheckpointMeta.checkpointId = (keptAt calls threadId k).map Save.id ∧
      (infos.map CheckpointMeta.checkpointId).Sublist ((calls.take k).filterMap StoreCall.savedId)
  version (s : Save S) : ∃ claim : Option (Nat × YieldRequest),
    (∀ j request, claim = some (j, request) → ClaimedBy calls threadId s j request) ∧
      ∀ (k : Nat) (c : StoreCall S), k ≤ calls.length → s ∈ keptAt calls threadId k →
        c.op = .loadVersion threadId s.id →
        ((storeAt calls k).answer c).1 =
          .returned (.ok (.loaded (some ⟨s.args.state, saveMeta threadId s (claimBefore claim k), s.args.dag⟩)))

/-! ### Rows -/

omit [Chrono] in
/-- The row of a save, claimed for a request or not. -/
structure RowOf (threadId : String) (s : Save S) (claim : Option YieldRequest) (cp : MemoryCheckpoint) : Prop where
  value : State.toValue s.args.state = .ok cp.state
  info : cp.toMeta threadId = saveMeta threadId s claim
  dag : cp.dag = s.args.dag

end

section

variable {S : Type} [State S] {threadId : String}

theorem RowOf.load [RoundTrip S] {s : Save S} {claim : Option YieldRequest} {cp : MemoryCheckpoint}
    (h : RowOf threadId s claim cp) :
    cp.load threadId = .ok ⟨s.args.state, saveMeta threadId s claim, s.args.dag⟩ :=
  MemoryCheckpoint.load_eq_ok_iff.2 ⟨RoundTrip.fromValue_toValue h.value, h.info.symm, h.dag.symm⟩

theorem RowOf.id {s : Save S} {claim : Option YieldRequest} {cp : MemoryCheckpoint} (h : RowOf threadId s claim cp) :
    cp.checkpointId = s.id := congrArg CheckpointMeta.checkpointId h.info

theorem RowOf.createdAt {s : Save S} {claim : Option YieldRequest} {cp : MemoryCheckpoint}
    (h : RowOf threadId s claim cp) : cp.createdAt = s.now := congrArg CheckpointMeta.createdAt h.info

/-- The row that a save appends. -/
theorem rowOf_ofSave (id : String) (now : Int) {args : SaveArgs S} {v : Value} (h : State.toValue args.state = .ok v) :
    RowOf threadId ⟨id, now, args⟩ none (.ofSave id now v args) where
  value := h
  info := by simp [MemoryCheckpoint.toMeta, MemoryCheckpoint.ofSave, saveMeta]
  dag := rfl

/-- An unclaimed row, claimed for the request of its save. -/
theorem RowOf.claim {s : Save S} {request : YieldRequest} {cp : MemoryCheckpoint} (h : RowOf threadId s none cp) :
    RowOf threadId s (some request) (cp.claimedFor request.interruptId) where
  value := h.value
  info := by
    have hinfo := h.info
    simp only [MemoryCheckpoint.toMeta, saveMeta, CheckpointMeta.mk.injEq] at hinfo
    simp [MemoryCheckpoint.toMeta, MemoryCheckpoint.claimedFor, saveMeta, hinfo]
  dag := h.dag

/-- A row of a yielded checkpoint is unclaimed. -/
theorem RowOf.unclaimed {s : Save S} {claim : Option YieldRequest} {cp : MemoryCheckpoint}
    (h : RowOf threadId s claim cp) (hstatus : cp.status = .yielded) : claim = none ∧ s.args.status = .yielded := by
  have hinfo : cp.status = _ := congrArg CheckpointMeta.status h.info
  rw [hstatus] at hinfo
  cases claim with
  | none => exact ⟨rfl, hinfo.symm⟩
  | some request => cases hinfo

/-! ### One call -/

omit [State S] in
theorem forall₂_retain {α β : Type} {R : α → β → Prop} {time : α → Int} {time' : β → Int} {l : List α} {m : List β}
    (h : List.Forall₂ R l m) (htime : ∀ a b, R a b → time a = time' b) (policy : RetentionPolicy) (now : Int) :
    List.Forall₂ R (policy.retain time now l) (policy.retain time' now m) := by
  cases policy with
  | keepAll => exact h
  | keepLast n =>
    unfold RetentionPolicy.retain
    rw [h.length_eq]
    exact List.forall₂_drop _ h
  | olderThan d =>
    refine List.rel_filter ?_ h
    intro a b hab
    dsimp only
    rw [htime a b hab]

omit [State S] in
theorem retain_sublist {α : Type} (time : α → Int) (now : Int) (l : List α) (policy : RetentionPolicy) :
    (policy.retain time now l).Sublist l := by
  cases policy with
  | keepAll => exact .refl l
  | keepLast n => exact List.drop_sublist _ l
  | olderThan d => exact List.filter_sublist

omit [State S] in
/-- A deletion fails and leaves the rows alone, or leaves what its policy keeps. -/
theorem MemoryStore.rows_deleteCheckpoints (store : MemoryStore) (t : String) (policy : RetentionPolicy) (now : Int)
    (threadId : String) :
    ((∃ e, (store.deleteCheckpoints t policy now).1 = .error e) ∧
        (store.deleteCheckpoints t policy now).2.rows threadId = store.rows threadId) ∨
      (∃ count, (store.deleteCheckpoints t policy now).1 = .ok count) ∧
        (store.deleteCheckpoints t policy now).2.rows threadId =
          if t = threadId then policy.retain MemoryCheckpoint.createdAt now (store.rows threadId)
          else store.rows threadId := by
  -- a policy that may delete something, and one that keeps everything
  have hupdate {list kept : List MemoryCheckpoint} (hlist : store.rows t = list)
      (hkept : policy.retain MemoryCheckpoint.createdAt now list = kept) :
      MemoryStore.rows (Function.update store t (some kept)) threadId =
        if t = threadId then policy.retain MemoryCheckpoint.createdAt now (store.rows threadId)
        else store.rows threadId := by
    rw [MemoryStore.rows_update]
    by_cases ht : t = threadId
    · rw [if_pos ht, if_pos ht.symm, ← hkept, ← hlist, ht]
    · rw [if_neg ht, if_neg (Ne.symm ht)]
  have hall {list : List MemoryCheckpoint} (hlist : store.rows t = list)
      (hkept : policy.retain MemoryCheckpoint.createdAt now list = list) :
      store.rows threadId = if t = threadId then policy.retain MemoryCheckpoint.createdAt now (store.rows threadId)
        else store.rows threadId := by
    by_cases ht : t = threadId
    · rw [if_pos ht, ← ht, hlist, hkept]
    · rw [if_neg ht]
  unfold MemoryStore.deleteCheckpoints
  cases hs : store t with
  | none =>
    refine Or.inr ⟨⟨0, rfl⟩, hall (MemoryStore.rows_eq hs) ?_⟩
    cases policy <;> simp [RetentionPolicy.retain]
  | some list =>
    have hrows : store.rows t = list := MemoryStore.rows_eq hs
    cases policy with
    | keepAll => exact Or.inr ⟨⟨0, rfl⟩, hall hrows rfl⟩
    | keepLast n =>
      dsimp only
      split
      · exact Or.inr ⟨⟨_, rfl⟩, hupdate hrows rfl⟩
      · refine Or.inr ⟨⟨_, rfl⟩, hall hrows ?_⟩
        simp [RetentionPolicy.retain, (by omega : list.length - n = 0)]
    | olderThan d =>
      dsimp only
      cases hcutoff : cutoff now d with
      | error e => exact Or.inl ⟨⟨e, rfl⟩, rfl⟩
      | ok time =>
        have htime : time = now - d.nanos := by
          unfold cutoff at hcutoff
          split at hcutoff
          · cases hcutoff
            rfl
          · cases hcutoff
        exact Or.inr ⟨⟨_, rfl⟩, hupdate hrows (by rw [htime]; rfl)⟩

/-- The rows of a thread are those of some saves. -/
abbrev RowsOf (threadId : String) (claimOf : Save S → Option YieldRequest) (saves : List (Save S))
    (rows : List MemoryCheckpoint) : Prop :=
  List.Forall₂ (fun s cp => RowOf threadId s (claimOf s) cp) saves rows

section

variable {store : MemoryStore} {c : StoreCall S} {claimOf : Save S → Option YieldRequest} {saves : List (Save S)}

theorem RowsOf.save (h : RowsOf threadId claimOf saves (store.rows threadId)) {args : SaveArgs S}
    (hop : c.op = .saveState args) (hnew : claimOf ⟨c.id, c.now, args⟩ = none) :
    RowsOf threadId claimOf (keep threadId saves (c, .returned (store.answer c).1))
      ((store.answer c).2.rows threadId) := by
  unfold keep
  simp only [hop, MemoryStore.answer, MemoryStore.saveState]
  cases hvalue : State.toValue args.state with
  | error e => exact h
  | ok v =>
    dsimp only [Except.map]
    rw [MemoryStore.rows_update]
    by_cases ht : args.threadId = threadId
    · rw [if_pos ht, if_pos ht.symm, ht]
      refine List.rel_append h (.cons ?_ .nil)
      rw [hnew]
      exact rowOf_ofSave c.id c.now hvalue
    · rw [if_neg ht, if_neg (Ne.symm ht)]
      exact h

theorem RowsOf.delete (h : RowsOf threadId claimOf saves (store.rows threadId)) {t : String} {policy : RetentionPolicy}
    (hop : c.op = .deleteCheckpoints t policy) :
    RowsOf threadId claimOf (keep threadId saves (c, .returned (store.answer c).1))
      ((store.answer c).2.rows threadId) := by
  unfold keep
  simp only [hop, MemoryStore.answer]
  rcases MemoryStore.rows_deleteCheckpoints store t policy c.now threadId with
    ⟨⟨e, hresult⟩, hrows⟩ | ⟨⟨count, hresult⟩, hrows⟩
  · rw [hresult, hrows]
    exact h
  · rw [hresult, hrows]
    dsimp only [Except.map]
    by_cases ht : t = threadId
    · rw [if_pos ht, if_pos ht]
      exact forall₂_retain h (fun s cp hs => hs.createdAt.symm) policy c.now
    · rw [if_neg ht, if_neg ht]
      exact h

/-- A claim leaves the rows alone, or claims the request of the save of the last one. -/
theorem RowsOf.claimInterrupt (h : RowsOf threadId claimOf saves (store.rows threadId)) {t i : String}
    (hop : c.op = .claimInterrupt t i) :
    keep threadId saves (c, .returned (store.answer c).1) = saves ∧
      (RowsOf threadId claimOf saves ((store.answer c).2.rows threadId) ∨
        ∃ ss s request rs cp, saves = ss ++ [s] ∧ claimOf s = none ∧ s.args.status = .yielded ∧
          s.args.yieldRequest = some request ∧ t = threadId ∧ i = request.interruptId ∧
          (store.answer c).1 = .ok (.claimed .claimed) ∧ RowsOf threadId claimOf ss rs ∧
          RowOf threadId s (some request) cp ∧ (store.answer c).2.rows threadId = rs ++ [cp]) := by
  refine ⟨by simp [keep, hop], ?_⟩
  have hstore := MemoryStore.claimInterrupt_store store t i
  simp only [MemoryStore.answer, hop]
  by_cases hclaimed : (store.claimInterrupt t i).1 = .ok .claimed
  · rw [if_pos hclaimed] at hstore
    rw [hstore, MemoryStore.rows_update]
    by_cases ht : threadId = t
    · subst ht
      right
      obtain ⟨-, last, hlast, hstatus, request, hrequest, hid⟩ := MemoryStore.claimInterrupt_claimed_iff.1 hclaimed
      rcases forall₂_concat h with ⟨-, hrows⟩ | ⟨ss, s, rs, cp, rfl, hrows, hrest, hcp⟩
      · simp [hrows] at hlast
      · rw [hrows] at hlast
        obtain rfl : cp = last := by simpa using hlast
        obtain ⟨hnone, hyielded⟩ := hcp.unclaimed hstatus
        rw [hnone] at hcp
        have hsaved : s.args.yieldRequest = some request :=
          (congrArg CheckpointMeta.yieldRequest hcp.info).symm.trans hrequest
        subst hid
        refine ⟨ss, s, request, rs, _, rfl, hnone, hyielded, hsaved, rfl, rfl,
          by rw [hclaimed]; rfl, hrest, hcp.claim, ?_⟩
        simp [claimLast, hrows]
    · left
      rw [if_neg ht]
      exact h
  · rw [if_neg hclaimed] at hstore
    rw [hstore]
    exact Or.inl h

theorem RowsOf.ids {rows : List MemoryCheckpoint} (h : RowsOf threadId claimOf saves rows) :
    rows.map MemoryCheckpoint.checkpointId = saves.map Save.id := by
  induction h with
  | nil => rfl
  | cons hs _ ih => rw [List.map_cons, List.map_cons, hs.id, ih]

/-- The row of a save is found by its id. -/
theorem RowsOf.find? {rows : List MemoryCheckpoint} (h : RowsOf threadId claimOf saves rows)
    (hids : (saves.map Save.id).Nodup) {s : Save S} (hs : s ∈ saves) :
    ∃ cp, (rows.find? fun cp => cp.checkpointId == s.id) = some cp ∧ RowOf threadId s (claimOf s) cp := by
  have hrel := forall₂_find? (p := fun s' => s'.id == s.id) (q := fun cp => cp.checkpointId == s.id) h
    fun s' cp hcp => by rw [hcp.id]
  cases hsave : saves.find? fun s' => s'.id == s.id with
  | none =>
    rw [List.find?_eq_none] at hsave
    exact absurd (by simp) (hsave s hs)
  | some s' =>
    have hid : s'.id = s.id := by simpa using List.find?_some hsave
    obtain rfl : s' = s := List.inj_on_of_nodup_map hids (List.mem_of_find?_eq_some hsave) hs hid
    rw [hsave] at hrel
    generalize rows.find? _ = row at hrel ⊢
    cases hrel with
    | some hcp => exact ⟨_, rfl, hcp⟩

/-- The ids of the kept saves are in the order of the calls. -/
theorem keep_sublist {ids : List String} (h : (saves.map Save.id).Sublist ids) (store : MemoryStore) (c : StoreCall S) :
    ((keep threadId saves (c, .returned (store.answer c).1)).map Save.id).Sublist (ids ++ c.savedId.toList) := by
  have hsame : (saves.map Save.id).Sublist (ids ++ c.savedId.toList) := h.trans (List.sublist_append_left _ _)
  unfold keep
  cases hop : c.op with
  | saveState args =>
    simp only [MemoryStore.answer, hop, MemoryStore.saveState]
    cases hvalue : State.toValue args.state with
    | error e => exact hsame
    | ok v =>
      dsimp only [Except.map]
      split
      · rw [List.map_append, List.map_singleton]
        refine h.append ?_
        simp [StoreCall.savedId, hop]
      · exact hsame
  | deleteCheckpoints t policy =>
    simp only [MemoryStore.answer, hop]
    cases (store.deleteCheckpoints t policy c.now).1 with
    | error e => exact hsame
    | ok count =>
      dsimp only [Except.map]
      split
      · exact ((retain_sublist Save.now c.now saves policy).map Save.id).trans hsame
      · exact hsame
  | _ => exact hsame

end

end

/-! ### All calls -/

section

variable {S : Type} [State S] [Chrono] {threadId : String} {calls : List (StoreCall S)}

theorem storeAt_append {k : Nat} (hk : k ≤ calls.length) (more : List (StoreCall S)) :
    storeAt (calls ++ more) k = storeAt calls k := by
  unfold storeAt
  rw [List.take_append_of_le_length hk]

theorem keptAt_append {k : Nat} (hk : k ≤ calls.length) (more : List (StoreCall S)) :
    keptAt (calls ++ more) threadId k = keptAt calls threadId k := by
  unfold keptAt
  rw [List.take_append_of_le_length hk]

theorem storeAt_length : storeAt calls calls.length = LockedStore.new.after calls := by
  rw [storeAt, List.take_length]

/-- The store and the kept saves after one more call, unless it panics. -/
theorem storeAt_concat (threadId : String) {c : StoreCall S} (h : PanicFree (calls ++ [c])) :
    (storeAt (calls ++ [c]) (calls.length + 1)).store = ((storeAt calls calls.length).store.answer c).2 ∧
      keptAt (calls ++ [c]) threadId (calls.length + 1) =
        keep threadId (keptAt calls threadId calls.length)
          (c, .returned ((storeAt calls calls.length).store.answer c).1) ∧
      ((storeAt calls calls.length).answer c).1 = .returned ((storeAt calls calls.length).store.answer c).1 := by
  obtain ⟨hcalls, hc⟩ := panicFree_concat.1 h
  have hfree := LockedStore.poisoned_eq_false_iff.2 hcalls
  have hrange := mt (LockedStore.overflows_iff hfree c).1 hc
  have hanswer := LockedStore.answer_of_sound hfree hrange
  have hlength : (calls ++ [c]).length = calls.length + 1 := by simp
  refine ⟨?_, ?_, ?_⟩
  · rw [← hlength, storeAt_length, storeAt_length, LockedStore.after_concat, hanswer]
  · rw [← hlength, storeAt_length]
    unfold keptAt
    rw [List.take_length, List.take_length, LockedStore.log_concat, kept_concat, hanswer]
  · rw [storeAt_length, hanswer]

theorem ClaimedBy.append {s : Save S} {j : Nat} {request : YieldRequest} (h : ClaimedBy calls threadId s j request)
    (more : List (StoreCall S)) : ClaimedBy (calls ++ more) threadId s j request := by
  obtain ⟨hstatus, hrequest, c, hc, hop, hclaimed⟩ := h
  have hj : j < calls.length := (List.getElem?_eq_some_iff.1 hc).1
  refine ⟨hstatus, hrequest, c, ?_, hop, ?_⟩
  · rw [List.getElem?_append_left hj]
    exact hc
  · rw [storeAt_append (Nat.le_of_lt hj)]
    exact hclaimed

/-- Which call claimed the request of which save, so that after each call the rows of a thread are those of its kept
saves. -/
structure Tracks (calls : List (StoreCall S)) (threadId : String) (claims : Save S → Option (Nat × YieldRequest)) :
    Prop where
  claimed {s : Save S} {j : Nat} {request : YieldRequest} : claims s = some (j, request) →
    ClaimedBy calls threadId s j request ∧ s.id ∈ calls.filterMap StoreCall.savedId
  rows {k : Nat} : k ≤ calls.length → RowsOf threadId (fun s => claimBefore (claims s) k) (keptAt calls threadId k)
    ((storeAt calls k).store.rows threadId)
  ids {k : Nat} : k ≤ calls.length →
    ((keptAt calls threadId k).map Save.id).Sublist ((calls.take k).filterMap StoreCall.savedId)

namespace Tracks

variable {claims : Save S → Option (Nat × YieldRequest)}

theorem lt_length (h : Tracks calls threadId claims) {s : Save S} {j : Nat} {request : YieldRequest}
    (hs : claims s = some (j, request)) : j < calls.length := by
  obtain ⟨⟨-, -, c, hc, -⟩, -⟩ := h.claimed hs
  exact (List.getElem?_eq_some_iff.1 hc).1

/-- Claims that are known stay. -/
theorem claimBefore_succ (h : Tracks calls threadId claims) (s : Save S) :
    claimBefore (claims s) (calls.length + 1) = claimBefore (claims s) calls.length := by
  unfold claimBefore
  cases hs : claims s with
  | none => rfl
  | some x =>
    obtain ⟨j, request⟩ := x
    have := h.lt_length hs
    simp [Option.filter, this, (by omega : j < calls.length + 1)]

/-- A save that no call has claimed. -/
theorem claims_eq_none (h : Tracks calls threadId claims) {s : Save S}
    (hs : claimBefore (claims s) calls.length = none) : claims s = none := by
  cases hclaim : claims s with
  | none => rfl
  | some x =>
    obtain ⟨j, request⟩ := x
    have := h.lt_length hclaim
    simp [claimBefore, hclaim, Option.filter, this] at hs

theorem nil : Tracks ([] : List (StoreCall S)) threadId fun _ => none where
  claimed h := by cases h
  rows {k} hk := by
    simp [keptAt, storeAt, kept, LockedStore.log, LockedStore.new, MemoryStore.rows, RowsOf]
  ids {k} hk := by simp [keptAt, kept, LockedStore.log]

/-- One more call, if the claims it adds are its own. -/
theorem concat_of {claims' : Save S → Option (Nat × YieldRequest)} (h : Tracks calls threadId claims) {c : StoreCall S}
    (hfree : PanicFree (calls ++ [c])) (hsame : ∀ s k, k ≤ calls.length →
      claimBefore (claims' s) k = claimBefore (claims s) k)
    (hclaimed : ∀ {s j request}, claims' s = some (j, request) →
      ClaimedBy (calls ++ [c]) threadId s j request ∧ s.id ∈ (calls ++ [c]).filterMap StoreCall.savedId)
    (hrows : RowsOf threadId (fun s => claimBefore (claims' s) (calls.length + 1))
      (keep threadId (keptAt calls threadId calls.length)
        (c, .returned ((storeAt calls calls.length).store.answer c).1))
      (((storeAt calls calls.length).store.answer c).2.rows threadId)) :
    Tracks (calls ++ [c]) threadId claims' := by
  obtain ⟨hstore, hkept, -⟩ := storeAt_concat threadId hfree
  have hlength : (calls ++ [c]).length = calls.length + 1 := by simp
  refine ⟨hclaimed, fun {k} hk => ?_, fun {k} hk => ?_⟩
  · by_cases hlast : k ≤ calls.length
    · rw [keptAt_append hlast, storeAt_append hlast]
      unfold RowsOf
      simp only [hsame _ k hlast]
      exact h.rows hlast
    · obtain rfl : k = calls.length + 1 := by omega
      rw [hstore, hkept]
      exact hrows
  · by_cases hlast : k ≤ calls.length
    · rw [keptAt_append hlast, List.take_append_of_le_length hlast]
      exact h.ids hlast
    · obtain rfl : k = calls.length + 1 := by omega
      have hids := h.ids (k := calls.length) le_rfl
      rw [List.take_length] at hids
      rw [hkept, ← hlength, List.take_length, List.filterMap_append]
      refine (keep_sublist hids _ c).trans ?_
      rw [List.filterMap_cons]
      cases c.savedId <;> simp

/-- One more call that claims nothing on the thread. -/
theorem concat_same (h : Tracks calls threadId claims) {c : StoreCall S} (hfree : PanicFree (calls ++ [c]))
    (hrows : RowsOf threadId (fun s => claimBefore (claims s) calls.length)
      (keep threadId (keptAt calls threadId calls.length)
        (c, .returned ((storeAt calls calls.length).store.answer c).1))
      (((storeAt calls calls.length).store.answer c).2.rows threadId)) :
    Tracks (calls ++ [c]) threadId claims := by
  refine h.concat_of hfree (fun _ _ _ => rfl) (fun hs => ?_) ?_
  · obtain ⟨hclaim, hid⟩ := h.claimed hs
    refine ⟨hclaim.append [c], ?_⟩
    rw [List.filterMap_append]
    exact List.mem_append_left _ hid
  · simp only [h.claimBefore_succ]
    exact hrows

/-- One more call that claims the request of the last kept save. -/
theorem concat_claim (h : Tracks calls threadId claims) {c : StoreCall S} (hfree : PanicFree (calls ++ [c]))
    (hids : (calls.filterMap StoreCall.savedId).Nodup) {ss : List (Save S)} {s : Save S} {request : YieldRequest}
    {rs : List MemoryCheckpoint} {cp : MemoryCheckpoint} (hsaves : keptAt calls threadId calls.length = ss ++ [s])
    (hnone : claimBefore (claims s) calls.length = none)
    (hclaim : ClaimedBy (calls ++ [c]) threadId s calls.length request)
    (hkeep : keep threadId (keptAt calls threadId calls.length)
      (c, .returned ((storeAt calls calls.length).store.answer c).1) = keptAt calls threadId calls.length)
    (hrest : RowsOf threadId (fun s => claimBefore (claims s) calls.length) ss rs)
    (hcp : RowOf threadId s (some request) cp)
    (hlast : ((storeAt calls calls.length).store.answer c).2.rows threadId = rs ++ [cp]) :
    ∃ claims', Tracks (calls ++ [c]) threadId claims' := by
  classical
  have hkept := h.ids (k := calls.length) le_rfl
  rw [List.take_length, hsaves, List.map_append] at hkept
  have hunclaimed := h.claims_eq_none hnone
  refine ⟨fun s' => if s' = s then some (calls.length, request) else claims s',
    h.concat_of hfree (fun s' k hk => ?_) (fun {s' j request'} hs' => ?_) ?_⟩
  · by_cases hs : s' = s
    · simp [hs, hunclaimed, claimBefore, Option.filter, hk]
    · rw [if_neg hs]
  · rw [List.filterMap_append]
    by_cases hs : s' = s
    · rw [if_pos hs] at hs'
      cases hs'
      subst hs
      exact ⟨hclaim, List.mem_append_left _ (hkept.subset (by simp))⟩
    · rw [if_neg hs] at hs'
      obtain ⟨hclaim', hid⟩ := h.claimed hs'
      exact ⟨hclaim'.append [c], List.mem_append_left _ hid⟩
  · -- the other saves have other ids
    have hother : ∀ s' ∈ ss, s' ≠ s := by
      intro s' hs' heq
      have hnodup := List.nodup_append.1 (hkept.nodup hids)
      exact hnodup.2.2 _ (List.mem_map_of_mem hs') _ (by simp) (congrArg Save.id heq)
    have hrest' := (List.forall₂_and_left ss rs).2 ⟨hother, hrest⟩
    rw [hkeep, hsaves, hlast]
    refine List.rel_append (hrest'.imp fun s' cp' hs' => ?_) (.cons ?_ .nil)
    · dsimp only
      rw [if_neg hs'.1, h.claimBefore_succ]
      exact hs'.2
    · simpa [claimBefore, Option.filter] using hcp

/-- Whatever a call does, the rows of the thread stay those of its kept saves. -/
theorem concat (h : Tracks calls threadId claims) {c : StoreCall S} (hfree : PanicFree (calls ++ [c]))
    (hids : ((calls ++ [c]).filterMap StoreCall.savedId).Nodup) :
    ∃ claims', Tracks (calls ++ [c]) threadId claims' := by
  have hrows := h.rows (k := calls.length) le_rfl
  rw [List.filterMap_append] at hids
  cases hop : c.op with
  | saveState args =>
    have hid : c.savedId = some c.id := by simp [StoreCall.savedId, hop]
    refine ⟨claims, h.concat_same hfree (hrows.save hop ?_)⟩
    -- the id of the new save is fresh, so no call has claimed it
    cases hclaims : claims ⟨c.id, c.now, args⟩ with
    | none => rfl
    | some x =>
      obtain ⟨-, hold⟩ := h.claimed hclaims
      rw [List.filterMap_cons_some hid, List.nodup_append] at hids
      exact absurd rfl (hids.2.2 _ hold _ List.mem_cons_self)
  | deleteCheckpoints t policy => exact ⟨claims, h.concat_same hfree (hrows.delete hop)⟩
  | claimInterrupt t i =>
    obtain ⟨hkeep, hrows' | ⟨ss, s, request, rs, cp, hsaves, hnone, hstatus, hrequest, rfl, rfl, hanswer, hrest,
      hcp, hlast⟩⟩ :=
      hrows.claimInterrupt hop
    · exact ⟨claims, h.concat_same hfree (hkeep.symm ▸ hrows')⟩
    · refine h.concat_claim hfree hids.of_append_left hsaves hnone ⟨hstatus, hrequest, c, by simp, hop, ?_⟩ hkeep hrest
        hcp hlast
      obtain ⟨-, -, hsame⟩ := storeAt_concat t hfree
      rw [storeAt_append le_rfl, hsame, hanswer]
  | loadState t => exact ⟨claims, h.concat_same hfree (by simpa [keep, hop, MemoryStore.answer] using hrows)⟩
  | loadVersion t id => exact ⟨claims, h.concat_same hfree (by simpa [keep, hop, MemoryStore.answer] using hrows)⟩
  | listCheckpoints t => exact ⟨claims, h.concat_same hfree (by simpa [keep, hop, MemoryStore.answer] using hrows)⟩

end Tracks

/-- In a sequence of calls that do not panic, the rows of a thread are those of its kept saves. -/
theorem exists_tracks (hfree : PanicFree calls) (hids : (calls.filterMap StoreCall.savedId).Nodup) (threadId : String) :
    ∃ claims, Tracks calls threadId claims := by
  induction calls using List.reverseRecOn with
  | nil => exact ⟨_, .nil⟩
  | append_singleton cs c ih =>
    have hids' := hids
    rw [List.filterMap_append] at hids'
    obtain ⟨claims, h⟩ := ih (panicFree_concat.1 hfree).1 hids'.of_append_left
    exact h.concat hfree hids

/-- A call that reads is answered by the store. -/
theorem answer_read (hfree : PanicFree calls) {k : Nat} {c : StoreCall S}
    (hread : ¬ (storeAt calls k).store.Overflows c) :
    ((storeAt calls k).answer c).1 = .returned ((storeAt calls k).store.answer c).1 := by
  have hprefix : PanicFree (calls.take k) := by
    rw [← List.take_append_drop k calls] at hfree
    exact fun before c after h => hfree before c (after ++ calls.drop k) (by rw [h]; simp)
  have hfree' : (storeAt calls k).poisoned = false := LockedStore.poisoned_eq_false_iff.2 hprefix
  rw [LockedStore.answer_of_sound hfree' hread]

/-- After a panic `list_checkpoints` fails. -/
theorem panicFree_of_immutable (h : ∀ threadId, HistoryImmutable calls threadId) : PanicFree calls := by
  rw [← LockedStore.poisoned_eq_false_iff, ← Bool.not_eq_true]
  intro hpoisoned
  let list : StoreCall S := ⟨.listCheckpoints "", "", 0, .stable _, .stable _⟩
  obtain ⟨infos, hlisted, -⟩ := (h "").listed calls.length list le_rfl rfl
  obtain ⟨⟨e, herror⟩, -⟩ := LockedStore.answer_of_poisoned (c := list) hpoisoned
  rw [storeAt_length, herror] at hlisted
  cases hlisted

/-- The in-memory checkpointer never changes history, but for one claim of a request, exactly as long as no call
panics. -/
theorem history_immutable_iff [RoundTrip S] (calls : List (StoreCall S))
    (hids : (calls.filterMap StoreCall.savedId).Nodup) :
    (∀ threadId, HistoryImmutable calls threadId) ↔ PanicFree calls := by
  refine ⟨panicFree_of_immutable, fun hfree threadId => ?_⟩
  obtain ⟨claims, h⟩ := exists_tracks hfree hids threadId
  refine ⟨fun k c hk hop => ?_, fun s => ⟨claims s, fun j request hs => (h.claimed hs).1, fun k c hk hs hop => ?_⟩⟩
  · rw [answer_read hfree (by simp [MemoryStore.Overflows, hop])]
    have hmap : ∀ rows : List MemoryCheckpoint, ((rows.map fun cp => cp.toMeta threadId).map
        CheckpointMeta.checkpointId) = rows.map MemoryCheckpoint.checkpointId := by
      intro rows
      rw [List.map_map]
      rfl
    refine ⟨_, by simp [MemoryStore.answer, hop, MemoryStore.listCheckpoints, Except.map]; rfl, ?_⟩
    rw [hmap, (h.rows hk).ids]
    exact ⟨rfl, h.ids hk⟩
  · have hnodup := (h.ids hk).nodup (hids.sublist ((List.take_sublist k calls).filterMap _))
    obtain ⟨cp, hfind, hcp⟩ := (h.rows hk).find? hnodup hs
    rw [answer_read hfree (by simp [MemoryStore.Overflows, hop])]
    simp only [MemoryStore.answer, hop, MemoryStore.loadVersion, hfind, hcp.load]
    rfl

end

section Examples

attribute [local instance] Sqlite.utcTimes

/-- Yield, claim, and delete what is older than a second. -/
def claimedHistory : List (StoreCall Bool) :=
  [callAt (.saveState (yielded (.simple "q"))) "c0" 0, callAt (.claimInterrupt "t" "q") "" 0,
    callAt (.deleteCheckpoints "t" (.olderThan ⟨1000000000⟩)) "" 0]

theorem history_immutable_claimed :
    PanicFree claimedHistory ∧ ∀ threadId, HistoryImmutable claimedHistory threadId := by
  have hfree : PanicFree claimedHistory := LockedStore.poisoned_eq_false_iff.1 (by decide +kernel)
  exact ⟨hfree, (history_immutable_iff claimedHistory (by decide)).2 hfree⟩

/-- Yield, and delete what is older than some 300000 years. -/
def panickedHistory : List (StoreCall Bool) :=
  [callAt (.saveState (yielded (.simple "q"))) "c0" 0,
    callAt (.deleteCheckpoints "t" (.olderThan ⟨10000000000000000000000⟩)) "" 0]

theorem history_immutable_false :
    (panickedHistory.filterMap StoreCall.savedId).Nodup ∧ ¬ ∀ threadId, HistoryImmutable panickedHistory threadId := by
  refine ⟨by decide, fun h => ?_⟩
  have hfree := LockedStore.poisoned_eq_false_iff.2 (panicFree_of_immutable h)
  exact absurd hfree (by decide +kernel)

end Examples

end Takeln
