import Takeln.Stores.Claiming

/-!
# The in-memory and the SQLite checkpointer agree

Fed the same ids and the same increasing clock readings, the two checkpointers give the same answers to a sequence of
calls as long as the yield requests that are read were stored in texts that read back as the same request
(`answers_agree_iff`).  A request with the schema `null` was not: its text reads back without a schema.
-/

namespace Takeln

open Rfc3339 (InYears)
open Sqlite (JsonText Chrono Table)

section

variable {S : Type} [State S] [JsonText S] [JsonText DAG] [JsonText YieldRequest] [Chrono] [Chrono.Documented]
  {threadId : String}

/-! ### Runs -/

/-- The checkpoints are older than the readings of the calls to come, and have other ids. -/
structure Before (store : MemoryStore) (calls : List (StoreCall S)) : Prop where
  older {threadId : String} {cp : MemoryCheckpoint} : cp ∈ store.rows threadId →
    ∀ t ∈ calls.filterMap StoreCall.reading, cp.createdAt < t
  fresh {threadId : String} {cp : MemoryCheckpoint} : cp ∈ store.rows threadId →
    cp.checkpointId ∉ calls.filterMap StoreCall.savedId

omit [State S] [JsonText S] [JsonText DAG] [JsonText YieldRequest] [Chrono] [Chrono.Documented] in
theorem mem_of_mem_deleteCheckpoints {store : MemoryStore} {t : String} {policy : RetentionPolicy} {now : Int}
    {cp : MemoryCheckpoint} (h : cp ∈ (store.deleteCheckpoints t policy now).2.rows threadId) :
    cp ∈ store.rows threadId := by
  have hupdate : ∀ {list : List MemoryCheckpoint}, (∀ cp ∈ list, cp ∈ store.rows t) →
      cp ∈ MemoryStore.rows (Function.update store t (some list)) threadId → cp ∈ store.rows threadId := by
    intro list hlist hcp
    rw [MemoryStore.rows_update] at hcp
    split at hcp
    · rename_i ht
      exact ht ▸ hlist cp hcp
    · exact hcp
  unfold MemoryStore.deleteCheckpoints at h
  cases hs : store t with
  | none =>
    rw [hs] at h
    exact h
  | some list =>
    have hrows : store.rows t = list := MemoryStore.rows_eq hs
    rw [hs] at h
    cases policy with
    | keepAll => exact h
    | keepLast n =>
      dsimp only at h
      split at h
      · exact hupdate (fun cp hcp => hrows ▸ List.mem_of_mem_drop hcp) h
      · exact h
    | olderThan d =>
      dsimp only at h
      split at h
      · exact h
      · exact hupdate (fun cp hcp => hrows ▸ List.mem_of_mem_filter hcp) h

omit [State S] [JsonText S] [JsonText DAG] [JsonText YieldRequest] [Chrono] [Chrono.Documented] in
theorem exists_of_mem_claimLast {rows : List MemoryCheckpoint} {i : String} {cp : MemoryCheckpoint}
    (h : cp ∈ claimLast rows i) :
    ∃ cp' ∈ rows, cp'.checkpointId = cp.checkpointId ∧ cp'.createdAt = cp.createdAt := by
  rcases List.mem_append.1 h with hcp | hcp
  · exact ⟨cp, (List.dropLast_sublist rows).subset hcp, rfl, rfl⟩
  · obtain ⟨last, hlast, rfl⟩ := Option.map_eq_some_iff.1 (Option.mem_toList.1 hcp)
    exact ⟨last, List.mem_of_getLast? hlast, rfl, rfl⟩

omit [JsonText S] [JsonText DAG] [JsonText YieldRequest] [Chrono] [Chrono.Documented] in
/-- After a call a thread has the ids and times of before, and those of a save. -/
theorem mem_rows_answer {store : MemoryStore} {c : StoreCall S} {threadId : String} {cp : MemoryCheckpoint}
    (h : cp ∈ (store.answer c).2.rows threadId) :
    (∃ cp' ∈ store.rows threadId, cp'.checkpointId = cp.checkpointId ∧ cp'.createdAt = cp.createdAt) ∨
      (c.savedId = some cp.checkpointId ∧ c.reading = some cp.createdAt) := by
  have hkept : cp ∈ store.rows threadId → (∃ cp' ∈ store.rows threadId,
      cp'.checkpointId = cp.checkpointId ∧ cp'.createdAt = cp.createdAt) := fun hcp => ⟨cp, hcp, rfl, rfl⟩
  cases hop : c.op with
  | saveState args =>
    simp only [MemoryStore.answer, hop, MemoryStore.saveState] at h
    cases hvalue : State.toValue args.state with
    | error e =>
      rw [hvalue] at h
      exact Or.inl (hkept h)
    | ok v =>
      rw [hvalue] at h
      simp only [MemoryStore.rows_update] at h
      split at h
      · rename_i ht
        rcases List.mem_append.1 h with hcp | hcp
        · exact Or.inl (hkept (ht ▸ hcp))
        · rw [List.mem_singleton.1 hcp]
          simp [StoreCall.savedId, StoreCall.reading, hop, MemoryCheckpoint.ofSave]
      · exact Or.inl (hkept h)
  | loadState t =>
    rw [MemoryStore.answer, hop] at h
    exact Or.inl (hkept h)
  | loadVersion t id =>
    rw [MemoryStore.answer, hop] at h
    exact Or.inl (hkept h)
  | listCheckpoints t =>
    rw [MemoryStore.answer, hop] at h
    exact Or.inl (hkept h)
  | deleteCheckpoints t policy =>
    rw [MemoryStore.answer, hop] at h
    exact Or.inl (hkept (mem_of_mem_deleteCheckpoints h))
  | claimInterrupt t i =>
    rw [MemoryStore.answer, hop] at h
    have hstore := MemoryStore.claimInterrupt_store store t i
    dsimp only at h
    rw [hstore] at h
    split at h
    · rw [MemoryStore.rows_update] at h
      split at h
      · rename_i ht
        exact Or.inl (ht ▸ exists_of_mem_claimLast h)
      · exact Or.inl (hkept h)
    · exact Or.inl (hkept h)

/-- What a call has to keep to: the laws of `serde`, the years of its reading and the range of its policy. -/
structure StoreCall.Proper (c : StoreCall S) : Prop where
  serde {args : SaveArgs S} : c.op = .saveState args → args.Serde
  years {t : Int} : c.reading = some t → InYears t
  range : c.InRange

/-- One call is answered alike exactly if it is readable, and then the stores still agree. -/
theorem Mirrors.answer {store : MemoryStore} {T : Table} (h : Mirrors S store T) {c : StoreCall S}
    {cs : List (StoreCall S)} (hbefore : Before store (c :: cs)) (hc : c.Proper) :
    Agree S (c.Readable store) (store.answer c) (T.answer c) := by
  unfold StoreCall.Readable MemoryStore.answer Table.answer
  cases hop : c.op with
  | saveState args =>
    have hid : c.savedId = some c.id := by simp [StoreCall.savedId, hop]
    have hreading : c.reading = some c.now := by simp [StoreCall.reading, hop]
    have hsave := h.saveState c.id (hc.serde hop) (hc.years hreading)
      (fun t cp hcp => hbefore.older hcp c.now (by simp [hreading]))
      (fun t cp hcp hcpid => hbefore.fresh hcp (by simp [hid, hcpid]))
    exact ⟨iff_of_true hsave.1 trivial, fun _ => hsave.2⟩
  | loadState t => exact ⟨h.loadState_iff c.select c.now t, fun _ => h⟩
  | loadVersion t id => exact ⟨h.loadVersion_iff c.now t id, fun _ => h⟩
  | listCheckpoints t => exact ⟨h.listCheckpoints_iff c.select c.now t, fun _ => h⟩
  | deleteCheckpoints t policy =>
    have hrange := hc.range
    unfold StoreCall.InRange at hrange
    rw [hop] at hrange
    cases policy with
    | keepAll =>
      cases hs : store t with
      | none =>
        simp only [MemoryStore.deleteCheckpoints, hs]
        exact h.agree rfl trivial
      | some list =>
        simp only [MemoryStore.deleteCheckpoints, hs]
        exact h.agree rfl trivial
    | keepLast n =>
      have hkeep := h.keepLast c.select hrange c.now t
      exact ⟨iff_of_true hkeep.1 trivial, fun _ => hkeep.2⟩
    | olderThan d =>
      have hreading : c.reading = some c.now := by simp [StoreCall.reading, hop]
      have holder := h.olderThan c.select (hc.years hreading) hrange.1 hrange.2 t
      exact ⟨iff_of_true holder.1 trivial, fun _ => holder.2⟩
  | claimInterrupt t i => exact h.claimInterrupt c.select c.update t i

omit [JsonText S] [JsonText DAG] [JsonText YieldRequest] [Chrono] [Chrono.Documented] in
theorem Before.answer {store : MemoryStore} {c : StoreCall S} {cs : List (StoreCall S)} (h : Before store (c :: cs))
    (hids : ((c :: cs).filterMap StoreCall.savedId).Nodup)
    (hreadings : ((c :: cs).filterMap StoreCall.reading).Pairwise (· < ·)) :
    Before (store.answer c).2 cs where
  older {threadId cp} hcp t ht := by
    rcases mem_rows_answer hcp with ⟨cp', hcp', -, htime⟩ | ⟨-, hreading⟩
    · rw [← htime]
      refine h.older hcp' t ?_
      rw [List.filterMap_cons]
      split
      · exact ht
      · exact List.mem_cons_of_mem _ ht
    · rw [List.filterMap_cons_some hreading, List.pairwise_cons] at hreadings
      exact hreadings.1 t ht
  fresh {threadId cp} hcp hmem := by
    rcases mem_rows_answer hcp with ⟨cp', hcp', hid, -⟩ | ⟨hsaved, -⟩
    · refine h.fresh hcp' ?_
      rw [hid, List.filterMap_cons]
      split
      · exact hmem
      · exact List.mem_cons_of_mem _ hmem
    · rw [List.filterMap_cons_some hsaved, List.nodup_cons] at hids
      exact hids.1 hmem

/-- Stores that agree answer a run of calls alike exactly if every call is readable. -/
theorem Mirrors.run_iff {store : MemoryStore} {T : Table} (h : Mirrors S store T) {calls : List (StoreCall S)}
    (hbefore : Before store calls) (hids : (calls.filterMap StoreCall.savedId).Nodup)
    (hreadings : (calls.filterMap StoreCall.reading).Pairwise (· < ·)) (hcalls : ∀ c ∈ calls, c.Proper) :
    List.Forall₂ SameReply (answers MemoryStore.answer store calls) (answers Table.answer T calls) ↔
      EveryReadable store calls := by
  induction calls generalizing store T with
  | nil => exact iff_of_true .nil trivial
  | cons c cs ih =>
    obtain ⟨hsame, hnext⟩ := h.answer hbefore (hcalls c List.mem_cons_self)
    have hids' : (cs.filterMap StoreCall.savedId).Nodup := hids.sublist ((List.sublist_cons_self c cs).filterMap _)
    have hreadings' := hreadings.sublist ((List.sublist_cons_self c cs).filterMap StoreCall.reading)
    unfold EveryReadable answers
    rw [List.forall₂_cons, hsame]
    refine and_congr_right fun hreadable => ?_
    exact ih (hnext hreadable) (hbefore.answer hids hreadings) hids' hreadings'
      fun c' hc' => hcalls c' (List.mem_cons_of_mem c hc')

/-- Fed the same ids and the same strictly increasing clock readings, the in-memory and the SQLite checkpointer answer a
sequence of calls alike if and only if every call is readable. -/
theorem answers_agree_iff (calls : List (StoreCall S)) (hids : (calls.filterMap StoreCall.savedId).Nodup)
    (hreadings : (calls.filterMap StoreCall.reading).Pairwise (· < ·)) (hcalls : ∀ c ∈ calls, c.Proper) :
    List.Forall₂ SameReply (answers MemoryStore.answer (fun _ => none) calls) (answers Table.answer .empty calls) ↔
      EveryReadable (fun _ => none) calls :=
  Mirrors.empty.run_iff ⟨fun h => absurd h List.not_mem_nil, fun h => absurd h List.not_mem_nil⟩ hids hreadings hcalls

end

section Examples

attribute [local instance] Sqlite.utcTimes Sqlite.noDags Sqlite.askRequests

theorem yielded_serde {request : YieldRequest} (h : ∃ text, Sqlite.askText request = .ok text) :
    (yielded request).Serde where
  value h := by cases h; rfl
  text h := by cases h; rfl
  fails := by
    constructor
    · rintro ⟨e, he⟩
      cases he
    · rintro ⟨e, he⟩
      cases he
  dag h := by cases h
  request hr := by
    cases hr
    exact h

/-- Yield, look, claim, and delete what is older than a second. -/
def claimedRun : List (StoreCall Bool) :=
  [callAt (.saveState (yielded (.simple "q"))) "c0" 0, callAt (.loadState "t") "" 0,
    callAt (.claimInterrupt "t" "q") "" 0, callAt (.listCheckpoints "t") "" 0,
    callAt (.deleteCheckpoints "t" (.olderThan ⟨1000000000⟩)) "" 2000000000, callAt (.loadVersion "t" "c0") "" 0]

/-- A request with the schema `null`. -/
def nullRun : List (StoreCall Bool) :=
  [callAt (.saveState (yielded ((YieldRequest.simple "q").withSchema .null))) "c0" 0, callAt (.loadState "t") "" 0]

theorem save_proper {request : YieldRequest} (h : ∃ text, Sqlite.askText request = .ok text) (id : String) {now : Int}
    (hnow : InYears now) :
    (callAt (.saveState (yielded request)) id now).Proper where
  serde hc := by
    cases hc
    exact yielded_serde h
  years hc := by
    cases hc
    exact hnow
  range := trivial

/-- A call that draws neither an id nor a time. -/
theorem read_proper {c : StoreCall Bool} (hid : c.savedId = none) (hreading : c.reading = none) (hrange : c.InRange) :
    c.Proper where
  serde h := by
    unfold StoreCall.savedId at hid
    rw [h] at hid
    cases hid
  years h := by
    rw [hreading] at h
    cases h
  range := hrange

theorem survives_simple : (YieldRequest.simple "q").Survives := ⟨_, rfl, rfl⟩

theorem answers_agree_claimed :
    List.Forall₂ SameReply (answers MemoryStore.answer (fun _ => none) claimedRun)
      (answers Table.answer .empty claimedRun) := by
  have hdocumented := Sqlite.utcTimes_documented
  refine (answers_agree_iff claimedRun (by decide) (by decide) ?_).2 ?_
  · simp only [claimedRun, List.forall_mem_cons]
    refine ⟨save_proper ⟨_, rfl⟩ _ (by decide), read_proper rfl rfl trivial, read_proper rfl rfl trivial,
      read_proper rfl rfl trivial, ⟨fun h => ?_, fun h => ?_, by decide, by decide⟩, read_proper rfl rfl trivial,
      fun _ h => absurd h List.not_mem_nil⟩
    · cases h
    · cases h
      decide
  · refine ⟨trivial, ?_, ?_, ?_, trivial, ?_, trivial⟩
    · intro cp hcp r hr
      cases hcp
      cases hr
      exact survives_simple
    · intro _ cp hcp _ r hr
      cases hcp
      cases hr
      exact ⟨_, .simple "q", rfl, rfl, Iff.rfl⟩
    · intro cp hcp r hr
      cases hcp with
      | head =>
        cases hr
        exact survives_simple
      | tail _ h => cases h
    · intro cp hcp
      cases hcp

theorem SameReply.toOption_eq {a b : Answer Bool} (h : SameReply a b) : a.toOption = b.toOption := by
  cases a with
  | ok r =>
    cases b with
    | ok r' => exact congrArg some h
    | error e => exact absurd h id
  | error e =>
    cases b with
    | ok r' => exact absurd h id
    | error e' => rfl

theorem map_toOption_eq {A : Type} {l l' : List (Answer Bool)} (h : List.Forall₂ SameReply l l')
    (f : Option (Reply Bool) → A) : (l.map fun x => f x.toOption) = l'.map fun x => f x.toOption := by
  induction h with
  | nil => rfl
  | cons hsame _ ih => rw [List.map_cons, List.map_cons, hsame.toOption_eq, ih]

/-- Whether the request that was loaded has a schema. -/
def loadedSchema : Reply Bool → Option Bool
  | .loaded (some l) => l.info.yieldRequest.map fun r => r.schema.isSome
  | _ => none

theorem answers_agree_false :
    (nullRun.filterMap StoreCall.savedId).Nodup ∧ (nullRun.filterMap StoreCall.reading).Pairwise (· < ·) ∧
      (∀ c ∈ nullRun, c.Proper) ∧
        ¬ List.Forall₂ SameReply (answers MemoryStore.answer (fun _ => none) nullRun)
          (answers Table.answer .empty nullRun) := by
  refine ⟨by decide, by decide, ?_, fun h => ?_⟩
  · simp only [nullRun, List.forall_mem_cons]
    exact ⟨save_proper ⟨_, rfl⟩ _ (by decide), read_proper rfl rfl trivial, fun _ h => absurd h List.not_mem_nil⟩
  · -- the request is loaded with a schema, and without one
    have hloaded : (answers MemoryStore.answer (fun _ => none) nullRun).map (fun x => x.toOption.bind loadedSchema) ≠
        (answers Table.answer .empty nullRun).map fun x => x.toOption.bind loadedSchema := by decide +kernel
    exact hloaded (map_toOption_eq h fun x => x.bind loadedSchema)

end Examples

end Takeln
