import Takeln.Stores.Mirrors

/-!
# Claims in two stores

`claim_interrupt` takes the same branch in an in-memory store and in a SQLite table that hold the same checkpoints, as
long as the text of the request it reads answers the claim as the request that was saved.
-/

namespace Takeln

open Sqlite (JsonText Chrono Table Row)

section

variable {S : Type} [State S] [JsonText S] [JsonText DAG] [JsonText YieldRequest] [Chrono] [Chrono.Documented]
  {threadId : String}

omit [State S] [JsonText S] [JsonText DAG] [Chrono] [Chrono.Documented] in
theorem claims_iff {r r' : YieldRequest} {text interruptId : String} (htext : JsonText.toText r = .ok text)
    (hread : JsonText.fromText text = .ok r') :
    r.Claims interruptId ↔ (r'.interruptId = interruptId ↔ r.interruptId = interruptId) := by
  constructor
  · rintro ⟨text', r₁, htext', hread', hid⟩
    cases htext.symm.trans htext'
    cases hread.symm.trans hread'
    exact hid
  · intro hid
    exact ⟨text, r', htext, hread, hid⟩

omit [State S] [JsonText S] [JsonText DAG] [Chrono] [Chrono.Documented] in
theorem not_claims {r : YieldRequest} {text interruptId e : String} (htext : JsonText.toText r = .ok text)
    (hread : (JsonText.fromText text : Except String YieldRequest) = .error e) : ¬ r.Claims interruptId := by
  rintro ⟨text', r₁, htext', hread', -⟩
  cases htext.symm.trans htext'
  cases hread.symm.trans hread'

omit [Chrono.Documented] in
theorem Mirrors.resolved_iff {store : MemoryStore} {T : Table} (h : Mirrors S store T)
    (threadId interruptId : String) :
    ((T.thread threadId).any fun r => r.resolvedInterrupt == some interruptId) = true ↔
      Resolved (store.rows threadId) interruptId := by
  rw [← any_resolved, forall₂_any (h.rows threadId)]
  intro cp row hrow
  rw [hrow.resolvedInterrupt]

variable (S) in
/-- A claim of an interrupt that is not resolved finds a latest checkpoint in both stores. -/
structure Finds (store : MemoryStore) (T : Table) (threadId interruptId : String) (l : List MemoryCheckpoint)
    (cp : MemoryCheckpoint) (m : List Row) (row : Row) : Prop where
  mirrors : Mirrors S store T
  rows : store threadId = some (l ++ [cp])
  thread : T.thread threadId = m ++ [row]
  related : List.Forall₂ (Stored S threadId) l m
  stored : Stored S threadId cp row
  unresolved : ¬ Resolved (l ++ [cp]) interruptId

namespace Finds

variable {store : MemoryStore} {T : Table} {interruptId : String} {l : List MemoryCheckpoint}
  {cp : MemoryCheckpoint} {m : List Row} {row : Row}

omit [Chrono.Documented] in
theorem rows_eq (h : Finds S store T threadId interruptId l cp m row) : store.rows threadId = l ++ [cp] := by
  rw [MemoryStore.rows, h.rows, Option.getD_some]

theorem latest_eq (h : Finds S store T threadId interruptId l cp m row) (order : Sqlite.Order) :
    T.latest order threadId = some row := by
  rw [h.mirrors.latest_eq, h.thread, List.getLast?_concat]

omit [Chrono.Documented] in
theorem any_eq_false (h : Finds S store T threadId interruptId l cp m row) :
    ((l ++ [cp]).any fun cp => cp.resolvedInterrupt == some interruptId) = false :=
  Bool.eq_false_iff.2 fun hany => h.unresolved (any_resolved.1 hany)

omit [Chrono.Documented] in
theorem parseStatus_eq (h : Finds S store T threadId interruptId l cp m row) :
    Sqlite.parseStatus row.status = cp.status := by
  rw [h.stored.status]
  exact Postgres.parseCheckpointStatus_debug cp.status

/-- SQLite comes to look at the latest row, too. -/
theorem claimInterrupt_eq (h : Finds S store T threadId interruptId l cp m row) (select update : Sqlite.Order) :
    T.claimInterrupt select update threadId interruptId = T.claimLatest update threadId interruptId row := by
  have hunresolved := h.unresolved
  rw [← h.rows_eq, ← h.mirrors.resolved_iff, Bool.not_eq_true] at hunresolved
  unfold Table.claimInterrupt
  rw [hunresolved, h.latest_eq select]
  rfl

omit [Chrono.Documented] in
/-- Without a request to read, the stores answer alike and do not change. -/
theorem unread (h : Finds S store T threadId interruptId l cp m row) (update : Sqlite.Order)
    (hunread : cp.status = .yielded → cp.yieldRequest = none) :
    ∃ a b, store.claimInterrupt threadId interruptId = (a, store) ∧
      T.claimLatest update threadId interruptId row = (b, T) ∧
      SameReply (a.map (Reply.claimed (S := S))) (b.map .claimed) := by
  have hany := h.any_eq_false
  have hstatus := h.parseStatus_eq
  have hclaimed := h.stored.claimedInterrupt
  by_cases hrun : cp.status = .running ∧ cp.claimedInterrupt = some interruptId
  · refine ⟨.ok .inProgress, .ok .inProgress, ?_, ?_, rfl⟩
    · simp [MemoryStore.claimInterrupt, h.rows, hany, hrun]
    · simp [Table.claimLatest, hstatus, hclaimed, hrun]
  · by_cases hrunning : cp.status = .running
    · have hother : cp.claimedInterrupt ≠ some interruptId := fun hc => hrun ⟨hrunning, hc⟩
      have hmem : ∃ e, store.claimInterrupt threadId interruptId = (.error (.executionError e), store) := by
        simp [MemoryStore.claimInterrupt, h.rows, hany, hrunning, hother]
      have hsql : ∃ e, T.claimLatest update threadId interruptId row = (.error (.executionError e), T) := by
        simp [Table.claimLatest, hstatus, hclaimed, hrunning, hother]
      obtain ⟨e, he⟩ := hmem
      obtain ⟨e', he'⟩ := hsql
      exact ⟨_, _, he, he', rfl⟩
    · have hmem : ∃ e, store.claimInterrupt threadId interruptId = (.error (.nothingToResume e), store) := by
        cases hst : cp.status with
        | yielded => simp [MemoryStore.claimInterrupt, h.rows, hany, hst, hunread hst]
        | running => exact absurd hst hrunning
        | complete => simp [MemoryStore.claimInterrupt, h.rows, hany, hst]
        | failed => simp [MemoryStore.claimInterrupt, h.rows, hany, hst]
        | interrupted => simp [MemoryStore.claimInterrupt, h.rows, hany, hst]
      have hsql : ∃ e, T.claimLatest update threadId interruptId row = (.error (.nothingToResume e), T) := by
        by_cases hst : cp.status = .yielded
        · have hrequest := h.stored.yieldRequest
          rw [hunread hst] at hrequest
          have hcolumn : row.yieldRequest = none := (Except.ok.inj hrequest).symm
          simp [Table.claimLatest, hstatus, hst, hcolumn]
        · simp [Table.claimLatest, hstatus, hrunning, hst]
      obtain ⟨e, he⟩ := hmem
      obtain ⟨e', he'⟩ := hsql
      exact ⟨_, _, he, he', rfl⟩

/-- Both stores claim the latest checkpoint. -/
theorem claimed (h : Finds S store T threadId interruptId l cp m row) (update : Sqlite.Order)
    (hst : cp.status = .yielded) :
    T.updateClaim update threadId interruptId = (.ok .claimed, (T.claim update threadId interruptId).2) ∧
      Mirrors S (Function.update store threadId (some (l ++ [cp.claimedFor interruptId])))
        (T.claim update threadId interruptId).2 := by
  have hrow := h.stored
  have hlatest := h.latest_eq update
  have hstatus : row.status = "Yielded" := by
    rw [hrow.status, hst]
    rfl
  have hone : (T.claim update threadId interruptId).1 = 1 := Table.claim_fst hlatest hstatus
  refine ⟨?_, h.mirrors.update ?_ ?_ ?_⟩
  · unfold Table.updateClaim
    dsimp only
    rw [if_pos hone]
  · intro t ht
    exact Table.thread_claim_of_ne ht interruptId
  · rw [Table.thread_claim_self hlatest h.thread hstatus]
    refine List.rel_append h.related (.cons ?_ .nil)
    exact ⟨hrow.id, hrow.thread, hrow.state, hrow.nextNode, hrow.dag, rfl, hrow.years, hrow.createdAt,
      hrow.yieldRequest, rfl, hrow.resolvedInterrupt⟩
  · have htimes := h.mirrors.times threadId
    rw [h.rows_eq] at htimes
    rw [List.pairwise_append] at htimes ⊢
    refine ⟨htimes.1, List.pairwise_singleton _ _, fun a ha b hb => ?_⟩
    cases List.mem_singleton.1 hb
    exact htimes.2.2 a ha cp List.mem_cons_self

/-- If the request is read, the answers are the same exactly if it claims. -/
theorem request (h : Finds S store T threadId interruptId l cp m row) (update : Sqlite.Order)
    (hst : cp.status = .yielded) {r : YieldRequest} (hreq : cp.yieldRequest = some r) :
    Agree S (r.Claims interruptId)
      ((store.claimInterrupt threadId interruptId).1.map .claimed, (store.claimInterrupt threadId interruptId).2)
      ((T.claimLatest update threadId interruptId row).1.map .claimed,
        (T.claimLatest update threadId interruptId row).2) := by
  have hany := h.any_eq_false
  have hstatus := h.parseStatus_eq
  have hrequest := h.stored.yieldRequest
  rw [hreq] at hrequest
  obtain ⟨text, htext, hcolumn⟩ := Sqlite.encode_some_eq_ok.1 hrequest
  have hmem : r.interruptId = interruptId → store.claimInterrupt threadId interruptId =
      (.ok .claimed, Function.update store threadId (some (l ++ [cp.claimedFor interruptId]))) := by
    intro hid
    simp [MemoryStore.claimInterrupt, MemoryCheckpoint.claimedFor, h.rows, hany, hst, hreq, hid]
  have hmem' : r.interruptId ≠ interruptId →
      ∃ e, store.claimInterrupt threadId interruptId = (.error (.invalidResume e), store) := by
    intro hid
    simp [MemoryStore.claimInterrupt, h.rows, hany, hst, hreq, hid]
  cases hread : (JsonText.fromText text : Except String YieldRequest) with
  | error e =>
    -- the text is not read as a request
    have hsql : T.claimLatest update threadId interruptId row = (.error (.deserializationError e), T) := by
      simp [Table.claimLatest, hstatus, hst, hcolumn, hread]
    have hno : ¬ r.Claims interruptId := not_claims htext hread
    rw [hsql]
    refine ⟨iff_of_false ?_ hno, fun hr => absurd hr hno⟩
    by_cases hid : r.interruptId = interruptId
    · rw [hmem hid]
      exact id
    · obtain ⟨e', he'⟩ := hmem' hid
      rw [he']
      intro hsame
      cases hsame
  | ok r' =>
    have hsql : r'.interruptId = interruptId → T.claimLatest update threadId interruptId row =
        (.ok .claimed, (T.claim update threadId interruptId).2) := by
      intro hid
      rw [← (h.claimed update hst).1]
      simp [Table.claimLatest, hstatus, hst, hcolumn, hread, hid]
    have hsql' : r'.interruptId ≠ interruptId →
        ∃ e, T.claimLatest update threadId interruptId row = (.error (.invalidResume e), T) := by
      intro hid
      simp [Table.claimLatest, hstatus, hst, hcolumn, hread, hid]
    -- the text is read as a request, maybe with another id
    have hiff : r.Claims interruptId ↔ _ := claims_iff htext hread
    unfold Agree
    rw [hiff]
    by_cases hid : r.interruptId = interruptId
    · rw [hmem hid]
      by_cases hid' : r'.interruptId = interruptId
      · rw [hsql hid']
        exact ⟨iff_of_true rfl (iff_of_true hid' hid), fun _ => (h.claimed update hst).2⟩
      · obtain ⟨e, he⟩ := hsql' hid'
        rw [he]
        exact ⟨iff_of_false id fun hall => hid' (hall.2 hid), fun hall => absurd (hall.2 hid) hid'⟩
    · obtain ⟨e, he⟩ := hmem' hid
      rw [he]
      by_cases hid' : r'.interruptId = interruptId
      · rw [hsql hid']
        exact ⟨iff_of_false id fun hall => hid (hall.1 hid'), fun hall => absurd (hall.1 hid') hid⟩
      · obtain ⟨e', he'⟩ := hsql' hid'
        rw [he']
        exact h.mirrors.agree rfl (iff_of_false hid' hid)

end Finds

/-- A claim is answered alike if the request it reads claims. -/
theorem Mirrors.claimInterrupt {store : MemoryStore} {T : Table} (h : Mirrors S store T)
    (select update : Sqlite.Order) (threadId interruptId : String) :
    Agree S (ClaimReadable (store.rows threadId) interruptId)
      ((store.claimInterrupt threadId interruptId).1.map .claimed, (store.claimInterrupt threadId interruptId).2)
      ((T.claimInterrupt select update threadId interruptId).1.map .claimed,
        (T.claimInterrupt select update threadId interruptId).2) := by
  by_cases hres : Resolved (store.rows threadId) interruptId
  -- both look for a checkpoint that resolves the interrupt first
  · have hsql : T.claimInterrupt select update threadId interruptId = (.ok .alreadyCompleted, T) := by
      unfold Table.claimInterrupt
      rw [if_pos ((h.resolved_iff _ _).2 hres)]
    rw [MemoryStore.claimInterrupt_of_resolved hres, hsql]
    exact h.agree rfl fun hn => absurd hres hn
  rcases forall₂_concat (h.rows threadId) with ⟨hnil, hnil'⟩ | ⟨l, cp, m, row, hl, hm, hrel, hrow⟩
  · have hmem : store.claimInterrupt threadId interruptId = (.error (.nothingToResume threadId), store) := by
      unfold MemoryStore.claimInterrupt
      unfold MemoryStore.rows at hnil
      cases hs : store threadId with
      | none => rfl
      | some list =>
        rw [hs, Option.getD_some] at hnil
        subst hnil
        rfl
    have hsql : T.claimInterrupt select update threadId interruptId = (.error (.nothingToResume threadId), T) := by
      rw [← h.resolved_iff, Bool.not_eq_true] at hres
      unfold Table.claimInterrupt
      rw [hres, h.latest_eq, hnil']
      rfl
    rw [hmem, hsql]
    refine h.agree rfl fun _ cp hcp => ?_
    rw [hnil] at hcp
    cases hcp
  · have hs : store threadId = some (l ++ [cp]) := by
      unfold MemoryStore.rows at hl
      cases hs : store threadId with
      | none =>
        rw [hs] at hl
        simp at hl
      | some list =>
        rw [hs, Option.getD_some] at hl
        rw [hl]
    have hfinds : Finds S store T threadId interruptId l cp m row := ⟨h, hs, hm, hrel, hrow, hl ▸ hres⟩
    have hlast : (store.rows threadId).getLast? = some cp := by rw [hl, List.getLast?_concat]
    rw [hfinds.claimInterrupt_eq select update]
    by_cases hunread : cp.status = .yielded → cp.yieldRequest = none
    -- the request of the latest checkpoint is not looked at
    · obtain ⟨a, b, ha, hb, hsame⟩ := hfinds.unread update hunread
      rw [ha, hb]
      refine h.agree hsame fun _ cp' hcp' hst r hr => ?_
      rw [hlast] at hcp'
      cases hcp'
      rw [hunread hst] at hr
      cases hr
    -- the table reads the request from its text
    · obtain ⟨hst, hsome⟩ := Classical.not_imp.1 hunread
      obtain ⟨r, hreq⟩ := Option.ne_none_iff_exists'.1 hsome
      have hclaims : ClaimReadable (store.rows threadId) interruptId ↔ r.Claims interruptId := by
        constructor
        · intro hall
          exact hall hres cp hlast hst r hreq
        · intro hr _ cp' hcp' _ r' hr'
          rw [hlast] at hcp'
          cases hcp'
          rw [hreq] at hr'
          cases hr'
          exact hr
      unfold Agree
      rw [hclaims]
      exact hfinds.request update hst hreq

end

end Takeln
