import Mathlib.Data.List.Pairwise
import Takeln.Concurrent.PostgresClaim
import Takeln.Effect.Akin

/-!
# One winner on PostgreSQL

The update of a claim is a compare-and-swap on the status of one row.  No statement makes a row `Yielded` again, so
whatever the clients do in between, those that are told `Claimed` have claimed different rows, each of which was saved
as `Yielded` and is `Running` for the interrupt of its client from then on (`claims_exclusive`).  If one row of a thread
is dated later than all others, nobody saves into the thread meanwhile and the statements succeed, exactly one of the
clients that claim its interrupt is told `Claimed`, as soon as one of them has ended (`claim_decided`).
-/

namespace Takeln.Postgres

open Effect Prog

variable {ι : Type} {T T' T₀ T₁ : Table} {threadId interruptId : String}

/-! ### Updates -/

/-- A row that does not wait is not touched. -/
theorem claimRow_of_ne {latestId : String} {row : Row} (h : row.status ≠ "Yielded") :
    Table.claimRow latestId interruptId row = row := if_neg fun hand => h hand.2

theorem Table.mem_claim {row : Row} (h : row ∈ T.rows) (order : Order) (threadId interruptId : String) :
    ∃ row' ∈ (T.claim order threadId interruptId).rows, row'.id = row.id ∧
      (row.status ≠ "Yielded" → row' = row) := by
  unfold Table.claim
  cases T.latest order threadId with
  | none => exact ⟨row, h, rfl, fun _ => rfl⟩
  | some last => exact ⟨_, List.mem_map_of_mem h, claimRow_id _ _ _, claimRow_of_ne⟩

/-- A row that does not wait stays as it is. -/
theorem mem_of_answers {o : Statement} {r : Except String o.Result} (h : Answers T o r T') {row : Row}
    (hrow : row ∈ T.rows) (hstatus : row.status ≠ "Yielded") : row ∈ T'.rows := by
  cases h with
  | inserted T c time hid => exact List.mem_append_left _ hrow
  | updatedClaimed T order threadId interruptId =>
    obtain ⟨row', hrow', -, heq⟩ := Table.mem_claim hrow order threadId interruptId
    exact heq hstatus ▸ hrow'
  | _ => exact hrow

theorem mem_of_trail {tr : List (Entry sql ι Table)} (h : Trail Answers T tr T') {row : Row} (hrow : row ∈ T.rows)
    (hstatus : row.status ≠ "Yielded") : row ∈ T'.rows := by
  induction h with
  | nil T => exact hrow
  | cons hsem _ ih => exact ih (mem_of_answers hsem hrow hstatus)

/-- A row that waits was waiting before, or has just been saved. -/
theorem yielded_of_answers {o : Statement} {r : Except String o.Result} (h : Answers T o r T') {row : Row}
    (hrow : row ∈ T'.rows) (hstatus : row.status = "Yielded") :
    row ∈ T.rows ∨ ∃ c, o = .insert c ∧ c = row.toColumns := by
  cases h with
  | inserted T c time hid =>
    rcases List.mem_append.1 hrow with hold | hnew
    · exact Or.inl hold
    · rw [List.mem_singleton.1 hnew]
      exact Or.inr ⟨c, rfl, rfl⟩
  | updatedClaimed T order threadId interruptId =>
    unfold Table.claim at hrow
    cases hlast : T.latest order threadId with
    | none =>
      rw [hlast] at hrow
      exact Or.inl hrow
    | some last =>
      rw [hlast] at hrow
      obtain ⟨row', hrow', rfl⟩ := List.mem_map.1 hrow
      unfold Table.claimRow at hstatus ⊢
      split at hstatus
      · exact absurd hstatus (show "Running" ≠ "Yielded" by decide)
      · rename_i hno
        rw [if_neg hno]
        exact Or.inl hrow'
  | _ => exact Or.inl hrow

/-- A row that was saved as `Yielded`, by one of the statements or before. -/
def SavedYielded (T₀ : Table) (tr : List (Entry sql ι Table)) (id threadId : String) : Prop :=
  (∃ row ∈ T₀.rows, row.id = id ∧ row.threadId = threadId ∧ row.status = "Yielded") ∨
    ∃ e ∈ tr, ∃ c, e.op = .insert c ∧ c.id = id ∧ c.threadId = threadId ∧ c.status = "Yielded"

theorem savedYielded_of_trail {tr : List (Entry sql ι Table)} (h : Trail Answers T₀ tr T) {row : Row}
    (hrow : row ∈ T.rows) (hstatus : row.status = "Yielded") : SavedYielded T₀ tr row.id row.threadId := by
  induction h with
  | nil T => exact Or.inl ⟨row, hrow, rfl, rfl, hstatus⟩
  | @cons T T₁ T' i o r tr hsem _ ih =>
    rcases ih hrow with ⟨row', hrow', hid, ht, hstatus'⟩ | ⟨e, he, hc⟩
    · rcases yielded_of_answers hsem hrow' hstatus' with hold | ⟨c, rfl, rfl⟩
      · exact Or.inl ⟨row', hold, hid, ht, hstatus'⟩
      · exact Or.inr ⟨_, List.mem_cons_self, row'.toColumns, rfl, hid, ht, hstatus'⟩
    · exact Or.inr ⟨e, List.mem_cons_of_mem _ he, hc⟩

def Row.claimedFor (row : Row) (interruptId : String) : Row :=
  { row with status := "Running", claimedInterrupt := some interruptId }

/-- What an update that turns a row finds and leaves. -/
theorem Turns.mem {row : Row} (h : Turns threadId interruptId T T' row) :
    row ∈ T.rows ∧ row.threadId = threadId ∧ row.status = "Yielded" ∧ row.claimedFor interruptId ∈ T'.rows := by
  obtain ⟨order, hrow, hstatus, rfl⟩ := h
  obtain ⟨hmem, hthread⟩ := Table.mem_of_latest hrow
  refine ⟨hmem, hthread, hstatus, ?_⟩
  unfold Table.claim
  rw [hrow]
  exact List.mem_map.2 ⟨row, hmem, if_pos ⟨rfl, hstatus⟩⟩

/-- The entry has turned the row with this id, which waited before and no longer does. -/
def Claims (T : Table) (tr : List (Entry sql ι Table)) (e : Entry sql ι Table) (id : String) : Prop :=
  ∃ l l' T₁, tr = l ++ e :: l' ∧ Trail Answers T₁ l' T ∧ (∃ row ∈ e.world.rows, row.id = id ∧ row.status = "Yielded") ∧
    ∃ row ∈ T₁.rows, row.id = id ∧ row.status ≠ "Yielded"

/-- The row an entry has claimed: it was saved as `Yielded`, and stays claimed. -/
theorem claimed_of_trail {l l' : List (Entry sql ι Table)} {e : Entry sql ι Table}
    (h : Trail Answers T₀ (l ++ e :: l') T) {threadId interruptId : String}
    (he : e.event = ⟨.updateClaimed threadId interruptId, (.ok 1 : Except String Nat)⟩) :
    ∃ row ∈ T.rows, Claims T (l ++ e :: l') e row.id ∧ row.threadId = threadId ∧ row.status = "Running" ∧
      row.claimedInterrupt = some interruptId ∧ SavedYielded T₀ (l ++ e :: l') row.id threadId := by
  obtain ⟨hbefore, T₁, hsem, hafter⟩ := h.split
  obtain ⟨who, T₂, o, r⟩ := e
  cases he
  have hrunning : (show String from "Running") ≠ "Yielded" := by decide
  obtain ⟨row, hturns⟩ := turns_of_answers hsem
  obtain ⟨hrow, ht, hstatus, hclaimed⟩ := hturns.mem
  refine ⟨row.claimedFor interruptId, mem_of_trail hafter hclaimed hrunning, ?_, ht, rfl, rfl, ?_⟩
  · exact ⟨l, l', T₁, rfl, hafter, ⟨row, hrow, rfl, hstatus⟩, _, hclaimed, rfl, hrunning⟩
  · have hsaved := savedYielded_of_trail hbefore hrow hstatus
    rw [ht] at hsaved
    rcases hsaved with hold | ⟨e, he, hc⟩
    · exact Or.inl hold
    · exact Or.inr ⟨e, List.mem_append_left _ he, hc⟩

/-- A row that no longer waits is not claimed again. -/
theorem not_waiting_of_trail {l : List (Entry sql ι Table)} {e : Entry sql ι Table} {id : String}
    (h : Trail Answers T₁ l T) (hturned : ∃ row ∈ T₁.rows, row.id = id ∧ row.status ≠ "Yielded") (he : e ∈ l) :
    ¬ ∃ row ∈ e.world.rows, row.id = id ∧ row.status = "Yielded" := by
  rintro ⟨row', hrow', hid', hstatus'⟩
  obtain ⟨row, hrow, hid, hstatus⟩ := hturned
  obtain ⟨l₁, l₂, rfl⟩ := List.append_of_mem he
  have hstill := mem_of_trail h.split.1 hrow hstatus
  rw [Table.eq_of_id_eq hrow' hstill (hid'.trans hid.symm)] at hstatus'
  exact hstatus hstatus'

/-- No row is claimed twice. -/
theorem Claims.eq {tr : List (Entry sql ι Table)} {e e' : Entry sql ι Table} {id : String} (h : Claims T tr e id)
    (h' : Claims T tr e' id) : e = e' := by
  obtain ⟨l, m, T₁, rfl, htrail, hwaits, hturned⟩ := h
  obtain ⟨l', m', T₁', heq, htrail', hwaits', hturned'⟩ := h'
  rcases List.append_eq_append_iff.1 heq with ⟨as, -, hcons⟩ | ⟨as, -, hcons⟩
  · cases as with
    | nil => exact (List.cons.inj hcons).1
    | cons a as =>
      obtain ⟨rfl, rfl⟩ := List.cons.inj hcons
      exact absurd hwaits' (not_waiting_of_trail htrail hturned (by simp))
  · cases as with
    | nil => exact (List.cons.inj hcons).1.symm
    | cons a as =>
      obtain ⟨rfl, rfl⟩ := List.cons.inj hcons
      exact absurd hwaits (not_waiting_of_trail htrail' hturned' (by simp))

/-! ### Clients -/

section Clients

variable [DecidableEq ι] [Serde YieldRequest] {P₀ P : ι → Prog sql TakelnError ClaimResult}
  {tr : List (Entry sql ι Table)}

omit [DecidableEq ι] in
theorem claimInterrupt_inj {threadId' interruptId' : String}
    (h : claimInterrupt threadId interruptId = claimInterrupt threadId' interruptId') :
    threadId = threadId' ∧ interruptId = interruptId' := by
  have hfirst : (Statement.selectResolved threadId interruptId) = .selectResolved threadId' interruptId' := by
    unfold claimInterrupt at h
    exact (Prog.perform.inj h).1
  exact Statement.selectResolved.inj hfirst

/-- A client that is told `Claimed` has claimed a row. -/
theorem exists_claims (hI : Interleaving Answers P₀ T₀ tr P T) {i : ι}
    (hi : P₀ i = claimInterrupt threadId interruptId) (hret : P i = .ret .claimed) :
    ∃ e, e.who = i ∧ ∃ row ∈ T.rows, Claims T tr e row.id ∧ row.threadId = threadId ∧
      row.status = "Running" ∧ row.claimedInterrupt = some interruptId ∧ SavedYielded T₀ tr row.id threadId := by
  have hfol := (hI.allow_own (hi ▸ follows_claimInterrupt)).1
  rw [hret, follows_ret, after_recorder] at hfol
  obtain ⟨yieldRequest, claimed, hown, -⟩ := hfol rfl
  obtain ⟨l₁, check, l', rfl, -, -, hown'⟩ := exists_of_own_eq_cons hown
  obtain ⟨l₂, read, l'', rfl, -, -, hown''⟩ := exists_of_own_eq_cons hown'
  obtain ⟨l₃, update, l₄, rfl, hupdate, huev, -⟩ := exists_of_own_eq_cons hown''
  have hsplit : l₁ ++ check :: (l₂ ++ read :: (l₃ ++ update :: l₄)) =
      (l₁ ++ check :: (l₂ ++ read :: l₃)) ++ update :: l₄ := by simp
  have htrail := hI.trail
  rw [hsplit] at htrail ⊢
  exact ⟨update, hupdate, claimed_of_trail htrail huev⟩

/-- Whatever the clients do, and whatever else is done to the table in between: those that are told `Claimed` have
claimed different rows, each of its thread, saved as `Yielded` and now `Running` for the interrupt of the client. -/
theorem claims_exclusive (hI : Interleaving Answers P₀ T₀ tr P T) :
    ∃ claimed : ι → String,
      (∀ i threadId interruptId, P₀ i = claimInterrupt threadId interruptId → P i = .ret .claimed →
        ∃ row ∈ T.rows, row.id = claimed i ∧ row.threadId = threadId ∧ row.status = "Running" ∧
          row.claimedInterrupt = some interruptId ∧ SavedYielded T₀ tr row.id threadId) ∧
      ∀ i j, (∃ threadId interruptId, P₀ i = claimInterrupt threadId interruptId) → P i = .ret .claimed →
        (∃ threadId interruptId, P₀ j = claimInterrupt threadId interruptId) → P j = .ret .claimed →
        claimed i = claimed j → i = j := by
  have hrow : ∀ i, ∃ id, ∀ threadId interruptId, P₀ i = claimInterrupt threadId interruptId →
      P i = .ret .claimed → ∃ e, e.who = i ∧ Claims T tr e id ∧ ∃ row ∈ T.rows, row.id = id ∧
        row.threadId = threadId ∧ row.status = "Running" ∧ row.claimedInterrupt = some interruptId ∧
        SavedYielded T₀ tr row.id threadId := by
    intro i
    by_cases hi : ∃ threadId interruptId, P₀ i = claimInterrupt threadId interruptId ∧ P i = .ret .claimed
    · obtain ⟨t, n, hstart, hret⟩ := hi
      obtain ⟨e, hwho, row, hrow, hclaims, hrest⟩ := exists_claims hI hstart hret
      refine ⟨row.id, fun t' n' hstart' _ => ?_⟩
      obtain ⟨rfl, rfl⟩ := claimInterrupt_inj (hstart.symm.trans hstart')
      exact ⟨e, hwho, hclaims, row, hrow, rfl, hrest⟩
    · exact ⟨"", fun t n hstart hret => absurd ⟨t, n, hstart, hret⟩ hi⟩
  choose claimed hclaimed using hrow
  refine ⟨claimed, fun i t n hstart hret => ?_, ?_⟩
  · obtain ⟨-, -, -, hrow⟩ := hclaimed i t n hstart hret
    exact hrow
  · rintro i j ⟨t, n, hi⟩ hreti ⟨t', n', hj⟩ hretj hsame
    obtain ⟨e, rfl, hclaims, -⟩ := hclaimed i t n hi hreti
    obtain ⟨e', rfl, hclaims', -⟩ := hclaimed j t' n' hj hretj
    exact congrArg Entry.who (hclaims.eq (hsame ▸ hclaims'))

end Clients

/-! ### The newest row of a thread -/

/-- The row is dated later than all other rows of the thread. -/
def Table.Newest (T : Table) (threadId : String) (row : Row) : Prop :=
  row ∈ T.thread threadId ∧ ∀ r ∈ T.thread threadId, r.id ≠ row.id → r.createdAt < row.createdAt

namespace Table.Newest

variable {order : Order} {row : Row}

/-- It is the latest row, whatever the order of ties. -/
theorem latest (h : T.Newest threadId row) (order : Order) : T.latest order threadId = some row := by
  cases hlast : T.latest order threadId with
  | none =>
    have hmem : row ∈ order.desc (T.thread threadId) := (order.perm _).mem_iff.2 h.1
    rw [List.head?_eq_none_iff.1 hlast] at hmem
    exact absurd hmem List.not_mem_nil
  | some last =>
    have hle := order.le_of_head hlast row h.1
    have hmem := mem_of_latest hlast
    refine congrArg some (eq_of_id_eq hmem.1 (mem_thread.1 h.1).1 ?_)
    by_contra hne
    exact absurd (h.2 last (mem_thread.2 hmem) hne) (not_lt.2 hle)

theorem congr (h : T.Newest threadId row) (hthread : T'.thread threadId = T.thread threadId) :
    T'.Newest threadId row := by
  unfold Newest
  rw [hthread]
  exact h

/-- A claim in its thread turns it, if it waits. -/
theorem claim (h : T.Newest threadId row) (order : Order) (interruptId : String) :
    (T.claim order threadId interruptId).Newest threadId (claimRow row.id interruptId row) := by
  unfold Newest
  rw [thread_claim (h.latest order)]
  refine ⟨List.mem_map_of_mem h.1, fun r hr hne => ?_⟩
  obtain ⟨r', hr', rfl⟩ := List.mem_map.1 hr
  rw [claimRow_id, claimRow_id] at hne
  rw [claimRow_createdAt, claimRow_createdAt]
  exact h.2 r' hr' hne

end Table.Newest

/-- An update that turned a row of the thread. -/
def won (threadId : String) : Event sql → Bool
  | ⟨.updateClaimed t _, (.ok n : Except String Nat)⟩ => decide (t = threadId ∧ n = 1)
  | _ => false

theorem op_of_won {ev : Event sql} (h : won threadId ev = true) : ∃ n, ev.op = .updateClaimed threadId n := by
  unfold won at h
  split at h
  · rw [(of_decide_eq_true h).1]
    exact ⟨_, rfl⟩
  · cases h

/-- What a statement that saves nothing into the thread does to its newest row. -/
theorem newest_of_answers {o : Statement} {r : Except String o.Result} (h : Answers T o r T') {row : Row}
    (hrow : T.Newest threadId row) (hinserted : inserted threadId ⟨o, r⟩ = none) :
    (won threadId ⟨o, r⟩ = false ∧ T'.Newest threadId row) ∨
      won threadId ⟨o, r⟩ = true ∧ row.status = "Yielded" ∧
        ∃ n, o = .updateClaimed threadId n ∧ T'.Newest threadId (row.claimedFor n) := by
  cases h with
  | failed T o msg => cases o <;> exact Or.inl ⟨rfl, hrow⟩
  | inserted T c time hid =>
    have hc : c.threadId ≠ threadId := fun hc => by simp [inserted, hc] at hinserted
    refine Or.inl ⟨rfl, hrow.congr ?_⟩
    rw [Table.thread_insert, if_neg hc, List.append_nil]
  | selectedResolved => exact Or.inl ⟨rfl, hrow⟩
  | selectedLatest => exact Or.inl ⟨rfl, hrow⟩
  | selectedRow => exact Or.inl ⟨rfl, hrow⟩
  | updatedClaimed T order t n =>
    by_cases ht : t = threadId
    · subst ht
      have hclaim := hrow.claim order n
      rw [won, Table.claimable_eq (hrow.latest order)]
      by_cases hyielded : row.status = "Yielded"
      · rw [Table.claimRow, if_pos ⟨rfl, hyielded⟩] at hclaim
        rw [if_pos hyielded]
        exact Or.inr ⟨decide_eq_true ⟨rfl, rfl⟩, hyielded, n, rfl, hclaim⟩
      · rw [claimRow_of_ne hyielded] at hclaim
        rw [if_neg hyielded]
        exact Or.inl ⟨by simp, hclaim⟩
    · refine Or.inl ⟨decide_eq_false fun hand => ht hand.1, hrow.congr ?_⟩
      exact Table.thread_claim_of_ne (Ne.symm ht) n

section Newest

variable {tr : List (Entry sql ι Table)} {row : Row}

/-- While nothing is saved into the thread, its newest row asks what it asked. -/
theorem newest_asks_of_trail (h : Trail Answers T₀ tr T) (hrow : T₀.Newest threadId row)
    (hinserted : ∀ e ∈ tr, inserted threadId e.event = none) :
    ∃ row', T.Newest threadId row' ∧ row'.yieldRequest = row.yieldRequest := by
  induction h generalizing row with
  | nil T => exact ⟨row, hrow, rfl⟩
  | @cons T T₁ T' i o r tr hsem _ ih =>
    obtain ⟨hinserted, hinserteds⟩ := List.forall_mem_cons.1 hinserted
    rcases newest_of_answers hsem hrow hinserted with ⟨-, hnewest⟩ | ⟨-, -, n, -, hnewest⟩
    · exact ih hnewest hinserteds
    · obtain ⟨row', hrow', hasks⟩ := ih hnewest hinserteds
      exact ⟨row', hrow', hasks⟩

/-- A newest row that does not wait stays the newest, and no update turns it. -/
theorem untouched_of_trail (h : Trail Answers T₀ tr T) (hrow : T₀.Newest threadId row)
    (hstatus : row.status ≠ "Yielded") (hinserted : ∀ e ∈ tr, inserted threadId e.event = none) :
    T.Newest threadId row ∧ tr.filter (fun e => won threadId e.event) = [] := by
  induction h with
  | nil T => exact ⟨hrow, rfl⟩
  | @cons T T₁ T' i o r tr hsem _ ih =>
    obtain ⟨hinserted, hinserteds⟩ := List.forall_mem_cons.1 hinserted
    rcases newest_of_answers hsem hrow hinserted with ⟨hno, hnewest⟩ | ⟨-, hyielded, -⟩
    · obtain ⟨hend, hnone⟩ := ih hnewest hinserteds
      exact ⟨hend, by rw [List.filter_cons_of_neg (by simp [Entry.event, hno]), hnone]⟩
    · exact absurd hyielded hstatus

/-- The newest row waits until one update turns it; nothing turns it again. -/
theorem newest_of_trail (h : Trail Answers T₀ tr T) (hrow : T₀.Newest threadId row)
    (hinserted : ∀ e ∈ tr, inserted threadId e.event = none)
    (hupdates : ∀ e ∈ tr, ∀ n, e.op = .updateClaimed threadId n → n = interruptId) :
    (T.Newest threadId row ∧ tr.filter (fun e => won threadId e.event) = []) ∨
      T.Newest threadId (row.claimedFor interruptId) ∧
        ∃ e, tr.filter (fun e => won threadId e.event) = [e] := by
  induction h with
  | nil T => exact Or.inl ⟨hrow, rfl⟩
  | @cons T T₁ T' i o r tr hsem hrest ih =>
    obtain ⟨hinserted, hinserteds⟩ := List.forall_mem_cons.1 hinserted
    obtain ⟨hupdate, hupdates⟩ := List.forall_mem_cons.1 hupdates
    rcases newest_of_answers hsem hrow hinserted with ⟨hno, hnewest⟩ | ⟨hyes, -, n, hop, hnewest⟩
    · rw [List.filter_cons_of_neg (by simp [Entry.event, hno])]
      exact ih hnewest hinserteds hupdates
    · -- the row is `Running` now
      rw [hupdate n hop] at hnewest
      have hrunning : (row.claimedFor interruptId).status ≠ "Yielded" := show "Running" ≠ "Yielded" by decide
      obtain ⟨hend, hnone⟩ := untouched_of_trail hrest hnewest hrunning hinserteds
      exact Or.inr ⟨hend, ⟨i, T, o, r⟩, by rw [List.filter_cons_of_pos (by exact hyes), hnone]⟩

end Newest

/-- The statement succeeded. -/
def Answered (ev : Event sql) : Prop := ∃ a, ev.ans = .ok a

/-! ### The winner -/

/-- The statements of a claim up to its second read. -/
def reads (threadId interruptId : String) (latest : Option (String × Option Value × Option String)) :
    List (Event sql) :=
  [⟨.selectResolved threadId interruptId, (.ok false : Except String Bool)⟩,
    ⟨.selectLatest threadId, (.ok latest : Except String (Option (String × Option Value × Option String)))⟩]

theorem not_won_of_reads (latest : Option (String × Option Value × Option String)) :
    ∀ ev ∈ reads threadId interruptId latest, won threadId ev = false := by
  intro ev hev
  rcases List.mem_cons.1 hev with rfl | hev
  · rfl
  · rw [List.mem_singleton.1 hev]
    rfl

theorem not_won_concat {q : List (Event sql)} {e : Event sql} (hq : ∀ ev ∈ q, won threadId ev = false)
    (he : won threadId e = false) : ∀ ev ∈ q ++ [e], won threadId ev = false := by
  intro ev hev
  rcases List.mem_append.1 hev with hold | hnew
  · exact hq ev hold
  · rw [List.mem_singleton.1 hnew, he]

section Winner

variable [Serde YieldRequest]

/-- A claim updates last, and only after it has read a row that waits for the interrupt. -/
def claiming (threadId interruptId : String) : Protocol sql (List (Event sql)) where
  allow q o := (∀ ev ∈ q, won threadId ev = false) ∧ ∀ t n, o = .updateClaimed t n → t = threadId ∧ n = interruptId ∧
    ∃ yieldRequest claimed, ⟨.selectLatest threadId, (.ok (some ("Yielded", yieldRequest, claimed)) :
      Except String (Option (String × Option Value × Option String)))⟩ ∈ q ∧
      askedInterrupt yieldRequest = some interruptId
  next q o r := q ++ [⟨o, r⟩]

theorem after_claiming (q tr : List (Event sql)) : (claiming threadId interruptId).after q tr = q ++ tr :=
  after_recorder q tr

/-- How a claim whose statements succeeded has ended. -/
def Decided (threadId interruptId : String) (q : List (Event sql)) (x : Except TakelnError ClaimResult) : Prop :=
  ∃ resolved rest, q = ⟨.selectResolved threadId interruptId, (.ok resolved : Except String Bool)⟩ :: rest ∧
    (resolved = false → ∃ latest rest', rest = ⟨.selectLatest threadId, (.ok latest :
        Except String (Option (String × Option Value × Option String)))⟩ :: rest' ∧
      (∀ yieldRequest, latest = some ("Running", yieldRequest, some interruptId) → x = .ok .inProgress) ∧
      ∀ yieldRequest claimed, latest = some ("Yielded", yieldRequest, claimed) →
        askedInterrupt yieldRequest = some interruptId →
        (∃ n, rest' = [⟨.updateClaimed threadId interruptId, (.ok n : Except String Nat)⟩]) ∧
          (x = .ok .claimed ∨ ∃ msg, x = .error (.executionError msg)))

/-- What a claim has done when it has ended. -/
def Claimed (threadId interruptId : String) (q : List (Event sql)) (x : Except TakelnError ClaimResult) : Prop :=
  (x = .ok .claimed ↔ ∃ ev ∈ q, won threadId ev = true) ∧ ((∀ ev ∈ q, Answered ev) → Decided threadId interruptId q x)

/-- A claim that ends without an update has not won. -/
theorem claimed_of_not_won {q : List (Event sql)} {x : Except TakelnError ClaimResult}
    (hq : ∀ ev ∈ q, won threadId ev = false) (hx : x ≠ .ok .claimed)
    (hdecided : (∀ ev ∈ q, Answered ev) → Decided threadId interruptId q x) : Claimed threadId interruptId q x := by
  refine ⟨iff_of_false hx ?_, hdecided⟩
  rintro ⟨ev, hev, hwon⟩
  exact absurd (hq ev hev) (by simp [hwon])

/-- A claim that ends with a failed statement has not won. -/
theorem claimed_of_failed {q : List (Event sql)} {o : Statement} {msg : String} {e : TakelnError}
    (hq : ∀ ev ∈ q ++ [⟨o, (.error msg : Except String o.Result)⟩], won threadId ev = false) :
    Claimed threadId interruptId (q ++ [⟨o, (.error msg : Except String o.Result)⟩]) (.error e) := by
  refine claimed_of_not_won hq (fun h => (nomatch h)) fun hans => ?_
  obtain ⟨a, ha⟩ := hans _ (List.mem_append_right _ (List.mem_singleton_self _))
  cases ha

/-- A claim that gives up after its reads. -/
theorem claimed_of_reads {latest : Option (String × Option Value × Option String)}
    {x : Except TakelnError ClaimResult} (hx : x ≠ .ok .claimed)
    (hrunning : ∀ yieldRequest, latest = some ("Running", yieldRequest, some interruptId) → x = .ok .inProgress)
    (hyielded : ∀ yieldRequest claimed, latest = some ("Yielded", yieldRequest, claimed) →
      askedInterrupt yieldRequest ≠ some interruptId) :
    Claimed threadId interruptId (reads threadId interruptId latest) x :=
  claimed_of_not_won (not_won_of_reads latest) hx fun _ =>
    ⟨false, _, rfl, fun _ => ⟨latest, [], rfl, hrunning, fun y c h hasked => absurd hasked (hyielded y c h)⟩⟩

theorem follows_claiming_updateClaim {yieldRequest : Option Value} {claimed : Option String}
    (hasked : askedInterrupt yieldRequest = some interruptId) :
    Follows (claiming threadId interruptId) (updateClaim threadId interruptId)
      (reads threadId interruptId (some ("Yielded", yieldRequest, claimed))) (Claimed threadId interruptId) := by
  unfold updateClaim
  rw [bind_eq, follows_bind, follows_execute]
  refine ⟨⟨not_won_of_reads _, fun t n h => ?_⟩, fun r => ?_⟩
  · cases h
    exact ⟨rfl, rfl, yieldRequest, claimed, by simp [reads], hasked⟩
  · have hdecided : ∀ (n : Nat) (x : Except TakelnError ClaimResult),
        (x = .ok .claimed ∨ ∃ msg, x = .error (.executionError msg)) →
        Decided threadId interruptId (reads threadId interruptId (some ("Yielded", yieldRequest, claimed)) ++
          [⟨.updateClaimed threadId interruptId, (.ok n : Except String Nat)⟩]) x := fun n x hx =>
      ⟨false, _, rfl, fun _ => ⟨_, _, rfl, fun _ h => absurd (congrArg (fun c => c.map Prod.fst) h)
        (show some "Yielded" ≠ some "Running" by decide), fun _ _ _ _ => ⟨⟨n, rfl⟩, hx⟩⟩⟩
    cases r with
    | error msg => exact claimed_of_failed (not_won_concat (not_won_of_reads _) rfl)
    | ok n =>
      show Follows _ (if (n : Nat) = 1 then _ else _) _ _
      split
      · rename_i hn
        refine ⟨iff_of_true rfl ⟨_, List.mem_append_right _ (List.mem_singleton_self _), ?_⟩,
          fun _ => hdecided n _ (Or.inl rfl)⟩
        exact decide_eq_true ⟨rfl, hn⟩
      · rename_i hn
        refine claimed_of_not_won (not_won_concat (not_won_of_reads _) ?_) (fun h => (nomatch h))
          fun _ => hdecided n _ (Or.inr ⟨_, rfl⟩)
        exact decide_eq_false fun hand => hn hand.2

theorem follows_claiming_claimLatest (statusStr : String) (yieldReqVal : Option Value) (claimed : Option String) :
    Follows (claiming threadId interruptId) (claimLatest threadId interruptId statusStr yieldReqVal claimed)
      (reads threadId interruptId (some (statusStr, yieldReqVal, claimed))) (Claimed threadId interruptId) := by
  have hrunning : parseCheckpointStatus "Running" = .running := parseCheckpointStatus_debug .running
  have hyielded : parseCheckpointStatus "Yielded" = .yielded := parseCheckpointStatus_debug .yielded
  unfold claimLatest
  dsimp only
  split
  · rename_i hand
    refine claimed_of_reads (by simp) (fun _ _ => rfl) fun y c h => ?_
    cases h
    rw [hyielded] at hand
    cases hand.1
  · rename_i hnot
    have hidle : ∀ y, (some (statusStr, yieldReqVal, claimed) : Option (String × Option Value × Option String)) =
        some ("Running", y, some interruptId) → False := by
      intro y h
      cases h
      exact hnot ⟨hrunning, rfl⟩
    split
    · rename_i hother
      have hrefused : ∀ e : TakelnError, Claimed threadId interruptId
          (reads threadId interruptId (some (statusStr, yieldReqVal, claimed))) (.error e) := by
        refine fun e => claimed_of_reads (by simp) (fun y h => (hidle y h).elim) fun y c h => ?_
        cases h
        exact absurd hyielded hother
      split
      · exact hrefused _
      · exact hrefused _
    · rename_i hwaits
      have hstatus := parseCheckpointStatus_eq_yielded.1 (not_not.1 hwaits)
      subst hstatus
      cases yieldReqVal with
      | none =>
        refine claimed_of_reads (by simp) (fun y h => (hidle y h).elim) fun y c h => ?_
        cases h
        simp [askedInterrupt]
      | some v =>
        show Follows _ (Prog.bind (decode v) _) _ _
        unfold decode
        rw [follows_bind, follows_ofExcept]
        cases hdec : (Serde.fromValue v : Except String YieldRequest) with
        | error e =>
          refine claimed_of_reads (by simp) (fun y h => (hidle y h).elim) fun y c h => ?_
          cases h
          simp [askedInterrupt, hdec, Except.toOption]
        | ok request =>
          have hasks : askedInterrupt (some v) = some request.interruptId := by
            simp [askedInterrupt, hdec, Except.toOption]
          show Follows _ (if request.interruptId ≠ interruptId then _ else _) _ _
          by_cases hid : request.interruptId = interruptId
          · rw [if_neg (not_not.2 hid)]
            exact follows_claiming_updateClaim (hasks.trans (congrArg some hid))
          · rw [if_pos hid]
            refine claimed_of_reads (by simp) (fun y h => (hidle y h).elim) fun y c h => ?_
            cases h
            rw [hasks]
            exact fun h => hid (Option.some.inj h)

/-- A claim keeps to this. -/
theorem follows_claiming : Follows (claiming threadId interruptId) (claimInterrupt threadId interruptId) []
    (Claimed threadId interruptId) := by
  unfold claimInterrupt
  rw [bind_eq, follows_bind, follows_execute]
  have hstart : ∀ ev ∈ ([] : List (Event sql)), won threadId ev = false := by simp
  refine ⟨⟨hstart, fun t n h => (nomatch h)⟩, fun r => ?_⟩
  cases r with
  | error msg => exact claimed_of_failed (not_won_concat hstart rfl)
  | ok resolved =>
    have hchecked := not_won_concat (e := ⟨.selectResolved threadId interruptId, .ok resolved⟩) hstart rfl
    cases (resolved : Bool) with
    | true =>
      exact claimed_of_not_won hchecked (fun h => (nomatch h)) fun _ => ⟨true, [], rfl, fun h => (nomatch h)⟩
    | false =>
      show Follows _ (Prog.bind (execute _ _) _) _ _
      rw [follows_bind, follows_execute]
      refine ⟨⟨hchecked, fun t n h => (nomatch h)⟩, fun r => ?_⟩
      cases r with
      | error msg => exact claimed_of_failed (not_won_concat hchecked rfl)
      | ok latest =>
        cases (latest : Option (String × Option Value × Option String)) with
        | none =>
          refine claimed_of_reads (fun h => (nomatch h)) (fun _ h => (nomatch h)) fun y c h => (nomatch h)
        | some row => exact follows_claiming_claimLatest row.1 row.2.1 row.2.2

variable [DecidableEq ι] {P₀ P : ι → Prog sql TakelnError ClaimResult} {tr : List (Entry sql ι Table)} {row : Row}

omit [Serde YieldRequest] in
theorem mem_own {i : ι} {ev : Event sql} (h : ev ∈ own i tr) : ∃ e ∈ tr, e.who = i ∧ e.event = ev := by
  obtain ⟨e, he, rfl⟩ := List.mem_map.1 h
  obtain ⟨hmem, hwho⟩ := List.mem_filter.1 he
  exact ⟨e, hmem, of_decide_eq_true hwho, rfl⟩

omit [Serde YieldRequest] in
theorem answers_resolved (h : Answers T (.selectResolved threadId interruptId) (.ok true : Except String Bool) T') :
    ((T.thread threadId).any fun r => r.resolvedInterrupt == some interruptId) = true := by
  generalize hr : (.ok true : Except String Bool) = r at h
  cases h with
  | failed => cases hr
  | selectedResolved => exact (Except.ok.inj hr).symm

/-- Clients that claim the interrupt the newest row of a thread asks and no row resolves, while nothing is saved into
the thread, only claims update it, and all statements succeed. -/
structure Contest (P₀ : ι → Prog sql TakelnError ClaimResult) (T₀ : Table) (tr : List (Entry sql ι Table))
    (threadId interruptId : String) : Prop where
  open_ : ∃ row, T₀.Newest threadId row ∧ row.status = "Yielded" ∧ T₀.Open threadId interruptId row
  answered : ∀ e ∈ tr, Answered e.event
  saves : insertedInto threadId tr = []
  updates : ∀ e ∈ tr, ∀ n, e.op = .updateClaimed threadId n → ∃ n', P₀ e.who = claimInterrupt threadId n'

namespace Contest

omit [DecidableEq ι] in
theorem of_append {tr' : List (Entry sql ι Table)} (h : Contest P₀ T₀ (tr ++ tr') threadId interruptId) :
    Contest P₀ T₀ tr threadId interruptId where
  open_ := h.open_
  answered e he := h.answered e (List.mem_append_left _ he)
  saves := by
    have hsaves := h.saves
    rw [insertedInto, List.filterMap_append] at hsaves
    exact (List.append_eq_nil_iff.1 hsaves).1
  updates e he := h.updates e (List.mem_append_left _ he)

omit [DecidableEq ι] in
theorem inserted_eq (h : Contest P₀ T₀ tr threadId interruptId) : ∀ e ∈ tr, inserted threadId e.event = none :=
  List.filterMap_eq_nil_iff.1 h.saves

/-- Who updates the thread claims the open interrupt. -/
theorem update_eq (h : Contest P₀ T₀ tr threadId interruptId) (hI : Interleaving Answers P₀ T₀ tr P T) :
    ∀ e ∈ tr, ∀ n, e.op = .updateClaimed threadId n →
      n = interruptId ∧ P₀ e.who = claimInterrupt threadId interruptId := by
  intro e he n hop
  obtain ⟨n', hstart⟩ := h.updates e he n hop
  obtain ⟨l, l', rfl⟩ := List.append_of_mem he
  obtain ⟨-, hallow⟩ := hI.allow_at rfl (hstart ▸ follows_claiming)
  obtain ⟨-, rfl, yieldRequest, claimed, hread, hasked⟩ := hallow threadId n hop
  rw [after_claiming, List.nil_append] at hread
  -- what it has read is the row that was there from the start
  obtain ⟨read, hmem, -, hrev⟩ := mem_own hread
  obtain ⟨l₁, l₂, rfl⟩ := List.append_of_mem hmem
  have hsplit : l₁ ++ read :: l₂ ++ e :: l' = l₁ ++ read :: (l₂ ++ e :: l') := by simp
  rw [hsplit] at hI h
  obtain ⟨hbefore, T₁, hsem, -⟩ := hI.trail.split
  obtain ⟨who, T₂, o, r⟩ := read
  cases hrev
  obtain ⟨-, order, hfound⟩ := answers_selectLatest hsem
  obtain ⟨row, hrow, -, hopen, -⟩ := h.open_
  obtain ⟨last, hlast, hsame⟩ := newest_asks_of_trail hbefore hrow h.of_append.inserted_eq
  rw [hlast.latest order] at hfound
  have hcolumn : yieldRequest = last.yieldRequest := congrArg (fun c => c.2.1) (Option.some.inj hfound)
  rw [hcolumn, hsame, hopen] at hasked
  cases hasked
  exact ⟨rfl, hstart⟩

/-- What each statement finds: nothing resolves the interrupt, and the newest row waits for it, or is `Running` for it.
-/
theorem at_entry (h : Contest P₀ T₀ tr threadId interruptId) (hI : Interleaving Answers P₀ T₀ tr P T)
    {e : Entry sql ι Table} (he : e ∈ tr) :
    ∃ T₁, Answers e.world e.op e.ans T₁ ∧ (∀ row ∈ e.world.thread threadId, row.resolvedInterrupt ≠ some interruptId) ∧
      ∃ row, row.status = "Yielded" ∧ askedInterrupt row.yieldRequest = some interruptId ∧
        (e.world.Newest threadId row ∨ e.world.Newest threadId (row.claimedFor interruptId) ∧
          ∃ e' ∈ tr, won threadId e'.event = true) := by
  have hupdates := h.update_eq hI
  obtain ⟨l, l', rfl⟩ := List.append_of_mem he
  obtain ⟨hbefore, T₁, hsem, -⟩ := hI.trail.split
  have hfront := h.of_append
  obtain ⟨row, hrow, hyielded, hasked, hunresolved⟩ := hfront.open_
  refine ⟨T₁, hsem, (unresolved_iff (requests_of_trail hbefore threadId) hunresolved).2
    (by rw [hfront.saves]; simp), row, hyielded, hasked, ?_⟩
  rcases newest_of_trail hbefore hrow hfront.inserted_eq
    fun e he n hop => (hupdates e (List.mem_append_left _ he) n hop).1 with ⟨hwaits, -⟩ | ⟨hturned, e', hone⟩
  · exact Or.inl hwaits
  · have hmem : e' ∈ l.filter fun e => won threadId e.event := by rw [hone]; exact List.mem_singleton_self _
    exact Or.inr ⟨hturned, e', List.mem_append_left _ (List.mem_filter.1 hmem).1, (List.mem_filter.1 hmem).2⟩

/-- A claim that has ended has won, or is in progress or has failed; and then some claim has won. -/
theorem of_ended (h : Contest P₀ T₀ tr threadId interruptId) (hI : Interleaving Answers P₀ T₀ tr P T) {i : ι}
    {x : Except TakelnError ClaimResult} (hi : P₀ i = claimInterrupt threadId interruptId)
    (hx : (P i).outcome = some x) :
    (x = .ok .claimed ∨ x = .ok .inProgress ∨ ∃ msg, x = .error (.executionError msg)) ∧
      ∃ e ∈ tr, won threadId e.event = true := by
  have hend := (hI.allow_own (hi ▸ follows_claiming)).1.of_outcome hx
  rw [after_claiming, List.nil_append] at hend
  obtain ⟨resolved, rest, hown, hreads⟩ := hend.2 fun ev hev => by
    obtain ⟨e, he, -, rfl⟩ := mem_own hev
    exact h.answered e he
  -- nothing resolves the interrupt
  have hresolved : resolved = false := by
    obtain ⟨⟨who, T₁, o, r⟩, he, -, hev⟩ := mem_own (hown ▸ List.mem_cons_self)
    cases hev
    obtain ⟨T₂, hsem, hunresolved, -⟩ := h.at_entry hI he
    cases resolved with
    | false => rfl
    | true =>
      obtain ⟨row, hrow, heq⟩ := List.any_eq_true.1 (answers_resolved hsem)
      exact absurd (beq_iff_eq.1 heq) (hunresolved row hrow)
  obtain ⟨latest, rest', rfl, hrunning, hyielded⟩ := hreads hresolved
  obtain ⟨⟨who, T₁, o, r⟩, he, -, hev⟩ := mem_own (hown ▸ List.mem_cons_of_mem _ List.mem_cons_self)
  cases hev
  obtain ⟨T₂, hsem, -, row, hstatus, hasked, hrow⟩ := h.at_entry hI he
  obtain ⟨-, order, hfound⟩ := answers_selectLatest hsem
  rcases hrow with hrow | ⟨hrow, hwon⟩
  · -- it has updated, after all reads
    rw [hrow.latest order, Option.map_some, hstatus] at hfound
    obtain ⟨⟨n, rfl⟩, hx⟩ := hyielded _ _ hfound hasked
    refine ⟨hx.imp id Or.inr, ?_⟩
    obtain ⟨⟨who', T₃, o', r'⟩, he', -, hev'⟩ := mem_own (i := i)
      (hown ▸ List.mem_cons_of_mem _ (List.mem_cons_of_mem _ List.mem_cons_self))
    cases hev'
    obtain ⟨T₄, hsem', -, row', hstatus', -, hrow' | ⟨-, hwon⟩⟩ := h.at_entry hI he'
    · obtain ⟨order', hn, -⟩ := answers_updateClaimed hsem'
      rw [Table.claimable_eq (hrow'.latest order'), if_pos hstatus'] at hn
      exact ⟨_, he', decide_eq_true ⟨rfl, hn⟩⟩
    · exact hwon
  · rw [hrow.latest order, Option.map_some] at hfound
    exact ⟨Or.inr (Or.inl (hrunning _ hfound)), hwon⟩

end Contest

/-- Any number of clients claim the interrupt that the newest row of a thread asks, in any interleaving with clients of
other threads, and all statements succeed.  As soon as one of them has ended, exactly one is told `Claimed`, and the
newest row is `Running` for it; any other one that has ended is told that the claim is in progress, or that it has
failed. -/
theorem claim_decided (hI : Interleaving Answers P₀ T₀ tr P T)
    (hcontest : Contest P₀ T₀ tr threadId interruptId) {i : ι}
    (hi : P₀ i = claimInterrupt threadId interruptId) (hended : (P i).outcome ≠ none) :
    ∃ winner, P₀ winner = claimInterrupt threadId interruptId ∧ P winner = .ret .claimed ∧
      (∃ row, T.Newest threadId row ∧ row.status = "Running" ∧ row.claimedInterrupt = some interruptId) ∧
      (∀ j n, P₀ j = claimInterrupt threadId n → P j = .ret .claimed → j = winner) ∧
      ∀ j x, P₀ j = claimInterrupt threadId interruptId → (P j).outcome = some x → j ≠ winner →
        x = .ok .inProgress ∨ ∃ msg, x = .error (.executionError msg) := by
  obtain ⟨x, hx⟩ := Option.ne_none_iff_exists'.1 hended
  obtain ⟨-, e, he, hwon⟩ := hcontest.of_ended hI hi hx
  obtain ⟨row, hrow, hyielded, hasked, -⟩ := hcontest.open_
  have hupdates := hcontest.update_eq hI
  -- one update has turned the row
  have hturned := newest_of_trail hI.trail hrow hcontest.inserted_eq
    fun e he n hop => (hupdates e he n hop).1
  have hmem : e ∈ tr.filter fun e => won threadId e.event := List.mem_filter.2 ⟨he, hwon⟩
  rcases hturned with ⟨-, hnone⟩ | ⟨hlatest, e', hone⟩
  · rw [hnone] at hmem
    exact absurd hmem List.not_mem_nil
  rw [hone] at hmem
  cases List.mem_singleton.1 hmem
  have honly : ∀ j n, P₀ j = claimInterrupt threadId n → P j = .ret .claimed → j = e.who := by
    intro j n hj hret
    have hend := (hI.allow_own (hj ▸ follows_claiming)).1
    rw [hret, follows_ret, after_claiming, List.nil_append] at hend
    obtain ⟨ev, hev, hwon'⟩ := hend.1.1 rfl
    obtain ⟨e'', he'', rfl, rfl⟩ := mem_own hev
    have hmem' : e'' ∈ tr.filter fun e => won threadId e.event := List.mem_filter.2 ⟨he'', hwon'⟩
    rw [hone] at hmem'
    rw [List.mem_singleton.1 hmem']
  -- who has performed it is told so
  obtain ⟨n, hop⟩ := op_of_won hwon
  have hstart := (hupdates e he n hop).2
  have hclaimed : P e.who = .ret .claimed := by
    have hend := (hI.allow_own (hstart ▸ follows_claiming)).1
    have hown : e.event ∈ own e.who tr := List.mem_map_of_mem (List.mem_filter.2 ⟨he, decide_eq_true rfl⟩)
    rw [after_claiming, List.nil_append] at hend
    generalize P e.who = p at hend
    cases p with
    | ret a =>
      cases hend.1.2 ⟨_, hown, hwon⟩
      rfl
    | fail err => cases hend.1.2 ⟨_, hown, hwon⟩
    | perform o k => exact absurd (hend.1.1 _ hown) (by simp [hwon])
  refine ⟨e.who, hstart, hclaimed, ⟨_, hlatest, rfl, rfl⟩, honly, fun j x hj hx hne => ?_⟩
  rcases (hcontest.of_ended hI hj hx).1 with rfl | hlost
  · exact absurd (honly j _ hj (eq_ofExcept_of_outcome hx)) hne
  · exact hlost

end Winner

/-! ### Two clients -/

section Examples

attribute [local instance] instSerdeYieldRequest instSerdeDAG

/-- Two clients claim the interrupt: the first one checks and reads, then the other one goes all the way. -/
def contended : List (Entry sql Bool Table) × (Bool → Prog sql TakelnError ClaimResult) × Table :=
  (schedule database [false, false, true, true, true, false] [] (fun _ => claimInterrupt "t" "q") asking).get
    (by decide +kernel)

theorem schedule_contended :
    schedule database [false, false, true, true, true, false] [] (fun _ => claimInterrupt "t" "q") asking =
      some contended := (Option.some_get _).symm

theorem contended_interleaving :
    Interleaving Answers (fun _ => claimInterrupt "t" "q") asking contended.1 contended.2.1 contended.2.2 :=
  (Interleaving.start.schedule schedule_contended).mono database_answers

theorem contended_claimed : contended.2.1 true = .ret .claimed := eq_of_isClaimed (by decide +kernel)

theorem claims_exclusive_contended :
    contended.2.1 true = .ret .claimed ∧
    ∃ claimed : Bool → String,
      (∀ i threadId interruptId, claimInterrupt "t" "q" = claimInterrupt threadId interruptId →
        contended.2.1 i = .ret .claimed →
        ∃ row ∈ contended.2.2.rows, row.id = claimed i ∧ row.threadId = threadId ∧ row.status = "Running" ∧
          row.claimedInterrupt = some interruptId ∧ SavedYielded asking contended.1 row.id threadId) ∧
      ∀ i j, (∃ threadId interruptId, claimInterrupt "t" "q" = claimInterrupt threadId interruptId) →
        contended.2.1 i = .ret .claimed →
        (∃ threadId interruptId, claimInterrupt "t" "q" = claimInterrupt threadId interruptId) →
        contended.2.1 j = .ret .claimed → claimed i = claimed j → i = j :=
  ⟨contended_claimed, claims_exclusive contended_interleaving⟩

theorem asking_open :
    ∃ row, asking.Newest "t" row ∧ row.status = "Yielded" ∧ asking.Open "t" "q" row := by
  have hone : (asking.thread "t").length = 1 := by decide +kernel
  have hall : (asking.thread "t").all (fun row => decide (row.status = "Yielded" ∧
      askedInterrupt row.yieldRequest = some "q" ∧ row.resolvedInterrupt ≠ some "q")) = true := by decide +kernel
  obtain ⟨row, hrow⟩ := List.length_eq_one_iff.1 hone
  rw [hrow] at hall
  obtain ⟨hstatus, hasks, hunresolved⟩ := of_decide_eq_true (List.all_eq_true.1 hall row List.mem_cons_self)
  refine ⟨row, ⟨by simp [hrow], fun r hr hne => ?_⟩, hstatus, hasks, fun r hr => ?_⟩
  · rw [hrow, List.mem_singleton] at hr
    exact absurd (congrArg (fun r => r.id) hr) hne
  · rw [hrow, List.mem_singleton] at hr
    exact hr ▸ hunresolved

/-- A statement of a claim that was answered. -/
def isAnswer : Event sql → Bool
  | ⟨.selectResolved _ _, (.ok _ : Except String Bool)⟩ => true
  | ⟨.selectLatest _, (.ok _ : Except String (Option (String × Option Value × Option String)))⟩ => true
  | ⟨.updateClaimed _ _, (.ok _ : Except String Nat)⟩ => true
  | _ => false

theorem answered_of_isAnswer {ev : Event sql} (h : isAnswer ev = true) :
    Answered ev ∧ inserted "t" ev = none := by
  unfold isAnswer at h
  split at h
  · exact ⟨⟨_, rfl⟩, rfl⟩
  · exact ⟨⟨_, rfl⟩, rfl⟩
  · exact ⟨⟨_, rfl⟩, rfl⟩
  · cases h

theorem contended_contest : Contest (fun _ => claimInterrupt "t" "q") asking contended.1 "t" "q" := by
  have hall : contended.1.all (fun e => isAnswer e.event) = true := by decide +kernel
  have hanswers := fun e he => answered_of_isAnswer (List.all_eq_true.1 hall e he)
  exact ⟨asking_open, fun e he => (hanswers e he).1, List.filterMap_eq_nil_iff.2 fun e he => (hanswers e he).2,
    fun _ _ _ _ => ⟨"q", rfl⟩⟩

theorem claim_decided_contended :
    ∃ winner, claimInterrupt "t" "q" = claimInterrupt "t" "q" ∧ contended.2.1 winner = .ret .claimed ∧
      (∃ row, contended.2.2.Newest "t" row ∧ row.status = "Running" ∧ row.claimedInterrupt = some "q") ∧
      (∀ j n, claimInterrupt "t" "q" = claimInterrupt "t" n → contended.2.1 j = .ret .claimed → j = winner) ∧
      ∀ j x, claimInterrupt "t" "q" = claimInterrupt "t" "q" → (contended.2.1 j).outcome = some x → j ≠ winner →
        x = .ok .inProgress ∨ ∃ msg, x = .error (.executionError msg) :=
  claim_decided contended_interleaving contended_contest (i := true) rfl (by rw [contended_claimed]; decide)

end Examples

end Takeln.Postgres
