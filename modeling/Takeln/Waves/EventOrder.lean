import Takeln.Model.Tasks
import Takeln.Waves.Requests

/-!
# The order of the events of a wave

A task that runs alone announces its events in the order of their numbers.  Two tasks that hold a permit at once may
take their numbers in one order and broadcast in the other.  So the events of a wave are received in order whatever the
interleaving just if the wave has at most one node, or the semaphore lets one task run at a time
(`events_ordered_iff`).
-/

namespace Takeln

open Effect Prog

variable {S : Type} {ι : Type}

/-! ### What a task does next -/

/-- A task waits for its permit, holds it, perhaps with a number it has not broadcast yet, or has ended. -/
inductive TaskPhase
  | waiting
  | running (pending : Option Nat)
  | done

/-- A task numbers, calls and broadcasts while it holds its permit, and broadcasts a number before it does anything
else. -/
def taskProtocol : Protocol (taskOps S) TaskPhase where
  allow
    | q, .acquire => q = .waiting
    | q, .send event => q = .running (some event.sequenceNumber)
    | q, .fetchAdd => q = .running none
    | q, .callNode .. => q = .running none
    | q, .release => q = .running none
  next
    | _, .acquire, _ => .running none
    | _, .fetchAdd, n => .running (some n)
    | _, .send _, _ => .running none
    | q, .callNode .., _ => q
    | _, .release, _ => .done

private theorem follows_announce {E : Type} {event : Nat → GraphEvent} (hevent : ∀ n, (event n).sequenceNumber = n)
    {Φ : TaskPhase → Except E Unit → Prop} (hΦ : Φ (.running none) (.ok ())) :
    Follows (taskProtocol (S := S)) (announce event) (.running none) Φ :=
  ⟨rfl, fun n => ⟨congrArg (fun n => TaskPhase.running (some n)) (hevent n).symm, fun _ => hΦ⟩⟩

namespace WaveTask

variable [External] (g : Graph S) (t : WaveTask S)

private theorem follows_callRetrying (left attempt : Nat) :
    Follows taskProtocol (t.callRetrying g left attempt) (.running none) fun q _ => q = .running none := by
  induction left generalizing attempt with
  | zero =>
    rw [callRetrying, follows_perform]
    refine ⟨rfl, fun answer => ?_⟩
    rcases answer with panic | answer
    · rfl
    · rcases hres : answer.result t.nodeName with e | out
      · cases e <;> simp [hres, taskProtocol]
      · simp [hres, taskProtocol]
  | succ left ih =>
    rw [callRetrying, follows_perform]
    refine ⟨rfl, fun answer => ?_⟩
    rcases answer with panic | answer
    · rfl
    · rcases hres : answer.result t.nodeName with e | out
      · cases e with
        | retryable msg =>
          simp only [hres]
          exact ih (attempt + 1)
        | _ => simp [hres, taskProtocol]
      · simp [hres, taskProtocol]

private theorem follows_callNode :
    Follows taskProtocol (t.callNode g) (.running none) fun q _ => q = .running none := by
  rw [callNode]
  split
  · rw [follows_perform]
    refine ⟨rfl, fun answer => ?_⟩
    rcases answer with panic | answer <;> rfl
  · exact follows_callRetrying g t _ _

/-- A task keeps to the protocol, and hands out a result for its own node. -/
theorem follows_run :
    Follows taskProtocol (t.run g) .waiting fun q x => q = .done ∧ ∀ r, x = .ok r → r.1 = t.idx := by
  refine (follows_bind _ _ _).2 ⟨rfl, fun _ => ?_⟩
  refine (follows_bind _ _ _).2 (follows_announce (fun _ => rfl) ?_)
  refine (follows_bind _ _ _).2 ((follows_attempt _ _).2 ((follows_callNode g t).mono fun q x hq => ?_))
  subst hq
  cases x with
  | error panic => exact ⟨rfl, fun _ => ⟨rfl, fun r hr => by cases hr⟩⟩
  | ok result =>
    refine (follows_bind _ _ _).2 (follows_announce (fun _ => rfl) ⟨rfl, fun _ => ⟨rfl, fun r hr => ?_⟩⟩)
    cases hr
    rfl

/-- A task starts by numbering and announcing its node. -/
theorem run_eq : ∃ k, t.run g =
    perform (F := taskOps S) .acquire fun _ => perform (F := taskOps S) .fetchAdd fun n =>
      perform (F := taskOps S) (.send (.nodeStarted t.threadId t.nodeName n)) fun _ => k := ⟨_, rfl⟩

end WaveTask

/-! ### One task at a time -/

section Alone

variable [DecidableEq ι]

/-- The numbers of the events received. -/
def numbers (tr : List (Entry (taskOps S) ι WaveWorld)) : List Nat := (received tr).map GraphEvent.sequenceNumber

omit [DecidableEq ι] in
theorem numbers_concat (tr : List (Entry (taskOps S) ι WaveWorld)) (i : ι) (w : WaveWorld) (o : TaskOp S)
    (r : o.Answer) :
    numbers (tr ++ [⟨i, w, o, r⟩]) = numbers tr ++ (o.sent.map GraphEvent.sequenceNumber).toList := by
  rw [numbers, received_append, List.map_append]
  cases o <;> rfl

/-- At most one task holds a permit, and what it broadcasts next comes after everything broadcast. -/
structure InTurn (tr : List (Entry (taskOps S) ι WaveWorld)) (w : WaveWorld) (q : ι → TaskPhase) : Prop where
  holder : ∀ i j p p', q i = .running p → q j = .running p' → i = j
  permits : (∀ i j : ι, i = j) ∨ w.permits ≤ 1 ∧ ∀ i p, q i = .running p → w.permits = 0
  sorted : (numbers tr).Pairwise (· < ·)
  below : ∀ n ∈ numbers tr, n < w.eventSeq
  pending : ∀ i n, q i = .running (some n) → n < w.eventSeq ∧ ∀ m ∈ numbers tr, m < n

/-- A step of the holder: nobody else holds a permit before or after it. -/
private theorem InTurn.holder_update {tr : List (Entry (taskOps S) ι WaveWorld)} {w : WaveWorld} {q : ι → TaskPhase}
    {i j : ι} {p p' : Option Nat} {x : TaskPhase} (h : InTurn tr w q) (hi : q i = .running p)
    (hj : Function.update q i x j = .running p') : j = i ∧ x = .running p' := by
  by_cases hji : j = i
  · subst hji
    exact ⟨rfl, by simpa using hj⟩
  · rw [Function.update_of_ne hji] at hj
    exact absurd (h.holder j i p' p hj hi) hji

omit [DecidableEq ι] in
/-- An operation that broadcasts nothing. -/
private theorem numbers_of_silent {tr : List (Entry (taskOps S) ι WaveWorld)} {i : ι} {w : WaveWorld} {o : TaskOp S}
    {r : o.Answer} (ho : o.sent = none) : numbers (tr ++ [⟨i, w, o, r⟩]) = numbers tr := by
  rw [numbers_concat, ho]
  exact List.append_nil _

section Steps

variable {tr : List (Entry (taskOps S) ι WaveWorld)} {w w' : WaveWorld} {q : ι → TaskPhase} {i : ι} {p p' : Option Nat}
  {o : TaskOp S} {r : o.Answer}

/-- A step of the holder that keeps its permit. -/
private theorem InTurn.of_holder {eventSeq : Nat} (h : InTurn tr w q) (hi : q i = .running p)
    (hsorted : (numbers (tr ++ [⟨i, w, o, r⟩])).Pairwise (· < ·))
    (hbelow : ∀ n ∈ numbers (tr ++ [⟨i, w, o, r⟩]), n < eventSeq)
    (hpending : ∀ n, p' = some n → n < eventSeq ∧ ∀ m ∈ numbers (tr ++ [⟨i, w, o, r⟩]), m < n) :
    InTurn (tr ++ [⟨i, w, o, r⟩]) { w with eventSeq := eventSeq } (Function.update q i (.running p')) where
  holder _ _ _ _ hj hk := (h.holder_update hi hj).1.trans (h.holder_update hi hk).1.symm
  permits := h.permits.imp_right fun hw => ⟨hw.1, fun _ _ _ => hw.2 i p hi⟩
  sorted := hsorted
  below := hbelow
  pending _ n hj := hpending n (TaskPhase.running.inj (h.holder_update hi hj).2)

/-- Such a step that broadcasts nothing. -/
private theorem InTurn.of_silent {eventSeq : Nat} (h : InTurn tr w q) (hi : q i = .running p) (ho : o.sent = none)
    (hseq : w.eventSeq ≤ eventSeq) (hpending : ∀ n, p' = some n → n < eventSeq ∧ ∀ m ∈ numbers tr, m < n) :
    InTurn (tr ++ [⟨i, w, o, r⟩]) { w with eventSeq := eventSeq } (Function.update q i (.running p')) := by
  have hnumbers : numbers (tr ++ [⟨i, w, o, r⟩]) = numbers tr := numbers_of_silent ho
  refine h.of_holder hi ?_ ?_ ?_
  · rw [hnumbers]
    exact h.sorted
  · rw [hnumbers]
    exact fun n hn => (h.below n hn).trans_le hseq
  · rw [hnumbers]
    exact hpending

/-- A task gets the permit. -/
private theorem InTurn.acquire {u : Unit} (h : InTurn tr w q) (hwait : q i = .waiting) (hfree : 0 < w.permits) :
    InTurn (tr ++ [⟨i, w, .acquire, u⟩]) { w with permits := w.permits - 1 } (Function.update q i (.running none)) := by
  have hnumbers : numbers (tr ++ [⟨i, w, .acquire, u⟩]) = numbers tr := numbers_of_silent rfl
  -- a second permit would be needed if somebody held one
  have hnobody (j : ι) (p : Option Nat) : q j ≠ .running p := by
    intro hj
    rcases h.permits with hsolo | ⟨-, hheld⟩
    · rw [hsolo j i, hwait] at hj
      cases hj
    · have := hheld j p hj
      omega
  have honly {j : ι} {p : Option Nat} (hj : Function.update q i (.running none) j = .running p) : j = i ∧ p = none := by
    by_cases hji : j = i
    · subst hji
      rw [Function.update_self] at hj
      exact ⟨rfl, (TaskPhase.running.inj hj).symm⟩
    · rw [Function.update_of_ne hji] at hj
      exact absurd hj (hnobody j p)
  refine ⟨fun j k _ _ hj hk => (honly hj).1.trans (honly hk).1.symm, ?_, ?_, ?_, ?_⟩
  · refine h.permits.imp_right fun hw => ⟨?_, fun _ _ _ => ?_⟩
    · exact (Nat.sub_le _ _).trans hw.1
    · show w.permits - 1 = 0
      omega
  · rw [hnumbers]
    exact h.sorted
  · rw [hnumbers]
    exact h.below
  · intro j n hj
    cases (honly hj).2

/-- The holder gives the permit back. -/
private theorem InTurn.release {u : Unit} (h : InTurn tr w q) (hi : q i = .running none) :
    InTurn (tr ++ [⟨i, w, .release, u⟩]) { w with permits := w.permits + 1 } (Function.update q i .done) := by
  have hnumbers : numbers (tr ++ [⟨i, w, .release, u⟩]) = numbers tr := numbers_of_silent rfl
  have hnobody {j : ι} {p : Option Nat} : Function.update q i .done j ≠ .running p := by
    intro hj
    cases (h.holder_update hi hj).2
  refine ⟨fun j _ _ _ hj => absurd hj hnobody, ?_, ?_, ?_, fun j n hj => absurd hj hnobody⟩
  · refine h.permits.imp_right fun hw => ⟨?_, fun j _ hj => absurd hj hnobody⟩
    show w.permits + 1 ≤ 1
    rw [hw.2 i none hi]
  · rw [hnumbers]
    exact h.sorted
  · rw [hnumbers]
    exact h.below

/-- Only the holder of the permit can do anything but wait for one. -/
theorem InTurn.step (h : InTurn tr w q) (hallow : taskProtocol.allow (q i) o) (hstep : taskSteps w o r w') :
    InTurn (tr ++ [⟨i, w, o, r⟩]) w' (Function.update q i (taskProtocol.next (q i) o r)) := by
  cases o with
  | acquire =>
    obtain ⟨hfree, rfl⟩ := hstep
    have hwait : q i = .waiting := hallow
    rw [hwait]
    exact h.acquire hwait hfree
  | fetchAdd =>
    obtain ⟨rfl, rfl⟩ := hstep
    have hi : q i = .running none := hallow
    refine h.of_silent hi rfl (Nat.le_succ _) ?_
    intro n hn
    cases hn
    exact ⟨Nat.lt_succ_self _, h.below⟩
  | send event =>
    have hw : w' = w := hstep
    have hi : q i = .running (some event.sequenceNumber) := hallow
    have hnumbers : numbers (tr ++ [⟨i, w, .send event, r⟩]) = numbers tr ++ [event.sequenceNumber] :=
      numbers_concat tr i w _ r
    -- nobody else runs, so its number was taken after all that were broadcast
    obtain ⟨hseq, hlast⟩ := h.pending i _ hi
    subst hw
    refine h.of_holder hi ?_ ?_ ?_
    · rw [hnumbers, List.pairwise_append]
      exact ⟨h.sorted, List.pairwise_singleton _ _, by simpa using hlast⟩
    · rw [hnumbers]
      intro n hn
      rcases List.mem_append.1 hn with hn | hn
      · exact h.below n hn
      · rw [List.mem_singleton.1 hn]
        exact hseq
    · intro n hn
      cases hn
  | callNode ctx state timeout token =>
    have hw : w' = w := hstep
    have hi : q i = .running none := hallow
    subst hw
    have hq : taskProtocol.next (q i) (.callNode ctx state timeout token) r = .running none := hi
    rw [hq]
    refine h.of_silent hi rfl le_rfl ?_
    intro n hn
    cases hn
  | release =>
    have hw : w' = { w with permits := w.permits + 1 } := hstep
    subst hw
    exact h.release hallow

end Steps

end Alone

/-! ### The law -/

section Law

variable [External] (g : Graph S) (tasks : List (WaveTask S)) (eventSeq : Nat)

/-- The tasks of a wave, in any interleaving. -/
abbrev WaveRun (tr : List (Entry (taskOps S) (Fin tasks.length) WaveWorld))
    (P : Fin tasks.length → Prog (taskOps S) String (Nat × Except GraphError (NodeOutput S))) (w : WaveWorld) : Prop :=
  Interleaving taskSteps (fun i => (tasks.get i).run g) (.start g eventSeq) tr P w

variable {g tasks eventSeq}

/-- If one task runs at a time, the events are in order. -/
theorem WaveRun.inTurn {tr : List (Entry (taskOps S) (Fin tasks.length) WaveWorld)}
    {P : Fin tasks.length → Prog (taskOps S) String (Nat × Except GraphError (NodeOutput S))} {w : WaveWorld}
    (hI : WaveRun g tasks eventSeq tr P w)
    (halone : tasks.length ≤ 1 ∨ g.resourceLimits.maxConcurrentNodes ≤ 1) : (numbers tr).Pairwise (· < ·) := by
  have hstart : InTurn (S := S) [] (WaveWorld.start g eventSeq) fun _ : Fin tasks.length => TaskPhase.waiting := by
    refine ⟨fun _ _ _ _ hj => ?_, ?_, List.Pairwise.nil, fun _ hn => ?_, fun _ _ hj => ?_⟩
    · cases hj
    · refine halone.imp (fun hlen i j => ?_) fun hmax => ⟨?_, fun _ _ hj => ?_⟩
      · omega
      · exact max_le hmax (Nat.le_refl 1)
      · cases hj
    · cases hn
    · cases hj
  obtain ⟨q, hq, -⟩ := hI.invariant (fun i => (tasks.get i).follows_run g) hstart
    fun _ _ _ _ _ _ _ h hallow hstep => h.step hallow hstep
  exact hq.sorted

/-- Two tasks that hold a permit at once number their first events in one order and broadcast them in the other. -/
theorem WaveRun.exists_overtaken (eventSeq : Nat) {i j : Fin tasks.length} (hij : i ≠ j)
    (hmax : 1 < g.resourceLimits.maxConcurrentNodes) :
    ∃ tr P w, WaveRun g tasks eventSeq tr P w ∧
      received tr = [.nodeStarted (tasks.get j).threadId (tasks.get j).nodeName (eventSeq + 1),
        .nodeStarted (tasks.get i).threadId (tasks.get i).nodeName eventSeq] := by
  obtain ⟨ki, hki⟩ := (tasks.get i).run_eq g
  obtain ⟨kj, hkj⟩ := (tasks.get j).run_eq g
  have hpermits : 1 < (WaveWorld.start g eventSeq).permits := Nat.lt_of_lt_of_le hmax (Nat.le_max_left _ _)
  have hstart : WaveRun g tasks eventSeq [] _ _ := .start
  have hacquired₁ := hstart.step (i := i) hki (r := ()) ⟨by omega, rfl⟩
  have hleft : 0 < (WaveWorld.start g eventSeq).permits - 1 := by omega
  have hacquired₂ := hacquired₁.step (i := j) ((Function.update_of_ne hij.symm _ _).trans hkj) (r := ()) ⟨hleft, rfl⟩
  have hnumbered₁ := hacquired₂.step (i := i)
    ((Function.update_of_ne hij _ _).trans (Function.update_self _ _ _)) ⟨rfl, rfl⟩
  have hnumbered₂ := hnumbered₁.step (i := j)
    ((Function.update_of_ne hij.symm _ _).trans (Function.update_self _ _ _)) ⟨rfl, rfl⟩
  have hsent₂ := hnumbered₂.step (i := j) (Function.update_self _ _ _) (r := ()) rfl
  have hsent₁ := hsent₂.step (i := i) ((Function.update_of_ne hij _ _).trans
    ((Function.update_of_ne hij _ _).trans (Function.update_self _ _ _))) (r := ()) rfl
  exact ⟨_, _, _, hsent₁, rfl⟩

/-- The events of a wave are received in the order of their numbers, whatever the interleaving, just if the wave has at
most one node or the semaphore lets one task run at a time. -/
theorem events_ordered_iff (g : Graph S) (tasks : List (WaveTask S)) (eventSeq : Nat) :
    (∀ tr P w, WaveRun g tasks eventSeq tr P w →
        ((received tr).map GraphEvent.sequenceNumber).Pairwise (· < ·)) ↔
      tasks.length ≤ 1 ∨ g.resourceLimits.maxConcurrentNodes ≤ 1 := by
  constructor
  · intro hall
    by_contra hmany
    obtain ⟨hlen, hmax⟩ := not_or.1 hmany
    have hne : (⟨0, by omega⟩ : Fin tasks.length) ≠ ⟨1, by omega⟩ := by simp
    obtain ⟨tr, P, w, hI, hreceived⟩ := WaveRun.exists_overtaken eventSeq hne (not_le.1 hmax)
    have hsorted := hall tr P w hI
    rw [hreceived] at hsorted
    simp only [List.map_cons, List.pairwise_cons, List.mem_cons] at hsorted
    have := hsorted.1 eventSeq (Or.inl rfl)
    exact absurd this (Nat.not_succ_lt_self)
  · intro halone tr P w hI
    exact hI.inTurn halone

end Law

/-! ### Two nodes side by side -/

section Examples

attribute [local instance] shortRuns

/-- The tasks of `A` and `B`. -/
def bothLaunched : List (WaveTask Nat) := bothReady.tasks "t" false

/-- `A` takes the number 0 and `B` the number 1, and `B` broadcasts first. -/
theorem events_ordered_false :
    ∃ tr P w, WaveRun stages bothLaunched 0 tr P w ∧
      received tr = [.nodeStarted "t" "B" 1, .nodeStarted "t" "A" 0] ∧
      ¬ ((received tr).map GraphEvent.sequenceNumber).Pairwise (· < ·) := by
  have hlen : bothLaunched.length = 2 := rfl
  have hne : (⟨0, by omega⟩ : Fin bothLaunched.length) ≠ ⟨1, by omega⟩ := by simp
  obtain ⟨tr, P, w, hI, hreceived⟩ := WaveRun.exists_overtaken (g := stages) 0 hne (by decide)
  have hswapped : received tr = [.nodeStarted "t" "B" 1, .nodeStarted "t" "A" 0] := hreceived
  refine ⟨tr, P, w, hI, hswapped, ?_⟩
  rw [hswapped]
  decide

end Examples

end Takeln
