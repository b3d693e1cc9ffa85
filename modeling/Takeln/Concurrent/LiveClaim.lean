import Mathlib.Data.List.Induction
import Takeln.Concurrent.SingleWinner

/-!
# Plain resumes and live claims

`resume` reads the latest checkpoint without claiming anything.  A claim is live from the moment it is granted to the
last write of the call that holds it.  While it is live, a plain resume executes nodes unless it applies `FailFast` and
comes before the first save of the claimer, the only time in which the latest checkpoint is `Running`.  If this is kept
to, and no claim is granted while a plain resume is under way, live claims exclude plain resumes
(`live_claim_excludes_resume`).
-/

namespace Takeln

open Effect Effect.Prog

variable {S ι : Type}

/-! ### Plain resumes -/

/-- How far a plain resume has come. -/
inductive PlainPhase
  | fresh
  | executing
  | ended

/-- What `resume` does on a thread under a crash recovery policy: it loads, and executes what it has loaded. -/
def plainResuming (S : Type) (policy : CrashRecoveryPolicy) (threadId : String) : Protocol (ops S) PlainPhase where
  allow
    | .fresh, .loadState t => t = threadId
    | .executing, .currentHead _ => True
    | .executing, .saveStateBound _ => True
    | .executing, .callNode _ _ _ _ => True
    | .executing, .nextSeq => True
    | .executing, .send _ => True
    | .executing, .record _ _ => True
    | _, _ => False
  next
    | .fresh, .loadState _, .ok (some loaded) =>
      if loaded.info.status = .running ∧ policy = .failFast then .ended else .executing
    | .fresh, .loadState _, _ => .ended
    | q, _, _ => q

section Call

variable [External] [State S] {g : Graph S} {threadId : String} {cancellation : Bool}
  {resolvedInterrupt : Option String}

omit [External] [State S] in
private theorem executing_silent (policy : CrashRecoveryPolicy) (max : Nat) :
    Silent (plainResuming S policy threadId) .executing max :=
  ⟨⟨trivial, fun _ => rfl⟩, fun _ => ⟨trivial, rfl⟩, fun _ => ⟨trivial, rfl⟩⟩

private theorem runInner_executing (policy : CrashRecoveryPolicy) (state : S) (node : String) (input : Option Value) :
    Follows (plainResuming S policy threadId) (g.runInner threadId cancellation resolvedInterrupt state node input)
      .executing fun _ _ => True := by
  refine follows_runInner (I := fun q _ => q = .executing) trivial (fun _ => trivial) (fun _ => rfl) ?_
    fun _ _ _ _ => trivial
  rintro q v rfl
  refine follows_loopBody (executing_silent policy _) (fun _ _ _ => ⟨trivial, fun _ => rfl⟩) trivial (fun _ => trivial)
    fun args flow _ => ⟨trivial, fun r => ?_⟩
  cases r.bind checkpointId with
  | error e => trivial
  | ok id =>
    dsimp only
    cases flow id with
    | stop v' => trivial
    | next v' => rfl

/-- Without a crash to report, `resume` executes what it has loaded. -/
theorem plainResuming_follows :
    Follows (plainResuming S g.crashRecoveryPolicy threadId) (g.resume threadId cancellation) .fresh
      fun _ _ => True := by
  refine follows_resumeWith rfl (fun _ _ => trivial) fun loaded node hgoes => ?_
  have hnext : (plainResuming S g.crashRecoveryPolicy threadId).next .fresh (.loadState threadId)
      (.ok (some loaded) : Except TakelnError (Option (Loaded S))) = .executing := if_neg hgoes
  rw [hnext]
  exact (runInner_executing _ _ _ _).mono fun _ _ _ => trivial

end Call

/-! ### Resumes of both kinds -/

/-- A resume of a thread, plain or with input. -/
inductive AnyResume (S : Type)
  | resume (graph : Graph S) (cancellation : Bool)
  | withInput (call : ResumeCall S)

/-- The resume on a thread. -/
def AnyResume.prog [External] [State S] (threadId : String) : AnyResume S → Prog (ops S) TakelnError (Option S)
  | .resume graph cancellation => graph.resume threadId cancellation
  | .withInput call => call.prog threadId

/-- The graph of a plain resume. -/
def AnyResume.plain : AnyResume S → Option (Graph S)
  | .resume graph _ => some graph
  | .withInput _ => none

/-- The operation loads the latest checkpoint. -/
def IsLoad : Event (ops S) → Prop
  | ⟨.loadState _, _⟩ => True
  | _ => False

/-- While a claim is live, that is until the last write `x` of its claimer, no plain resume calls a node. -/
def Excludes (calls : ι → AnyResume S) (tr : List (Entry (ops S) ι World)) : Prop :=
  ∀ c e x, [c, e, x].Sublist tr → Claims c.event → x.who = c.who → (written x.event).isSome →
    (calledNode e.event).isSome → (calls e.who).plain = none

/-- The steps of the plain resumes and the claims do not get into each other's way. -/
structure Apart (calls : ι → AnyResume S) (tr : List (Entry (ops S) ι World)) : Prop where
  /-- A plain resume that loads while a claim is live does so under `FailFast`, and before the claimer's first save. -/
  loads (c l x : Entry (ops S) ι World) (g : Graph S) : [c, l, x].Sublist tr → Claims c.event → x.who = c.who →
    (written x.event).isSome → IsLoad l.event → (calls l.who).plain = some g →
    g.crashRecoveryPolicy = .failFast ∧ ∀ y, [c, y, l].Sublist tr → y.who = c.who → written y.event = none
  /-- No claim is granted to a call that will write while a plain resume is under way. -/
  claims (l c y x : Entry (ops S) ι World) : [l, c, y, x].Sublist tr → Claims c.event → x.who = c.who →
    (written x.event).isSome → IsLoad l.event → y.who = l.who → (calls l.who).plain = none

/-! ### How far the calls have come -/

section Phases

variable {t : String} {policy : CrashRecoveryPolicy}

/-- A call that is through with the thread does not get hold of it again. -/
private theorem next_of_through {p : Phase S} (hholds : ¬ p.Holds) (hfresh : p ≠ .fresh) (o : Op S) (r : o.Answer) :
    (resuming S t).next p o r = p := by
  cases p with
  | fresh => exact absurd rfl hfresh
  | denied => rfl
  | closed => rfl
  | _ => exact absurd trivial hholds

private theorem after_of_through {p : Phase S} (hholds : ¬ p.Holds) (hfresh : p ≠ .fresh) (evs : List (Event (ops S))) :
    (resuming S t).after p evs = p := by
  induction evs with
  | nil => rfl
  | cons e evs ih =>
    change (resuming S t).after ((resuming S t).next p e.op e.ans) evs = p
    rw [next_of_through hholds hfresh, ih]

/-- A call that holds the thread after an operation held it before, or has just claimed it; it is running if it has
written. -/
private theorem holds_next {p : Phase S} {o : Op S} {r : o.Answer} (h : ((resuming S t).next p o r).Holds) :
    (p.Holds ∧ ((resuming S t).next p o r = .running → p = .running ∨ (written (⟨o, r⟩ : Event (ops S))).isSome)) ∨
      (p = .fresh ∧ Claims (⟨o, r⟩ : Event (ops S)) ∧ (resuming S t).next p o r = .claimed) := by
  cases p with
  | fresh =>
    cases o with
    | claimInterrupt t' i =>
      rcases r with e | claim
      · cases h
      · cases claim with
        | claimed => exact Or.inr ⟨rfl, trivial, rfl⟩
        | _ => cases h
    | _ => cases h
  | denied => cases h
  | claimed =>
    refine Or.inl ⟨trivial, fun hrun => ?_⟩
    cases o with
    | loadState t' => rcases r with e | _ | loaded <;> cases hrun
    | _ => cases hrun
  | loaded s =>
    refine Or.inl ⟨trivial, fun hrun => Or.inr ?_⟩
    cases o with
    | saveStateBound args =>
      rcases r with e | save
      · cases hrun
      · cases save with
        | conflict actual => cases hrun
        | _ => rfl
    | _ => cases hrun
  | running => exact Or.inl ⟨trivial, fun _ => Or.inl rfl⟩
  | closed => cases h

private theorem saved_ne_fresh {p : Phase S} {args : SaveArgs S} {r : Except TakelnError CheckpointSave}
    (h : p ≠ .fresh) : p.saved args r ≠ .fresh := by
  unfold Phase.saved
  split
  · split <;> simp
  · exact h

private theorem next_ne_fresh {p : Phase S} {o : Op S} {r : o.Answer}
    (h : p ≠ .fresh ∨ Claims (⟨o, r⟩ : Event (ops S))) : (resuming S t).next p o r ≠ .fresh := by
  intro hnext
  by_cases hholds : p.Holds
  · cases p with
    | claimed =>
      cases o with
      | loadState t' => rcases r with e | _ | loaded <;> cases hnext
      | _ => cases hnext
    | loaded s =>
      cases o with
      | saveStateBound args => exact saved_ne_fresh (by simp) hnext
      | _ => cases hnext
    | running =>
      cases o with
      | saveStateBound args => exact saved_ne_fresh (by simp) hnext
      | _ => cases hnext
    | _ => cases hholds
  · by_cases hfresh : p = .fresh
    · subst hfresh
      have hclaims := h.resolve_left fun h => h rfl
      cases o with
      | claimInterrupt t' i =>
        rcases r with e | claim
        · cases hclaims
        · cases claim <;> cases hnext
      | _ => cases hclaims
    · rw [next_of_through hholds hfresh] at hnext
      exact hfresh hnext

private theorem executing_next {p : PlainPhase} {o : Op S} {r : o.Answer}
    (h : (plainResuming S policy t).next p o r = .executing) :
    p = .executing ∨ IsLoad (⟨o, r⟩ : Event (ops S)) := by
  cases p with
  | fresh =>
    cases o with
    | loadState t' => exact Or.inr trivial
    | _ => cases h
  | executing => exact Or.inl rfl
  | ended => cases h

private theorem holds_of_written {p : Phase S} {e : Event (ops S)} (hallow : (resuming S t).allow p e.op)
    (hwritten : (written e).isSome) : p.Holds := by
  obtain ⟨o, r⟩ := e
  cases o with
  | saveStateBound args =>
    cases p with
    | loaded s => trivial
    | running => trivial
    | _ => cases hallow
  | _ => cases hwritten

private theorem executing_of_called {p : PlainPhase} {e : Event (ops S)}
    (hallow : (plainResuming S policy t).allow p e.op) (hcalled : (calledNode e).isSome) : p = .executing := by
  obtain ⟨o, r⟩ := e
  cases o with
  | callNode ctx s d b =>
    cases p with
    | executing => rfl
    | _ => cases hallow
  | _ => cases hcalled

private theorem not_claims_of_plain {p : PlainPhase} {e : Event (ops S)}
    (hallow : (plainResuming S policy t).allow p e.op) : ¬ Claims e := by
  obtain ⟨o, r⟩ := e
  cases o with
  | claimInterrupt t' i => cases p <;> cases hallow
  | _ => exact id

variable [DecidableEq ι]

/-- The phase a resume with input has reached. -/
def phase (t : String) (i : ι) (tr : List (Entry (ops S) ι World)) : Phase S := (resuming S t).after .fresh (own i tr)

theorem phase_append (i : ι) (tr tr' : List (Entry (ops S) ι World)) :
    phase t i (tr ++ tr') = (resuming S t).after (phase t i tr) (own i tr') := by
  unfold phase
  rw [own_append, Protocol.after_append]

theorem phase_concat (i : ι) (tr : List (Entry (ops S) ι World)) (e : Entry (ops S) ι World) :
    phase t i (tr ++ [e]) = if e.who = i then (resuming S t).next (phase t i tr) e.op e.ans else phase t i tr := by
  unfold phase
  rw [own_concat, Protocol.after_append]
  split <;> rfl

/-- The phase a plain resume has reached. -/
def plainPhase (policy : CrashRecoveryPolicy) (t : String) (i : ι) (tr : List (Entry (ops S) ι World)) : PlainPhase :=
  (plainResuming S policy t).after .fresh (own i tr)

theorem plainPhase_concat (i : ι) (tr : List (Entry (ops S) ι World)) (e : Entry (ops S) ι World) :
    plainPhase policy t i (tr ++ [e]) =
      if e.who = i then (plainResuming S policy t).next (plainPhase policy t i tr) e.op e.ans
      else plainPhase policy t i tr := by
  unfold plainPhase
  rw [own_concat, Protocol.after_append]
  split <;> rfl

/-- A call that holds the thread has claimed it, and has written since if it is running. -/
theorem exists_claim_of_holds {i : ι} {tr : List (Entry (ops S) ι World)} (h : (phase t i tr).Holds) :
    ∃ c ∈ tr, c.who = i ∧ Claims c.event ∧ (phase t i tr = .running →
      ∃ y, [c, y].Sublist tr ∧ y.who = i ∧ (written y.event).isSome) := by
  induction tr using List.reverseRecOn with
  | nil => cases h
  | append_singleton tr e ih =>
    by_cases he : e.who = i
    · rw [phase_concat, if_pos he] at h ⊢
      rcases holds_next h with ⟨hholds, hrun⟩ | ⟨-, hclaims, hclaimed⟩
      · obtain ⟨c, hc, hwho, hclaims, hwritten⟩ := ih hholds
        refine ⟨c, List.mem_append_left _ hc, hwho, hclaims, fun hrunning => ?_⟩
        rcases hrun hrunning with hbefore | hsaved
        · obtain ⟨y, hy, hy'⟩ := hwritten hbefore
          exact ⟨y, hy.trans (List.sublist_append_left _ _), hy'⟩
        · exact ⟨e, (List.singleton_sublist.2 hc).append (.refl [e]), he, hsaved⟩
      · refine ⟨e, List.mem_append_right _ (List.mem_singleton_self e), he, hclaims, fun hrunning => ?_⟩
        rw [hclaimed] at hrunning
        cases hrunning
    · rw [phase_concat, if_neg he] at h ⊢
      obtain ⟨c, hc, hwho, hclaims, hwritten⟩ := ih h
      refine ⟨c, List.mem_append_left _ hc, hwho, hclaims, fun hrunning => ?_⟩
      obtain ⟨y, hy, hy'⟩ := hwritten hrunning
      exact ⟨y, hy.trans (List.sublist_append_left _ _), hy'⟩

/-- A call that has claimed the thread is not fresh any more. -/
theorem phase_ne_fresh {c : Entry (ops S) ι World} {tr : List (Entry (ops S) ι World)} (hc : c ∈ tr)
    (hclaims : Claims c.event) : phase t c.who tr ≠ .fresh := by
  induction tr using List.reverseRecOn with
  | nil => cases hc
  | append_singleton tr e ih =>
    rw [phase_concat]
    rcases List.mem_append.1 hc with hc | hc
    · split
      · exact next_ne_fresh (Or.inl (ih hc))
      · exact ih hc
    · obtain rfl := List.mem_singleton.1 hc
      rw [if_pos rfl]
      exact next_ne_fresh (Or.inr hclaims)

/-- A plain resume that executes has loaded. -/
theorem exists_load_of_executing {i : ι} {tr : List (Entry (ops S) ι World)}
    (h : plainPhase policy t i tr = .executing) : ∃ l ∈ tr, l.who = i ∧ IsLoad l.event := by
  induction tr using List.reverseRecOn with
  | nil => cases h
  | append_singleton tr e ih =>
    rw [plainPhase_concat] at h
    have later (h : plainPhase policy t i tr = .executing) : ∃ l ∈ tr ++ [e], l.who = i ∧ IsLoad l.event := by
      obtain ⟨l, hl, hl'⟩ := ih h
      exact ⟨l, List.mem_append_left _ hl, hl'⟩
    split at h
    · rename_i he
      rcases executing_next h with hbefore | hloads
      · exact later hbefore
      · exact ⟨e, List.mem_append_right _ (List.mem_singleton_self e), he, hloads⟩
    · exact later h

end Phases

/-! ### The invariant -/

section Invariant

variable [DecidableEq ι] {t : String} {calls : ι → AnyResume S}

/-- The call holds the thread and will write. -/
def Live (t : String) (calls : ι → AnyResume S) (i : ι) (past rest : List (Entry (ops S) ι World)) : Prop :=
  (calls i).plain = none ∧ (phase (S := S) t i past).Holds ∧ ∃ x ∈ rest, x.who = i ∧ (written x.event).isSome

/-- What holds after the operations `past`, when `rest` is still to come. -/
structure Guarded (t : String) (calls : ι → AnyResume S) (past rest : List (Entry (ops S) ι World)) (w : World) :
    Prop where
  unique (i j : ι) : Live t calls i past rest → Live t calls j past rest → i = j
  held (i : ι) : Live t calls i past rest → ∀ last ∈ (w.rows t).getLast?,
    last.status ≠ .yielded ∧ (phase (S := S) t i past ≠ .running → last.status = .running)
  behind (i k : ι) (g : Graph S) : Live t calls i past rest → (calls k).plain = some g →
    plainPhase (S := S) g.crashRecoveryPolicy t k past = .executing →
    ∃ l c, [l, c].Sublist past ∧ l.who = k ∧ IsLoad l.event ∧ c.who = i ∧ Claims c.event

variable {past rest : List (Entry (ops S) ι World)} {e : Entry (ops S) ι World} {w w' : World}

theorem Live.before {i : ι} (h : Live t calls i (past ++ [e]) rest) (hi : e.who ≠ i) :
    Live t calls i past (e :: rest) := by
  obtain ⟨hplain, hholds, x, hx, hwrites⟩ := h
  rw [phase_concat, if_neg hi] at hholds
  exact ⟨hplain, hholds, x, List.mem_cons_of_mem _ hx, hwrites⟩

theorem Guarded.not_open (hG : Guarded t calls past rest w) {i : ι} (hi : Live t calls i past rest) (n : String) :
    ¬ Open (w.rows t) n := by
  rintro ⟨_, last, hlast, hstatus, _⟩
  exact (hG.held i hi last hlast).1 hstatus

/-- A plain resume that loads while a claim is live has nothing to execute. -/
private theorem Guarded.ended_of_load [State S] {i k : ι} {w₁ : World} {r : Except TakelnError (Option (Loaded S))}
    {g : Graph S} (hG : Guarded t calls past (⟨k, w₁, .loadState t, r⟩ :: rest) w)
    (hapart : Apart calls (past ++ ⟨k, w₁, .loadState t, r⟩ :: rest)) (hplain : (calls k).plain = some g)
    (hi : Live t calls i past (⟨k, w₁, .loadState t, r⟩ :: rest))
    (hlater : ∃ x ∈ rest, x.who = i ∧ (written x.event).isSome) (hr : w.store.loadState t = r) :
    (plainResuming S g.crashRecoveryPolicy t).next .fresh (.loadState t) r ≠ .executing := by
  obtain ⟨c, hc, hwho, hclaims, hrunning⟩ := exists_claim_of_holds hi.2.1
  obtain ⟨x, hx, hxwho, hwritten⟩ := hlater
  have hsub : [c, ⟨k, w₁, .loadState t, r⟩, x].Sublist (past ++ ⟨k, w₁, .loadState t, r⟩ :: rest) :=
    (List.singleton_sublist.2 hc).append ((List.singleton_sublist.2 hx).cons_cons _)
  obtain ⟨hpolicy, hquiet⟩ := hapart.loads c _ x g hsub hclaims (hxwho.trans hwho.symm) hwritten trivial hplain
  have hunsaved : phase (S := S) t i past ≠ .running := by
    intro hrun
    obtain ⟨y, hy, hywho, hyw⟩ := hrunning hrun
    have hcyl : [c, y, ⟨k, w₁, .loadState t, r⟩].Sublist (past ++ ⟨k, w₁, .loadState t, r⟩ :: rest) :=
      hy.append ((List.nil_sublist rest).cons_cons _)
    rw [hquiet y hcyl (hywho.trans hwho.symm)] at hyw
    cases hyw
  intro hexec
  rcases r with e | _ | loaded
  · cases hexec
  · cases hexec
  · obtain ⟨last, hlast, hload⟩ := MemoryStore.loadState_eq_ok hr
    have hstatus : loaded.info.status = .running := by
      rw [(MemoryCheckpoint.load_eq_ok_iff.1 hload).2.1]
      exact (hG.held i hi last hlast).2 hunsaved
    change (if loaded.info.status = .running ∧ g.crashRecoveryPolicy = .failFast then PlainPhase.ended
      else .executing) = .executing at hexec
    rw [if_pos ⟨hstatus, hpolicy⟩] at hexec
    cases hexec

/-- The step of a plain resume. -/
theorem Guarded.step_plain [State S] {env : Env S} {g : Graph S} (hG : Guarded t calls past (e :: rest) w)
    (hapart : Apart calls (past ++ e :: rest)) (hplain : (calls e.who).plain = some g)
    (hallow : (plainResuming S g.crashRecoveryPolicy t).allow (plainPhase g.crashRecoveryPolicy t e.who past) e.op)
    (hmem : memory env w e.op = some (e.ans, w')) : Guarded t calls (past ++ [e]) rest w' := by
  have hother {i : ι} (hi : Live t calls i (past ++ [e]) rest) : e.who ≠ i := by
    rintro rfl
    cases hi.1.symm.trans hplain
  have hlater {i : ι} (hi : Live t calls i (past ++ [e]) rest) : ∃ x ∈ rest, x.who = i ∧ (written x.event).isSome :=
    hi.2.2
  cases hphase : plainPhase (S := S) g.crashRecoveryPolicy t e.who past with
  | ended =>
    rw [hphase] at hallow
    cases hallow
  | executing =>
    -- it has loaded before the claim, and acts after it
    have hnone {i : ι} (hi : Live t calls i (past ++ [e]) rest) : False := by
      obtain ⟨l, c, hlc, hl, hloads, hc, hclaims⟩ := hG.behind i e.who g (hi.before (hother hi)) hplain hphase
      obtain ⟨x, hx, hwho, hwritten⟩ := hlater hi
      have hsub : [l, c, e, x].Sublist (past ++ e :: rest) :=
        hlc.append ((List.singleton_sublist.2 hx).cons_cons e)
      have hl' := hapart.claims l c e x hsub hclaims (hwho.trans hc.symm) hwritten hloads hl.symm
      rw [hl] at hl'
      cases hl'.symm.trans hplain
    exact ⟨fun _ _ hi => (hnone hi).elim, fun _ hi => (hnone hi).elim, fun _ _ _ hi => (hnone hi).elim⟩
  | fresh =>
    rw [hphase] at hallow
    obtain ⟨k, w₁, o, r⟩ := e
    cases o with
    | loadState t' =>
      obtain rfl : t' = t := hallow
      obtain ⟨hr, rfl⟩ := Prod.mk.inj (Option.some.inj hmem)
      refine ⟨fun i j hi hj => hG.unique i j (hi.before (hother hi)) (hj.before (hother hj)), fun i hi => ?_,
        fun i j g' hi hj hexec => ?_⟩
      · rw [phase_concat, if_neg (hother hi)]
        exact hG.held i (hi.before (hother hi))
      · rw [plainPhase_concat] at hexec
        by_cases hkj : k = j
        · subst hkj
          cases hplain.symm.trans hj
          rw [if_pos rfl, hphase] at hexec
          exact absurd hexec (hG.ended_of_load hapart hplain (hi.before (hother hi)) (hlater hi) hr)
        · rw [if_neg hkj] at hexec
          obtain ⟨l, c, hlc, hl⟩ := hG.behind i j g' (hi.before (hother hi)) hj hexec
          exact ⟨l, c, hlc.trans (List.sublist_append_left _ _), hl⟩
    | _ => cases hallow

/-- Nobody else changes the thread of a live claim. -/
private theorem Guarded.rows_of_live [State S] {i : ι} {p' : Phase S} (hG : Guarded t calls past (e :: rest) w)
    (hplain : (calls e.who).plain = none) (hturn : Turn t w e.event w' (phase t e.who past) p') (he : e.who ≠ i)
    (hi : Live t calls i past (e :: rest)) : w'.rows t = w.rows t := by
  generalize hp : phase (S := S) t e.who past = p at hturn
  cases hturn with
  | idle _ hidle => exact hidle.rows
  | call _ hidle => exact hidle.rows
  | denied hidle => exact hidle.rows
  | claimed n hopen => exact absurd hopen (hG.not_open hi n)
  | loaded _ _ _ _ hidle => exact hidle.rows
  | unreadable hidle => exact hidle.rows
  | saved _ hholds _ _ _ hwritten =>
    have hlive : Live t calls e.who past (e :: rest) :=
      ⟨hplain, by rwa [hp], e, List.mem_cons_self .., rfl, hwritten⟩
    exact absurd (hG.unique _ _ hlive hi) he

/-- What the claimer itself leaves. -/
private theorem Guarded.held_self [State S] (hG : Guarded t calls past (e :: rest) w)
    (hplain : (calls e.who).plain = none)
    (hturn : Turn t w e.event w' (phase t e.who past) (phase t e.who (past ++ [e])))
    (hi : Live t calls e.who (past ++ [e]) rest) : ∀ last ∈ (w'.rows t).getLast?,
      last.status ≠ .yielded ∧ (phase (S := S) t e.who (past ++ [e]) ≠ .running → last.status = .running) := by
  obtain ⟨-, hholds, x, hx, hx'⟩ := hi
  have hheld (h : (phase (S := S) t e.who past).Holds) := hG.held e.who ⟨hplain, h, x, List.mem_cons_of_mem _ hx, hx'⟩
  generalize phase (S := S) t e.who (past ++ [e]) = p' at hturn hholds
  generalize phase (S := S) t e.who past = p at hturn hheld
  cases hturn with
  | idle _ hidle =>
    rw [hidle.rows]
    exact hheld hholds
  | call _ hidle =>
    rw [hidle.rows]
    exact hheld hholds
  | denied => cases hholds
  | claimed n hopen hrows =>
    obtain ⟨_, last, hlast, _⟩ := hopen
    rw [hrows]
    simp [claimLast, Option.mem_def.1 hlast, MemoryCheckpoint.claimedFor]
  | loaded _ _ _ _ hidle =>
    rw [hidle.rows]
    intro last hlast
    have hrun := (hheld trivial last hlast).2 (by simp)
    exact ⟨by simp [hrun], fun _ => hrun⟩
  | unreadable => cases hholds
  | saved _ _ cp hrows =>
    rw [hrows]
    intro last hlast
    obtain rfl : cp = last := by simpa using hlast
    by_cases hyield : cp.status = .yielded
    · rw [if_pos hyield] at hholds
      cases hholds
    · exact ⟨hyield, by simp [hyield]⟩

/-- The step of a resume with input. -/
theorem Guarded.step_input [State S] (hG : Guarded t calls past (e :: rest) w) (hplain : (calls e.who).plain = none)
    (hturn : Turn t w e.event w' (phase t e.who past) ((resuming S t).next (phase t e.who past) e.op e.ans)) :
    Guarded t calls (past ++ [e]) rest w' := by
  have hself : phase (S := S) t e.who (past ++ [e]) = (resuming S t).next (phase t e.who past) e.op e.ans := by
    rw [phase_concat, if_pos rfl]
  rw [← hself] at hturn
  -- who is live now was so before, or has just claimed
  have hlive {i : ι} (hi : Live t calls i (past ++ [e]) rest) : Live t calls i past (e :: rest) ∨
      i = e.who ∧ Claims e.event ∧ ∃ n, Open (w.rows t) n := by
    by_cases he : e.who = i
    · subst he
      obtain ⟨x, hx, hx'⟩ := hi.2.2
      rcases hturn.holds_of_holds hi.2.1 with hholds | ⟨-, hclaims⟩
      · exact Or.inl ⟨hi.1, hholds, x, List.mem_cons_of_mem _ hx, hx'⟩
      · exact Or.inr ⟨rfl, hclaims⟩
    · exact Or.inl (hi.before he)
  constructor
  case unique =>
    intro i j hi hj
    rcases hlive hi with hi' | ⟨rfl, -, n, hopen⟩
    · rcases hlive hj with hj' | ⟨rfl, -, n, hopen⟩
      · exact hG.unique i j hi' hj'
      · exact absurd hopen (hG.not_open hi' n)
    · rcases hlive hj with hj' | ⟨rfl, -⟩
      · exact absurd hopen (hG.not_open hj' n)
      · rfl
  case held =>
    intro i hi
    by_cases he : e.who = i
    · subst he
      exact hG.held_self hplain hturn hi
    · rw [hG.rows_of_live hplain hturn he (hi.before he), phase_concat, if_neg he]
      exact hG.held i (hi.before he)
  case behind =>
    intro i k g hi hk hexec
    have hke : e.who ≠ k := by
      rintro rfl
      cases hplain.symm.trans hk
    rw [plainPhase_concat, if_neg hke] at hexec
    rcases hlive hi with hi' | ⟨rfl, hclaims, -⟩
    · obtain ⟨l, c, hlc, hl⟩ := hG.behind i k g hi' hk hexec
      exact ⟨l, c, hlc.trans (List.sublist_append_left _ _), hl⟩
    · obtain ⟨l, hl, hwho, hloads⟩ := exists_load_of_executing hexec
      exact ⟨l, e, (List.singleton_sublist.2 hl).append (.refl [e]), hwho, hloads, rfl, hclaims⟩

end Invariant

/-! ### All interleavings -/

section Main

variable [External] [State S] [DecidableEq ι] {env : Env S} {t : String} {calls : ι → AnyResume S} {w₀ w : World}
  {tr past rest : List (Entry (ops S) ι World)} {e : Entry (ops S) ι World}
  {P : ι → Prog (ops S) TakelnError (Option S)}

private theorem allow_input (hI : Interleaving (memory env).semantics (fun i => (calls i).prog t) w₀ tr P w)
    (htr : tr = past ++ e :: rest) (hplain : (calls e.who).plain = none) :
    (resuming S t).allow (phase t e.who past) e.op := by
  have hfollow : Follows (resuming S t) ((calls e.who).prog t) .fresh fun _ _ => True := by
    cases hcall : calls e.who with
    | resume g c =>
      rw [hcall] at hplain
      cases hplain
    | withInput call => exact resuming_follows _ _ _
  exact hI.allow_at htr hfollow

private theorem allow_plain (hI : Interleaving (memory env).semantics (fun i => (calls i).prog t) w₀ tr P w)
    {g : Graph S} (htr : tr = past ++ e :: rest) (hplain : (calls e.who).plain = some g) :
    (plainResuming S g.crashRecoveryPolicy t).allow (plainPhase g.crashRecoveryPolicy t e.who past) e.op := by
  have hfollow : Follows (plainResuming S g.crashRecoveryPolicy t) ((calls e.who).prog t) .fresh fun _ _ => True := by
    cases hcall : calls e.who with
    | resume g' c =>
      rw [hcall] at hplain
      cases hplain
      exact plainResuming_follows
    | withInput call =>
      rw [hcall] at hplain
      cases hplain
  exact hI.allow_at htr hfollow

/-- Claims and plain resumes that stay apart keep the invariant. -/
theorem guarded_of_apart (hI : Interleaving (memory env).semantics (fun i => (calls i).prog t) w₀ tr P w)
    (hapart : Apart calls tr) (htr : tr = past ++ e :: rest) : Guarded t calls past (e :: rest) e.world := by
  induction past using List.reverseRecOn generalizing e rest with
  | nil =>
    have hnone {i : ι} (hi : Live t calls i [] (e :: rest)) : False := hi.2.1
    exact ⟨fun _ _ hi => (hnone hi).elim, fun _ hi => (hnone hi).elim, fun _ _ _ hi => (hnone hi).elim⟩
  | append_singleton past e' ih =>
    rw [List.append_assoc, List.singleton_append] at htr
    have hG := ih htr
    obtain ⟨-, w', hsem, hrest⟩ := (htr ▸ hI.trail).split
    have hworld : w' = e.world := by
      cases hrest with
      | cons => rfl
    rw [← hworld]
    cases hplain : (calls e'.who).plain with
    | none => exact hG.step_input hplain (turn_of_step (allow_input hI htr hplain) hsem)
    | some g => exact hG.step_plain (htr ▸ hapart) hplain (allow_plain hI htr hplain) hsem

/-- A claimer that will still write holds the thread. -/
private theorem live_of_written (hI : Interleaving (memory env).semantics (fun i => (calls i).prog t) w₀ tr P w)
    {c x : Entry (ops S) ι World} (htr : tr = past ++ e :: rest) (hc : c ∈ past) (hclaims : Claims c.event)
    (hx : x ∈ e :: rest) (hwho : x.who = c.who) (hwritten : (written x.event).isSome) :
    Live t calls c.who past (e :: rest) := by
  have hplain : (calls c.who).plain = none := by
    obtain ⟨l₁, l₂, hl⟩ := List.append_of_mem (htr ▸ List.mem_append_left (e :: rest) hc)
    cases hplain : (calls c.who).plain with
    | none => rfl
    | some g => exact (not_claims_of_plain (allow_plain hI hl hplain) hclaims).elim
  obtain ⟨m, n, hm⟩ := List.append_of_mem hx
  have hallow := allow_input hI (htr.trans (by rw [hm, List.append_assoc])) (hwho ▸ hplain)
  refine ⟨hplain, ?_, x, hx, hwho, hwritten⟩
  have hholds := holds_of_written hallow hwritten
  rw [hwho, phase_append] at hholds
  by_contra hthrough
  rw [after_of_through hthrough (phase_ne_fresh hc hclaims)] at hholds
  exact hthrough hholds

/-- As long as plain resumes and claims stay apart, no plain resume executes a node while a claim is live. -/
theorem live_claim_excludes_resume (calls : ι → AnyResume S) {w₀ w : World} {tr : List (Entry (ops S) ι World)}
    {P : ι → Prog (ops S) TakelnError (Option S)}
    (hI : Interleaving (memory env).semantics (fun i => (calls i).prog t) w₀ tr P w) (hapart : Apart calls tr) :
    Excludes calls tr := by
  intro c e x hsub hclaims hwho hwritten hcalled
  obtain ⟨past, rest, htr, hc, hx⟩ := exists_split_of_sublist hsub
  cases hplain : (calls e.who).plain with
  | none => rfl
  | some g =>
    have hallow := allow_plain hI htr hplain
    have hexec : plainPhase (S := S) g.crashRecoveryPolicy t e.who past = .executing :=
      executing_of_called hallow hcalled
    have hlive : Live t calls c.who past (e :: rest) :=
      live_of_written hI htr hc hclaims (List.mem_cons_of_mem _ hx) hwho hwritten
    obtain ⟨l, c', hlc, hl, hloads, hc', hclaims'⟩ :=
      (guarded_of_apart hI hapart htr).behind c.who e.who g hlive hplain hexec
    have hsub' : [l, c', e, x].Sublist tr := by
      rw [htr]
      exact hlc.append ((List.singleton_sublist.2 hx).cons_cons e)
    have hl' := hapart.claims l c' e x hsub' hclaims' (hwho.trans hc'.symm) hwritten hloads hl.symm
    rw [hl, hplain] at hl'
    exact hl'

end Main

/-! ### Two resumes at once -/

section Examples

attribute [local instance] shortRuns

instance : DecidablePred (Claims (S := S))
  | ⟨.claimInterrupt _ _, .ok .claimed⟩ => .isTrue trivial
  | ⟨.claimInterrupt _ _, .ok .inProgress⟩ => .isFalse id
  | ⟨.claimInterrupt _ _, .ok .alreadyCompleted⟩ => .isFalse id
  | ⟨.claimInterrupt _ _, .error _⟩ => .isFalse id
  | ⟨.currentHead _, _⟩ => .isFalse id
  | ⟨.saveStateBound _, _⟩ => .isFalse id
  | ⟨.loadState _, _⟩ => .isFalse id
  | ⟨.callNode _ _ _ _, _⟩ => .isFalse id
  | ⟨.joinWave _, _⟩ => .isFalse id
  | ⟨.nextSeq, _⟩ => .isFalse id
  | ⟨.send _, _⟩ => .isFalse id
  | ⟨.record _ _, _⟩ => .isFalse id

/-- Who performed an operation, and whether it is a claim, an accepted save or the call of a node. -/
def marks (e : Entry (ops S) ι World) : ι × Bool × Bool × Bool :=
  (e.who, decide (Claims e.event), (written e.event).isSome, (calledNode e.event).isSome)

theorem not_excludes_of_marks {calls : ι → AnyResume S} {tr : List (Entry (ops S) ι World)} {i k : ι}
    (h : [(i, true, false, false), (k, false, false, true), (i, false, true, false)].Sublist (tr.map marks))
    (hk : (calls k).plain ≠ none) : ¬ Excludes calls tr := by
  obtain ⟨l, hl, hmarks⟩ := List.sublist_map_iff.1 h
  obtain ⟨c, l₁, rfl, hc, h₁⟩ := List.map_eq_cons_iff.1 hmarks.symm
  obtain ⟨e, l₂, rfl, he, h₂⟩ := List.map_eq_cons_iff.1 h₁
  obtain ⟨x, l₃, rfl, hx, h₃⟩ := List.map_eq_cons_iff.1 h₂
  obtain rfl := List.map_eq_nil_iff.1 h₃
  simp only [marks, Prod.mk.injEq, decide_eq_true_eq] at hc he hx
  intro hexcludes
  have hplain := hexcludes c e x hl hc.2.1 (hx.1.trans hc.1.symm) hx.2.2.1 he.2.2.2
  rw [he.1] at hplain
  exact hk hplain

/-- `B` after `A`, under a crash recovery policy. -/
def steps (policy : CrashRecoveryPolicy) : Graph Nat where
  nodes := ["A", "B"]
  edges name := if name = "A" then some (.unconditional "B") else none
  crashRecoveryPolicy := policy

/-- The first call asks a question, the later ones count. -/
def obliging : Env Nat where
  newId n := s!"c{n}"
  now n := n
  answer n _ state _ _ := .returned <|
    if n = 0 then .error (.yield (.new "q" "Go on?")) else .ok { state := state + 1 }
  outcome _ task := .ok (.ok { state := task.state })
  order _ := inOrder

/-- The run in which `A` asks. -/
def openQuestion : Run (ops Nat) TakelnError Nat World :=
  (exec (memory obliging) ((steps .failFast).run "t" false 0 "A") World.empty).get (by decide +kernel)

/-- One caller answers the question, the other one resumes without an answer. -/
def rivals (policy : CrashRecoveryPolicy) : Bool → AnyResume Nat
  | true => .withInput ⟨steps policy, false, "q", .null, {}⟩
  | false => .resume (steps policy) false

/-- The two callers take turns in the given order. -/
def raced (policy : CrashRecoveryPolicy) (turns : List Bool) : Option (List (Entry (ops Nat) Bool World) ×
    (Bool → Prog (ops Nat) TakelnError (Option Nat)) × World) :=
  schedule (memory obliging) turns [] (fun i => (rivals policy i).prog "t") openQuestion.world

/-- Under `ResetToPending` the plain resume executes the claimed node; under `FailFast` it executes the next one, once
the claimer has saved the first, or the claimed one, if it has loaded it before the claim. -/
theorem live_claim_excludes_false :
    (∃ tr P w, raced .resetToPending ([true] ++ List.replicate 5 false ++ List.replicate 9 true) = some (tr, P, w) ∧
      ¬ Excludes (rivals .resetToPending) tr) ∧
    (∃ tr P w, raced .failFast (List.replicate 10 true ++ List.replicate 5 false ++ List.replicate 7 true) =
        some (tr, P, w) ∧ ¬ Excludes (rivals .failFast) tr) ∧
    ∃ tr P w, raced .failFast ([false, true] ++ List.replicate 4 false ++ List.replicate 9 true) = some (tr, P, w) ∧
      ¬ Excludes (rivals .failFast) tr := by
  have hplain (policy : CrashRecoveryPolicy) : (rivals policy false).plain ≠ none := by simp [rivals, AnyResume.plain]
  refine ⟨⟨_, _, _, (Option.some_get (show Option.isSome _ = true by decide +kernel)).symm, ?_⟩,
    ⟨_, _, _, (Option.some_get (show Option.isSome _ = true by decide +kernel)).symm, ?_⟩,
    _, _, _, (Option.some_get (show Option.isSome _ = true by decide +kernel)).symm, ?_⟩
  · exact not_excludes_of_marks (i := true) (k := false) (by decide +kernel) (hplain _)
  · exact not_excludes_of_marks (i := true) (k := false) (by decide +kernel) (hplain _)
  · exact not_excludes_of_marks (i := true) (k := false) (by decide +kernel) (hplain _)

/-- The plain resume comes between the claim and everything else that the claimer does. -/
def yielding : List (Entry (ops Nat) Bool World) × (Bool → Prog (ops Nat) TakelnError (Option Nat)) × World :=
  (raced .failFast ([true, false] ++ List.replicate 16 true)).get (by decide +kernel)

private theorem apart_yielding : Apart (rivals .failFast) yielding.1 := by
  have hwho : yielding.1.map Entry.who = [true, false] ++ List.replicate 16 true := by decide +kernel
  have hplain {k : Bool} {g : Graph Nat} (hk : (rivals .failFast k).plain = some g) :
      k = false ∧ g = steps .failFast := by
    cases k <;> cases hk
    exact ⟨rfl, rfl⟩
  have hsub {l : List (Entry (ops Nat) Bool World)} (hl : l.Sublist yielding.1) :
      (l.map Entry.who).Sublist ([true, false] ++ List.replicate 16 true) := hwho ▸ hl.map Entry.who
  constructor
  case loads =>
    intro c l x g hclx _ hx _ _ hg
    obtain ⟨hl, rfl⟩ := hplain hg
    refine ⟨rfl, fun y hcyl hy => ?_⟩
    have hclx' := hsub hclx
    have hcyl' := hsub hcyl
    simp only [List.map_cons, List.map_nil, hl, hx, hy] at hclx' hcyl'
    generalize c.who = k at hclx' hcyl'
    cases k
    · exact absurd hclx' (by decide)
    · exact absurd hcyl' (by decide)
  case claims =>
    intro l c y x hlcyx _ hx _ _ hy
    cases hg : (rivals .failFast l.who).plain with
    | none => rfl
    | some g =>
      have hlcyx' := hsub hlcyx
      simp only [List.map_cons, List.map_nil, (hplain hg).1, hx, hy] at hlcyx'
      generalize c.who = k at hlcyx'
      cases k
      · exact absurd hlcyx' (by decide)
      · exact absurd hlcyx' (by decide)

/-- The plain resume reports a crash, and the claimer goes on undisturbed. -/
theorem live_claim_excludes_yielding : Excludes (rivals .failFast) yielding.1 :=
  live_claim_excludes_resume (rivals .failFast) (Interleaving.start.schedule (Option.some_get _).symm) apart_yielding

end Examples

end Takeln
