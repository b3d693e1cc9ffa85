import Takeln.Model.Memory
import Takeln.Sequential.Executed

/-!
# Events in pairs

The events of a run are a pair `NodeStarted`, `NodeFinished` for each executed node, in the order of the executions, and
`GraphFinished` at the end if the run reaches `__END__`. Every way in which a node can end sends the second event of its
pair, but for a yield inside of a dynamic node, which only fails the run: the events are paired if and only if no call
ends that way (`events_paired_iff`).
-/

namespace Takeln

open Effect Effect.Prog

/-- A pair of events for each of the nodes. -/
inductive Pairs (threadId : String) : List String → List GraphEvent → Prop
  | nil : Pairs threadId [] []
  | cons {names : List String} {events : List GraphEvent} (name : String) (n m : Nat) (status : String)
      (cost : Option Eur) : Pairs threadId names events →
      Pairs threadId (name :: names)
        (.nodeStarted threadId name n :: .nodeFinished threadId name status cost m :: events)

namespace Pairs

variable {threadId : String} {names names' : List String} {events events' : List GraphEvent}

theorem append (h : Pairs threadId names events) (h' : Pairs threadId names' events') :
    Pairs threadId (names ++ names') (events ++ events') := by
  induction h with
  | nil => exact h'
  | cons name n m status cost _ ih => exact .cons name n m status cost ih

theorem length (h : Pairs threadId names events) : events.length = 2 * names.length := by
  induction h with
  | nil => rfl
  | cons name n m status cost _ ih =>
    simp only [List.length_cons, ih]
    omega

end Pairs

section

variable {S : Type} [External] [State S] {W : Type} {h : Handler (ops S) W} {g : Graph S} {threadId : String}
  {cancellation : Bool} {resolvedInterrupt : Option String} {v v' v'' : Loop S} {w w' w'' : W}
  {tr tr' : List (Event (ops S))} {n m : Nat}

/-! ### Rounds that go on -/

omit [External] [State S] in
/-- A round that goes on calls its node and sends a pair. -/
theorem RoundShows.of_next {y : Watched} (hy : RoundShows g threadId v y (.ok (.next v'))) :
    v.currentNodeName ≠ "__END__" ∧ Pairs threadId y.executed y.sent ∧ y.inside = false := by
  cases hy with
  | idle x hname hruns hstop => exact absurd rfl (hstop v')
  | paired n m status cost x hruns => exact ⟨hruns.1, .cons _ n m status cost .nil, rfl⟩
  | inside n x hruns hstop => exact absurd rfl (hstop v')

theorem rounds_pairs (hrounds : g.rounds h threadId cancellation resolvedInterrupt n v w = some (v', w', tr)) :
    Pairs threadId (executed tr) (sent tr) ∧ inside tr = false := by
  induction n generalizing v' w' tr with
  | zero =>
    cases hrounds
    exact ⟨.nil, rfl⟩
  | succ n ih =>
    obtain ⟨v₁, w₁, tr₁, tr₂, hn, hlast, rfl⟩ := rounds_succ_eq_some.1 hrounds
    obtain ⟨hpairs, hinside⟩ := ih hn
    obtain ⟨-, hpairs', hinside'⟩ := (roundShows_of_exec hlast).of_next
    rw [executed_append, sent_append, inside_append, hinside]
    exact ⟨hpairs.append hpairs', hinside'⟩

/-- The loop goes on from no round at `__END__`. -/
theorem ne_end_of_rounds (hm : g.rounds h threadId cancellation resolvedInterrupt m v w = some (v'', w'', tr'))
    (hn : g.rounds h threadId cancellation resolvedInterrupt n v w = some (v', w', tr)) (hlt : m < n) :
    v''.currentNodeName ≠ "__END__" := by
  obtain ⟨v₁, w₁, tr₁, hsucc⟩ := exists_rounds_of_le hlt hn
  obtain ⟨v₂, w₂, tr₂, tr₃, hm', hlast, -⟩ := rounds_succ_eq_some.1 hsucc
  rw [hm] at hm'
  cases hm'
  exact (roundShows_of_exec hlast).of_next.1

/-! ### Runs -/

/-- The loop comes to a round at `__END__` with the steps it has. -/
def Graph.LoopReachesEnd (h : Handler (ops S) W) (g : Graph S) (threadId : String) (cancellation : Bool)
    (resolvedInterrupt : Option String) (k : Nat) (v : Loop S) (w : W) : Prop :=
  ∃ n v' w' tr, n < k ∧ g.rounds h threadId cancellation resolvedInterrupt n v w = some (v', w', tr) ∧
    v'.currentNodeName = "__END__"

/-- The run reaches `__END__` within its step limit. -/
def Graph.ReachesEnd (h : Handler (ops S) W) (g : Graph S) (threadId : String) (cancellation : Bool)
    (resolvedInterrupt : Option String) (state : S) (startNode : String) (input : Option Value) (w : W) : Prop :=
  ∃ (head : Option String) (w' : W),
    h w (.currentHead threadId) = some ((.ok head : Except TakelnError (Option String)), w') ∧
      g.LoopReachesEnd h threadId cancellation resolvedInterrupt g.resourceLimits.maxSequentialSteps
        (.start state startNode input head) w'

/-- A pair of events for each executed node, and `GraphFinished` at the end exactly if the run reaches `__END__`. -/
def EventsPaired (threadId : String) (reachesEnd : Prop) (tr : List (Event (ops S))) : Prop :=
  ∃ events, Pairs threadId (executed tr) events ∧
    ((reachesEnd ∧ ∃ cost n, sent tr = events ++ [.graphFinished threadId cost n]) ∨ (¬ reachesEnd ∧ sent tr = events))

omit [External] [State S] in
/-- An odd number of events of nodes is not paired. -/
theorem not_eventsPaired {names : List String} {name : String} {events : List GraphEvent} {reachesEnd : Prop}
    (hpairs : Pairs threadId names events) (hexecuted : executed tr = names ++ [name])
    (hsent : sent tr = events ++ [.nodeStarted threadId name n]) : ¬ EventsPaired threadId reachesEnd tr := by
  rintro ⟨events', hpairs', hend⟩
  have hlength := hpairs.length
  have hlength' := hpairs'.length
  rw [hexecuted, List.length_append, List.length_singleton] at hlength'
  rcases hend with ⟨-, cost, m, hfinished⟩ | ⟨-, heq⟩
  · have hsame := congrArg List.length (hsent.symm.trans hfinished)
    rw [List.length_append, List.length_append, List.length_singleton, List.length_singleton] at hsame
    omega
  · have hsame := congrArg List.length (hsent.symm.trans heq)
    rw [List.length_append, List.length_singleton] at hsame
    omega

/-- The loop sends its events in pairs, unless its last call ends in a yield inside of a dynamic node. -/
theorem runLoop_paired_iff {k : Nat} {u : Run (ops S) RunError S W}
    (hu : exec h (g.runLoop threadId cancellation resolvedInterrupt k v) w = some u) :
    EventsPaired threadId (g.LoopReachesEnd h threadId cancellation resolvedInterrupt k v w) u.trace ↔
      inside u.trace = false := by
  obtain ⟨n, v', w', tr, hrounds, ⟨rfl, rfl⟩ | ⟨hlt, x, w'', tr', hlast, hstop, rfl⟩⟩ := exec_runLoop_rounds hu
  · obtain ⟨hpairs, hinside⟩ := rounds_pairs hrounds
    have hnot : ¬ g.LoopReachesEnd h threadId cancellation resolvedInterrupt n v w := by
      rintro ⟨m, v₁, w₁, tr₁, hm, hrounds₁, hname⟩
      exact ne_end_of_rounds hrounds₁ hrounds hm hname
    exact iff_of_true ⟨_, hpairs, Or.inr ⟨hnot, rfl⟩⟩ hinside
  · obtain ⟨hpairs, hinside⟩ := rounds_pairs hrounds
    -- the last round is the only one that may be at `__END__`
    have hend : g.LoopReachesEnd h threadId cancellation resolvedInterrupt k v w → v'.currentNodeName = "__END__" := by
      rintro ⟨m, v₁, w₁, tr₁, -, hrounds₁, hname⟩
      rcases Nat.lt_trichotomy m n with hm | rfl | hm
      · exact absurd hname (ne_end_of_rounds hrounds₁ hrounds hm)
      · rw [hrounds] at hrounds₁
        cases hrounds₁
        exact hname
      · obtain ⟨v₂, w₂, tr₂, hsucc⟩ := exists_rounds_of_le hm hrounds₁
        obtain ⟨v₃, w₃, tr₃, tr₄, hn, hnext, -⟩ := rounds_succ_eq_some.1 hsucc
        rw [hrounds] at hn
        cases hn
        rw [hlast] at hnext
        cases hnext
        exact absurd rfl (hstop v₂)
    have hshows := roundShows_of_exec hlast
    generalize hy : (⟨executed tr', sent tr', inside tr'⟩ : Watched) = y at hshows
    cases hshows with
    | ended m hname =>
      obtain ⟨hexecuted, hsent, hinside'⟩ := Watched.mk.inj hy
      refine iff_of_true ⟨sent tr, ?_, Or.inl ⟨⟨n, v', w', tr, hlt, hrounds, hname⟩, v'.runningCostEur, m, ?_⟩⟩
        (by simp [hinside, hinside'])
      · simpa [hexecuted] using hpairs
      · rw [sent_append, hsent]
    | idle x hname hruns hstop =>
      obtain ⟨hexecuted, hsent, hinside'⟩ := Watched.mk.inj hy
      refine iff_of_true ⟨sent tr, ?_, Or.inr ⟨fun hreaches => hname (hend hreaches), ?_⟩⟩ (by simp [hinside, hinside'])
      · simpa [hexecuted] using hpairs
      · rw [sent_append, hsent, List.append_nil]
    | paired m m' status cost x hruns =>
      obtain ⟨hexecuted, hsent, hinside'⟩ := Watched.mk.inj hy
      have hpair : Pairs threadId (executed tr') (sent tr') := by
        rw [hexecuted, hsent]
        exact .cons _ m m' status cost .nil
      refine iff_of_true ⟨sent tr ++ sent tr', ?_, Or.inr ⟨fun hreaches => hruns.1 (hend hreaches), sent_append _ _⟩⟩
        (by simp [hinside, hinside'])
      rw [executed_append]
      exact hpairs.append hpair
    | inside m x hruns hstop =>
      obtain ⟨hexecuted, hsent, hinside'⟩ := Watched.mk.inj hy
      have hexecuted' : executed (tr ++ tr') = executed tr ++ [v'.currentNodeName] := by rw [executed_append, hexecuted]
      have hsent' : sent (tr ++ tr') = sent tr ++ [.nodeStarted threadId v'.currentNodeName m] := by
        rw [sent_append, hsent]
      exact iff_of_false (not_eventsPaired hpairs hexecuted' hsent') (by simp [hinside'])

/-- The events of a run are paired if and only if no call of a node ends in a yield inside of a dynamic node. -/
theorem events_paired_iff {state : S} {startNode : String} {input : Option Value} {u : Run (ops S) RunError S W}
    (hu : exec h (g.runInner threadId cancellation resolvedInterrupt state startNode input) w = some u) :
    EventsPaired threadId (g.ReachesEnd h threadId cancellation resolvedInterrupt state startNode input w) u.trace ↔
      inside u.trace = false := by
  obtain ⟨r, w', u', hr, hu', rfl⟩ := exec_perform_eq_some.1 hu
  rcases r with e | head
  · cases hu'
    have hnot : ¬ g.ReachesEnd h threadId cancellation resolvedInterrupt state startNode input w := by
      rintro ⟨head, w', hhead, -⟩
      rw [hr] at hhead
      cases hhead
    exact iff_of_true ⟨[], .nil, Or.inr ⟨hnot, rfl⟩⟩ rfl
  · have hreaches : g.ReachesEnd h threadId cancellation resolvedInterrupt state startNode input w ↔
        g.LoopReachesEnd h threadId cancellation resolvedInterrupt g.resourceLimits.maxSequentialSteps
          (.start state startNode input head) w' := by
      constructor
      · rintro ⟨head', w₁, hhead, hloop⟩
        rw [hr] at hhead
        cases hhead
        exact hloop
      · intro hloop
        exact ⟨head, w', hr, hloop⟩
    rw [propext hreaches]
    have hloop : exec h (g.runLoop threadId cancellation resolvedInterrupt g.resourceLimits.maxSequentialSteps
        (.start state startNode input head)) w' = some u' := hu'
    have hpaired := runLoop_paired_iff hloop
    exact hpaired

end

section Examples

attribute [local instance] shortRuns

/-- A dynamic node, and a node that it leads to. -/
def dynamicFirst : Graph Nat where
  nodes := ["B"]
  dynamicNodes := ["A"]
  edges name := if name = "A" then some (.unconditional "B") else none

/-- The calls of `A` end in `first`, all others return. -/
def firstEnding (first : Except GraphError (NodeOutput Nat)) : Env Nat where
  newId n := s!"c{n}"
  now n := n
  answer _ ctx state _ _ := .returned (if ctx.nodeName = "A" then first else .ok { state := state + 1 })
  outcome _ task := .ok (.ok { state := task.state })
  order _ := inOrder

theorem events_paired_finished :
    ∃ u, exec (memory (firstEnding (.ok { state := 1 })))
      (dynamicFirst.runInner "t" false none 0 "A" none) .empty = some u ∧
      EventsPaired "t" (dynamicFirst.ReachesEnd (memory (firstEnding (.ok { state := 1 }))) "t" false none 0 "A"
        none .empty) u.trace := by
  have hinside : (exec (memory (firstEnding (.ok { state := 1 }))) (dynamicFirst.runInner "t" false none 0 "A" none)
      .empty).map (fun u => inside u.trace) = some false := by decide +kernel
  obtain ⟨u, hu, hfalse⟩ := Option.map_eq_some_iff.1 hinside
  exact ⟨u, hu, (events_paired_iff hu).2 hfalse⟩

theorem events_paired_false :
    ∃ u, exec (memory (firstEnding (.error (.yieldInDynamicNode "q"))))
        (dynamicFirst.runInner "t" false none 0 "A" none) .empty = some u ∧
      ¬ EventsPaired "t" (dynamicFirst.ReachesEnd (memory (firstEnding (.error (.yieldInDynamicNode "q")))) "t"
        false none 0 "A" none .empty) u.trace := by
  have hevents : (exec (memory (firstEnding (.error (.yieldInDynamicNode "q"))))
      (dynamicFirst.runInner "t" false none 0 "A" none) .empty).map (fun u => (executed u.trace, sent u.trace)) =
        some (["A"], [.nodeStarted "t" "A" 0]) := by decide +kernel
  obtain ⟨u, hu, hshown⟩ := Option.map_eq_some_iff.1 hevents
  exact ⟨u, hu, not_eventsPaired .nil (congrArg Prod.fst hshown) (congrArg Prod.snd hshown)⟩

end Examples

end Takeln
