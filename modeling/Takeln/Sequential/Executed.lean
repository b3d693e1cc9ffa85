import Takeln.Sequential.Follows

/-!
# Rounds, executed nodes and events

A run of the sequential engine is a number of rounds that go on, and then a round that does not, unless the step limit
comes first (`exec_runLoop_rounds`). What a round executes and sends is followed with the protocol `watching`, which
only looks (`follows_loopBody_watching`): a round that calls its node sends `NodeStarted` before and `NodeFinished`
after it, unless the node has failed with a yield inside of a dynamic node.
-/

namespace Takeln

open Effect Effect.Prog

variable {S : Type}

/-! ### Observations -/

/-- The node that an operation begins to execute: another attempt is no new execution. -/
def executedNode (o : Op S) : List String :=
  match o with
  | .callNode ctx _ _ _ => if ctx.attempt = 0 then [ctx.nodeName] else []
  | _ => []

/-- The executed nodes, in order. -/
def executed (tr : List (Event (ops S))) : List String := tr.flatMap fun e => executedNode e.op

def sentEvent (o : Op S) : List GraphEvent :=
  match o with
  | .send event => [event]
  | _ => []

/-- The events that are broadcast, in order. -/
def sent (tr : List (Event (ops S))) : List GraphEvent := tr.flatMap fun e => sentEvent e.op

/-- A call that ends in a yield inside of a dynamic node. -/
def yieldsInside : Except GraphError (NodeOutput S) → Bool
  | .error (.yieldInDynamicNode _) => true
  | _ => false

def insideEvent : Event (ops S) → Bool
  | ⟨.callNode ctx _ _ _, r⟩ => yieldsInside (CallAnswer.result ctx.nodeName r)
  | _ => false

/-- Some call ends in a yield inside of a dynamic node. -/
def inside (tr : List (Event (ops S))) : Bool := tr.any insideEvent

@[simp] theorem executed_append (tr tr' : List (Event (ops S))) : executed (tr ++ tr') = executed tr ++ executed tr' :=
  List.flatMap_append

@[simp] theorem sent_append (tr tr' : List (Event (ops S))) : sent (tr ++ tr') = sent tr ++ sent tr' :=
  List.flatMap_append

@[simp] theorem inside_append (tr tr' : List (Event (ops S))) : inside (tr ++ tr') = (inside tr || inside tr') :=
  List.any_append

/-- What has been executed and sent, and whether a call has ended in a yield inside of a dynamic node. -/
structure Watched where
  executed : List String
  sent : List GraphEvent
  inside : Bool

def Watched.append (q y : Watched) : Watched :=
  ⟨q.executed ++ y.executed, q.sent ++ y.sent, q.inside || y.inside⟩

/-- Everything is allowed, and watched. -/
def watching : Protocol (ops S) Watched where
  allow _ _ := True
  next q o r := ⟨q.executed ++ executedNode o, q.sent ++ sentEvent o, q.inside || insideEvent ⟨o, r⟩⟩

theorem after_watching (q : Watched) (tr : List (Event (ops S))) :
    watching.after q tr = q.append ⟨executed tr, sent tr, inside tr⟩ := by
  induction tr generalizing q with
  | nil => simp [Protocol.after, Watched.append, executed, sent, inside]
  | cons e tr ih =>
    have hcons : watching.after q (e :: tr) = watching.after (watching.next q e.op e.ans) tr := rfl
    rw [hcons, ih]
    simp [watching, Watched.append, executed, sent, inside, Bool.or_assoc]

/-- What a program shows does not depend on what was shown before. -/
theorem watching_append {E α : Type} {p : Prog (ops S) E α} {q y : Watched} {Φ : Watched → Except E α → Prop}
    (hp : Follows watching p y Φ) : Follows watching p (q.append y) fun q' x => ∃ y', q' = q.append y' ∧ Φ y' x := by
  induction p generalizing y with
  | ret a => exact ⟨y, rfl, hp⟩
  | fail e => exact ⟨y, rfl, hp⟩
  | perform o k ih =>
    refine ⟨trivial, fun r => ?_⟩
    have hnext : watching.next (q.append y) o r = q.append (watching.next y o r) := by
      simp [watching, Watched.append, Bool.or_assoc]
    rw [hnext]
    exact ih r (hp.2 r)

/-! ### A round -/

section Round

variable [External] [State S] {g : Graph S} {threadId : String} {cancellation : Bool}
  {resolvedInterrupt : Option String}

/-- What a round in the loop state `v` executes and sends. -/
inductive RoundShows (g : Graph S) (threadId : String) (v : Loop S) : Watched → Except RunError (Flow S) → Prop
  | ended (n : Nat) (hname : v.currentNodeName = "__END__") :
      RoundShows g threadId v ⟨[], [.graphFinished threadId v.runningCostEur n], false⟩ (.ok (.stop v))
  | idle (x : Except RunError (Flow S)) (hname : v.currentNodeName ≠ "__END__") (hruns : ¬ g.Runs v)
      (hstop : ∀ v', x ≠ .ok (.next v')) : RoundShows g threadId v ⟨[], [], false⟩ x
  | paired (n m : Nat) (status : String) (cost : Option Eur) (x : Except RunError (Flow S)) (hruns : g.Runs v) :
      RoundShows g threadId v ⟨[v.currentNodeName], [.nodeStarted threadId v.currentNodeName n,
        .nodeFinished threadId v.currentNodeName status cost m], false⟩ x
  | inside (n : Nat) (x : Except RunError (Flow S)) (hruns : g.Runs v) (hstop : ∀ v', x ≠ .ok (.next v')) :
      RoundShows g threadId v ⟨[v.currentNodeName], [.nodeStarted threadId v.currentNodeName n], true⟩ x

omit [External] [State S] in
theorem follows_emit_watching {E : Type} {event : Nat → GraphEvent} {q : Watched} {Φ : Watched → Except E Unit → Prop}
    (h : ∀ n, Φ ⟨q.executed, q.sent ++ [event n], q.inside⟩ (.ok ())) :
    Follows watching (emit event : Prog (ops S) E Unit) q Φ := by
  refine ⟨trivial, fun n => ⟨trivial, fun _ => ?_⟩⟩
  simpa [watching, executedNode, sentEvent, insideEvent] using h n

omit [External] [State S] in
theorem follows_record_watching {E : Type} {max : Nat} {r : ExecutionRecord} {q : Watched}
    {Φ : Watched → Except E Unit → Prop} (h : Φ q (.ok ())) :
    Follows watching (record max r : Prog (ops S) E Unit) q Φ := by
  refine ⟨trivial, fun u => ?_⟩
  have hsame : watching.next q (.record max r : Op S) u = q := by
    simp [watching, executedNode, sentEvent, insideEvent]
  rw [hsame]
  exact h

omit [External] in
theorem follows_saveChecked_watching {args : SaveArgs S} {q : Watched} {Φ : Watched → Except TakelnError String → Prop}
    (h : ∀ x, Φ q x) : Follows watching (g.saveChecked args) q Φ := by
  refine follows_saveChecked (fun e => h _) ⟨trivial, fun r => ?_⟩
  simpa [watching, executedNode, sentEvent, insideEvent] using h _

omit [State S] in
/-- The attempts of a node are one execution. -/
theorem follows_callNode_watching {E : Type} {v : Loop S} {q : Watched} (hq : q.inside = false)
    {Φ : Watched → Except E (Nat × Except GraphError (NodeOutput S)) → Prop}
    (h : ∀ y, Φ ⟨q.executed ++ [v.currentNodeName], q.sent, yieldsInside y.2⟩ (.ok y)) :
    Follows watching (g.callNode threadId cancellation v) q Φ := by
  have hnext (q' : Watched) (attempt : Nat) (input : Option Value) (timeout : Option Duration) (token : Bool)
      (r : CallAnswer S timeout token) :
      watching.next q' (.callNode (g.context threadId cancellation v attempt input) v.state timeout token) r =
        ⟨q'.executed ++ (if attempt = 0 then [v.currentNodeName] else []), q'.sent,
          q'.inside || yieldsInside (CallAnswer.result v.currentNodeName r)⟩ := by
    simp [watching, executedNode, sentEvent, insideEvent, Graph.context, NodeContext.new]
  unfold Graph.callNode
  split
  · refine ⟨trivial, fun answer => ?_⟩
    have hcalled := hnext q 0 v.pendingResumedInput none false answer
    have hend := h (0, CallAnswer.result v.currentNodeName answer)
    rw [hq, Bool.false_or] at hcalled
    exact hcalled ▸ hend
  · refine follows_callRetrying (Ψ := fun q' x => q' = ⟨q.executed ++ [v.currentNodeName], q.sent, yieldsInside x⟩)
      (J := fun _ attempt _ q' => q' = if attempt = 0 then q else ⟨q.executed ++ [v.currentNodeName], q.sent, false⟩)
      ?_ ?_ _ _ _ rfl
    · rintro q' left attempt input rfl
      refine ⟨trivial, fun r => ?_⟩
      have hcalled : watching.next (if attempt = 0 then q else ⟨q.executed ++ [v.currentNodeName], q.sent, false⟩)
          (.callNode (g.context threadId cancellation v attempt input) v.state
            (g.effectiveTimeout v.currentNodeName) cancellation) r =
          ⟨q.executed ++ [v.currentNodeName], q.sent, yieldsInside (CallAnswer.result v.currentNodeName r)⟩ := by
        rw [hnext]
        by_cases hattempt : attempt = 0
        · simp [hattempt, hq]
        · simp [hattempt]
      refine ⟨fun left' msg _ hmsg => ?_, hcalled⟩
      rw [hcalled, hmsg]
      rfl
    · rintro q' x rfl
      exact h x

omit [External] in
/-- After a node has returned, `NodeFinished` is sent. -/
theorem follows_onSuccess_watching {v : Loop S} {attempt : Nat} {out : NodeOutput S} {q : Watched}
    {Φ : Watched → Except RunError (Flow S) → Prop}
    (h : ∀ status cost n x, Φ ⟨q.executed, q.sent ++ [.nodeFinished threadId v.currentNodeName status cost n],
      q.inside⟩ x) :
    Follows watching (g.onSuccess threadId resolvedInterrupt v attempt out) q Φ := by
  unfold Graph.onSuccess
  dsimp only
  split
  · rw [bind_eq, follows_bind]
    exact follows_emit_watching fun n => h _ _ _ _
  split
  · rw [bind_eq, follows_bind]
    exact follows_emit_watching fun n => h _ _ _ _
  · rw [bind_eq, follows_bind]
    refine follows_record_watching ?_
    dsimp only
    rw [bind_eq, follows_bind]
    refine follows_emit_watching fun n => ?_
    dsimp only
    rw [bind_eq, follows_bind, follows_mapError]
    refine follows_saveChecked_watching fun x => ?_
    cases x with
    | error e => exact h _ _ _ _
    | ok id => exact h _ _ _ _

omit [External] in
/-- After a node has failed, `NodeFinished` is sent unless it yielded inside of a dynamic node. -/
theorem follows_onError_watching {v : Loop S} {err : GraphError} {q : Watched}
    {Φ : Watched → Except RunError (Flow S) → Prop}
      (hinside : yieldsInside (.error err : Except GraphError (NodeOutput S)) = true → ∀ e, Φ q (.error e))
    (h : yieldsInside (.error err : Except GraphError (NodeOutput S)) = false →
      ∀ status n x, (∀ v', x ≠ .ok (.next v')) →
      Φ ⟨q.executed, q.sent ++ [.nodeFinished threadId v.currentNodeName status none n], q.inside⟩ x) :
    Follows watching (g.onError threadId v err) q Φ := by
  unfold Graph.onError
  cases err with
  | yieldInDynamicNode i => exact hinside rfl _
  | yield request =>
    dsimp only
    rw [bind_eq, follows_bind]
    refine follows_emit_watching fun n => ?_
    dsimp only
    rw [bind_eq, follows_bind, follows_mapError]
    refine follows_saveChecked_watching fun x => ?_
    cases x with
    | error e => exact h rfl _ _ _ (by intro v' hv; cases hv)
    | ok id => exact h rfl _ _ _ (by intro v' hv; cases hv)
  | _ =>
    dsimp only
    rw [bind_eq, follows_bind]
    exact follows_emit_watching fun n => h rfl _ _ _ (by intro v' hv; cases hv)

/-- A round shows what `RoundShows` says. -/
theorem follows_loopBody_watching (v : Loop S) :
    Follows watching (g.loopBody threadId cancellation resolvedInterrupt v) ⟨[], [], false⟩
      (RoundShows g threadId v) := by
  unfold Graph.loopBody
  split
  · rename_i hname
    rw [bind_eq, follows_bind]
    exact follows_emit_watching fun n => .ended n hname
  rename_i hname
  split
  · rename_i hgate
    have hruns : ¬ g.Runs v := fun h => h.2.1 hgate
    rw [bind_eq, follows_bind, follows_mapError]
    refine follows_saveChecked_watching fun x => ?_
    cases x with
    | error e => exact .idle _ hname hruns (by intro v' hv; cases hv)
    | ok id => exact .idle _ hname hruns (by intro v' hv; cases hv)
  rename_i hgate
  split
  · rename_i hregistered
    exact .idle _ hname (fun h => hregistered h.2.2) (by intro v' hv; cases hv)
  rename_i hregistered
  have hruns : g.Runs v := ⟨hname, hgate, not_not.1 hregistered⟩
  rw [bind_eq, follows_bind]
  refine follows_emit_watching fun n => ?_
  dsimp only
  rw [bind_eq, follows_bind]
  refine follows_callNode_watching rfl fun y => ?_
  rcases y with ⟨attempt, err | out⟩
  · refine follows_onError_watching (fun hin e => ?_) fun hin status m x hstop => ?_
    · rw [hin]
      exact .inside n _ hruns (by intro v' hv; cases hv)
    · rw [hin]
      exact .paired n m status none x hruns
  · exact follows_onSuccess_watching fun status cost m x => .paired n m status cost x hruns

end Round

/-! ### The nodes of a run -/

theorem nonempty_ans (o : Op S) : Nonempty ((ops S).Ans o) := by
  cases o with
  | currentHead _ => exact ⟨(.ok none : Except TakelnError (Option String))⟩
  | saveStateBound _ => exact ⟨(.error (.checkpointError "") : Except TakelnError CheckpointSave)⟩
  | loadState _ => exact ⟨(.ok none : Except TakelnError (Option (Loaded S)))⟩
  | claimInterrupt _ _ => exact ⟨(.ok .claimed : Except TakelnError ClaimResult)⟩
  | callNode _ _ _ _ => exact ⟨CallAnswer.returned (.error (.fatal ""))⟩
  | joinWave _ => exact ⟨[]⟩
  | nextSeq => exact ⟨(0 : Nat)⟩
  | send _ => exact ⟨()⟩
  | record _ _ => exact ⟨()⟩

/-- At most `k` nodes, and `first` before all others. -/
structure StartsWith (first : String) (k : Nat) (names : List String) : Prop where
  length_le : names.length ≤ k
  head : ∀ name ∈ names.head?, name = first

theorem startsWith_nil (first : String) (k : Nat) : StartsWith first k [] :=
  ⟨Nat.zero_le k, by simp⟩

theorem StartsWith.cons {first : String} {k : Nat} {names : List String} (h : names.length ≤ k) :
    StartsWith first (k + 1) (first :: names) :=
  ⟨by simpa using h, by simp⟩

section Nodes

variable [External] [State S] {g : Graph S} {threadId : String} {cancellation : Bool}
  {resolvedInterrupt : Option String}

omit [External] [State S] in
theorem RoundShows.startsWith {v : Loop S} {y : Watched} {x : Except RunError (Flow S)}
    (h : RoundShows g threadId v y x) (k : Nat) : StartsWith v.currentNodeName (k + 1) y.executed := by
  cases h with
  | ended | idle => exact startsWith_nil _ _
  | paired | inside => exact .cons (Nat.zero_le k)

omit [External] [State S] in
/-- A round that goes on has executed its node. -/
theorem RoundShows.executed_of_next {v v' : Loop S} {y : Watched} (h : RoundShows g threadId v y (.ok (.next v'))) :
    y.executed = [v.currentNodeName] := by
  cases h with
  | idle _ _ _ hstop => exact absurd rfl (hstop v')
  | paired | inside => rfl

/-- The loop executes at most one node in each of its steps, and begins with the current one. -/
theorem follows_runLoop_watching (k : Nat) (v : Loop S) :
    Follows watching (g.runLoop threadId cancellation resolvedInterrupt k v) ⟨[], [], false⟩ fun q _ =>
      StartsWith v.currentNodeName k q.executed := by
  induction k generalizing v with
  | zero => exact startsWith_nil _ _
  | succ k ih =>
    unfold Graph.runLoop
    rw [bind_eq, follows_bind]
    refine (follows_loopBody_watching v).mono fun y x hshows => ?_
    have hround := hshows.startsWith k
    cases x with
    | error e => exact hround
    | ok flow =>
      cases flow with
      | stop v' => exact hround
      | next v' =>
        have hy := hshows.executed_of_next
        have hrest := watching_append (q := y) (ih v')
        have hid : y.append ⟨[], [], false⟩ = y := by simp [Watched.append]
        rw [hid] at hrest
        refine hrest.mono fun q x hq => ?_
        obtain ⟨y', rfl, hy'⟩ := hq
        have hexecuted : (y.append y').executed = v.currentNodeName :: y'.executed := by
          simp [Watched.append, hy]
        rw [hexecuted]
        exact .cons hy'.length_le

/-- At every point a run has executed at most as many nodes as its limit allows, its start node first. -/
theorem startsWith_executed {W : Type} {h : Handler (ops S) W} {w w' : W} {state : S} {startNode : String}
    {input : Option Value} {tr : List (Event (ops S))} {p : Prog (ops S) RunError S}
    (hr : Reaches h (g.runInner threadId cancellation resolvedInterrupt state startNode input) w tr p w') :
    StartsWith startNode g.resourceLimits.maxSequentialSteps (executed tr) := by
  have hfollow : Follows watching (g.runInner threadId cancellation resolvedInterrupt state startNode input)
      ⟨[], [], false⟩ fun q _ => StartsWith startNode g.resourceLimits.maxSequentialSteps q.executed := by
    refine ⟨trivial, fun r => ?_⟩
    have hsame : watching.next ⟨[], [], false⟩ (.currentHead threadId : Op S) r = ⟨[], [], false⟩ := rfl
    rw [hsame]
    cases r with
    | error e => exact startsWith_nil _ _
    | ok head => exact follows_runLoop_watching _ _
  have hend := (hfollow.reaches hr).of_end nonempty_ans fun q o r hstarts => ?_
  · rw [after_watching] at hend
    simpa [Watched.append] using hend
  · -- what is executed later neither shortens the list nor changes its first node
    have hnext : (watching.next q o r).executed = q.executed ++ executedNode o := rfl
    rw [hnext] at hstarts
    refine ⟨le_trans (by simp) hstarts.length_le, fun name hname => hstarts.head name ?_⟩
    rw [List.head?_append, Option.mem_def.1 hname]
    rfl

end Nodes

/-! ### A run -/

section Run

variable [External] [State S] {W : Type} (h : Handler (ops S) W) (g : Graph S) (threadId : String) (cancellation : Bool)
  (resolvedInterrupt : Option String)

/-- One more round, if it goes on. -/
def Graph.goOn : Loop S × W × List (Event (ops S)) → Option (Loop S × W × List (Event (ops S)))
  | (v, w, tr) =>
    match exec h (g.loopBody threadId cancellation resolvedInterrupt v) w with
    | some ⟨.ok (.next v'), w', tr'⟩ => some (v', w', tr ++ tr')
    | _ => none

/-- The loop state, the world and what has been done after `n` rounds that go on. -/
def Graph.rounds : Nat → Loop S → W → Option (Loop S × W × List (Event (ops S)))
  | 0, v, w => some (v, w, [])
  | n + 1, v, w => (Graph.rounds n v w).bind (g.goOn h threadId cancellation resolvedInterrupt)

/-- The state a round leaves. -/
def Flow.state : Flow S → S
  | .next v => v.state
  | .stop v => v.state

variable {h g threadId cancellation resolvedInterrupt} {v v' : Loop S} {w w' : W} {tr tr' : List (Event (ops S))}
  {n k : Nat}

theorem goOn_eq_some {x : Loop S × W × List (Event (ops S))} :
    g.goOn h threadId cancellation resolvedInterrupt x = some (v', w', tr') ↔
      ∃ tr, exec h (g.loopBody threadId cancellation resolvedInterrupt x.1) x.2.1 = some ⟨.ok (.next v'), w', tr⟩ ∧
        tr' = x.2.2 ++ tr := by
  obtain ⟨v, w, tr₀⟩ := x
  unfold Graph.goOn
  dsimp only
  constructor
  · intro hx
    split at hx
    · rename_i v₁ w₁ tr₁ hexec
      cases hx
      exact ⟨tr₁, hexec, rfl⟩
    · cases hx
  · rintro ⟨tr, hexec, rfl⟩
    rw [hexec]

theorem rounds_succ_eq_some :
    g.rounds h threadId cancellation resolvedInterrupt (n + 1) v w = some (v', w', tr') ↔
      ∃ v₁ w₁ tr₁ tr₂, g.rounds h threadId cancellation resolvedInterrupt n v w = some (v₁, w₁, tr₁) ∧
        exec h (g.loopBody threadId cancellation resolvedInterrupt v₁) w₁ = some ⟨.ok (.next v'), w', tr₂⟩ ∧
        tr' = tr₁ ++ tr₂ := by
  rw [Graph.rounds, Option.bind_eq_some_iff]
  constructor
  · rintro ⟨⟨v₁, w₁, tr₁⟩, hrounds, hon⟩
    obtain ⟨tr₂, hexec, rfl⟩ := goOn_eq_some.1 hon
    exact ⟨v₁, w₁, tr₁, tr₂, hrounds, hexec, rfl⟩
  · rintro ⟨v₁, w₁, tr₁, tr₂, hrounds, hexec, rfl⟩
    exact ⟨_, hrounds, goOn_eq_some.2 ⟨tr₂, hexec, rfl⟩⟩

/-- Rounds after a first one. -/
theorem rounds_cons {v₁ : Loop S} {w₁ : W} (hexec : exec h (g.loopBody threadId cancellation resolvedInterrupt v) w =
      some ⟨.ok (.next v₁), w₁, tr⟩)
    (hrounds : g.rounds h threadId cancellation resolvedInterrupt n v₁ w₁ = some (v', w', tr')) :
    g.rounds h threadId cancellation resolvedInterrupt (n + 1) v w = some (v', w', tr ++ tr') := by
  induction n generalizing v' w' tr' with
  | zero =>
    cases hrounds
    exact rounds_succ_eq_some.2 ⟨v, w, [], tr, rfl, hexec, by simp⟩
  | succ n ih =>
    obtain ⟨v₂, w₂, tr₁, tr₂, hn, hlast, rfl⟩ := rounds_succ_eq_some.1 hrounds
    exact rounds_succ_eq_some.2 ⟨v₂, w₂, tr ++ tr₁, tr₂, ih hn, hlast, by simp⟩

/-- The first rounds of a longer sequence. -/
theorem exists_rounds_of_le {m : Nat} (hm : m ≤ n)
    (hrounds : g.rounds h threadId cancellation resolvedInterrupt n v w = some (v', w', tr')) :
    ∃ v₁ w₁ tr₁, g.rounds h threadId cancellation resolvedInterrupt m v w = some (v₁, w₁, tr₁) := by
  induction n generalizing v' w' tr' with
  | zero => exact ⟨v', w', tr', Nat.le_zero.1 hm ▸ hrounds⟩
  | succ n ih =>
    rcases Nat.lt_or_eq_of_le hm with hlt | rfl
    · obtain ⟨v₁, w₁, tr₁, tr₂, hn, -, -⟩ := rounds_succ_eq_some.1 hrounds
      exact ih (Nat.le_of_lt_succ hlt) hn
    · exact ⟨v', w', tr', hrounds⟩

/-- After some rounds the loop goes on with what is left of its steps. -/
theorem exec_runLoop_of_rounds (hrounds : g.rounds h threadId cancellation resolvedInterrupt n v w = some (v', w', tr))
    (k : Nat) : exec h (g.runLoop threadId cancellation resolvedInterrupt (n + k) v) w =
      (exec h (g.runLoop threadId cancellation resolvedInterrupt k v') w').map (Run.after tr) := by
  induction n generalizing k v' w' tr with
  | zero =>
    cases hrounds
    have hid : Run.after [] = (id : Run (ops S) RunError S W → Run (ops S) RunError S W) := rfl
    rw [Nat.zero_add, hid, Option.map_id]
    rfl
  | succ n ih =>
    obtain ⟨v₁, w₁, tr₁, tr₂, hn, hlast, rfl⟩ := rounds_succ_eq_some.1 hrounds
    rw [Nat.add_right_comm, Nat.add_assoc, ih hn (k + 1), Graph.runLoop, bind_eq, exec_bind_ok hlast, Option.map_map]
    congr 1
    funext u
    simp [Run.after]

/-- A loop does rounds that go on up to the step limit, or up to a round that does not. -/
theorem exec_runLoop_rounds {u : Run (ops S) RunError S W}
    (hu : exec h (g.runLoop threadId cancellation resolvedInterrupt k v) w = some u) :
    ∃ n v' w' tr, g.rounds h threadId cancellation resolvedInterrupt n v w = some (v', w', tr) ∧
      ((n = k ∧ u = ⟨.error (.stepLimitExceeded g.resourceLimits.maxSequentialSteps
          g.resourceLimits.maxSequentialSteps, v'.lastHead), w', tr⟩) ∨
        (n < k ∧ ∃ x w'' tr', exec h (g.loopBody threadId cancellation resolvedInterrupt v') w' = some ⟨x, w'', tr'⟩ ∧
          (∀ v'', x ≠ .ok (.next v'')) ∧ u = ⟨x.map Flow.state, w'', tr ++ tr'⟩)) := by
  induction k generalizing v w u with
  | zero =>
    cases hu
    exact ⟨0, v, w, [], rfl, Or.inl ⟨rfl, rfl⟩⟩
  | succ k ih =>
    rw [Graph.runLoop, bind_eq] at hu
    rcases exec_bind_eq_some hu with ⟨e, w₁, tr₁, hbody, rfl⟩ | ⟨flow, w₁, tr₁, u₁, hbody, hu₁, rfl⟩
    · exact ⟨0, v, w, [], rfl, Or.inr ⟨Nat.succ_pos k, .error e, w₁, tr₁, hbody, fun _ hv => (by cases hv), rfl⟩⟩
    · cases flow with
      | stop v₁ =>
        cases hu₁
        refine ⟨0, v, w, [], rfl, Or.inr ⟨Nat.succ_pos k, .ok (.stop v₁), w₁, tr₁, hbody, fun _ hv =>
          (by cases hv), ?_⟩⟩
        simp [Run.after, Except.map, Flow.state]
      | next v₁ =>
        obtain ⟨n, v', w', tr, hn, hend⟩ := ih hu₁
        refine ⟨n + 1, v', w', tr₁ ++ tr, rounds_cons hbody hn, ?_⟩
        rcases hend with ⟨rfl, rfl⟩ | ⟨hlt, x, w'', tr', hlast, hstop, rfl⟩
        · exact Or.inl ⟨rfl, rfl⟩
        · exact Or.inr ⟨by omega, x, w'', tr', hlast, hstop, by simp [Run.after]⟩

/-- What a round has shown. -/
theorem roundShows_of_exec {x : Except RunError (Flow S)}
    (hexec : exec h (g.loopBody threadId cancellation resolvedInterrupt v) w = some ⟨x, w', tr⟩) :
    RoundShows g threadId v ⟨executed tr, sent tr, inside tr⟩ x := by
  have hshows := (follows_loopBody_watching v).of_exec hexec
  rwa [after_watching] at hshows

end Run

end Takeln
