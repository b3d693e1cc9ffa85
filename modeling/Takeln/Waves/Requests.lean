import Takeln.Waves.Advance
import Takeln.Waves.Merged
import Takeln.Waves.Yielded

/-!
# The requests of a wave

Several nodes of a wave may yield, each with a request of its own, but the checkpoint has room for one: that of the node
that was joined last.  Everything else in the checkpoint is the same in whatever order the nodes end, so it tells all
there is to answer exactly if every node it marks `Yielded` has asked the same (`yields_kept_iff`).
-/

namespace Takeln

open Effect Effect.Prog

variable {S : Type}

/-! ### Joining in another order -/

/-- The request a result yields. -/
def requestOf : JoinResult S → Option YieldRequest
  | .ok (_, .error (.yield request)) => some request
  | _ => none

/-- The request that was joined last is kept. -/
theorem latestYieldRequest_addAll (j : Joining S) (results : List (JoinResult S)) :
    (j.addAll results).latestYieldRequest = (results.filterMap requestOf).getLast?.or j.latestYieldRequest := by
  induction results generalizing j with
  | nil => rfl
  | cons res results ih =>
    rw [Joining.addAll_cons, ih, List.filterMap_cons]
    rcases res with panic | ⟨idx, e | out⟩
    · rfl
    · cases e with
      | yield request =>
        have hadd : (j.add (.ok (idx, .error (.yield request)))).latestYieldRequest = some request := rfl
        have hof : requestOf (.ok (idx, .error (.yield request)) : JoinResult S) = some request := rfl
        rw [hadd, hof]
        dsimp only
        rw [List.getLast?_cons]
        cases (results.filterMap requestOf).getLast? <;> rfl
      | _ => rfl
    · rfl

/-- The statuses after a wave do not depend on the order in which its nodes end. -/
theorem joined_dag_perm {dag : DAG} {completed : List Uuid} {results results' : List (JoinResult S)}
    (hperm : (results.filterMap resultIdx).Perm (dag.ready completed)) (h : results.Perm results') :
    (joined dag completed results).dag = (joined dag completed results').dag := by
  have hperm' : (results'.filterMap resultIdx).Perm (dag.ready completed) := (h.filterMap resultIdx).symm.trans hperm
  refine DAG.eq_of_shape ?_ fun k => ?_
  · rw [joined, joined, Joining.shape_addAll, Joining.shape_addAll]
  · rcases statusAt_joined hperm k with ⟨x, hx, hstatus⟩ | ⟨hk, hstatus⟩
    · rw [hstatus, statusAt_joined_of_mem hperm' (h.mem_iff.1 hx)]
    · rw [hstatus, statusAt_joined_of_notMem hperm' hk]

/-- Whether a result is refused depends on nothing that the joining changes. -/
theorem Graph.refuses_congr {g : Graph S} {j j' : Joining S} (h : ∀ k, j.dag.stepType k = j'.dag.stepType k)
    (res : JoinResult S) : g.refuses j res = none ↔ g.refuses j' res = none := by
  rcases res with panic | ⟨idx, e | out⟩
  · simp [refuses]
  · cases e with
    | yield request => simp [refuses]
    | budgetExceeded spent limit => simp [refuses]
    | _ =>
      unfold refuses
      cases g.waveFailurePolicy <;> simp
  · rw [refuses_success, refuses_success, h idx, Option.map_eq_none_iff, Option.map_eq_none_iff]

/-- A wave that is joined in one order is joined in every order. -/
theorem Graph.joinAll_perm {g : Graph S} {j j₁ : Joining S} {results results' : List (JoinResult S)}
    (h : g.joinAll results j = .ok j₁) (hperm : results.Perm results') :
    g.joinAll results' j = .ok (j.addAll results') := by
  cases hjoin : g.joinAll results' j with
  | ok j₂ => rw [(joinAll_eq_ok hjoin).1]
  | error e =>
    obtain ⟨pre', res, post', hsplit', hrefused⟩ := joinAll_eq_error hjoin
    have hmem : res ∈ results := hperm.mem_iff.2 (by rw [hsplit']; simp)
    obtain ⟨pre, post, hsplit⟩ := List.append_of_mem hmem
    have hstep (k : Nat) : (j.addAll pre).dag.stepType k = (j.addAll pre').dag.stepType k := by
      rw [Joining.stepType_addAll, Joining.stepType_addAll]
    rw [(refuses_congr hstep res).1 (refuses_of_joinAll_ok h hsplit)] at hrefused
    cases hrefused

section Rounds

variable [State S] [Merge S] {env : Env S} {g : Graph S} {threadId : String} {cancellation : Bool} {v : Waves S}
  {w : World} {args : SaveArgs S}

/-- The world in which the nodes end in another order. -/
def Env.inOrderOf (env : Env S)
    (order : Nat → (tasks : List (WaveTask S)) → { done : List (WaveTask S) // done.Perm tasks }) : Env S :=
  { env with order := order }

omit [State S] [Merge S] in
/-- Each task of a wave has its result. -/
theorem joinResult_mem_results {n : Nat} {tasks : List (WaveTask S)} {t : WaveTask S} (ht : t ∈ tasks) :
    t.joinResult (env.outcome n t) ∈ env.results n tasks :=
  List.mem_map_of_mem (f := fun t => t.joinResult (env.outcome n t)) ((env.order n tasks).2.mem_iff.2 ht)

omit [State S] [Merge S] in
theorem results_inOrderOf_perm (env : Env S)
    (order : Nat → (tasks : List (WaveTask S)) → { done : List (WaveTask S) // done.Perm tasks }) (n : Nat)
    (tasks : List (WaveTask S)) : (env.results n tasks).Perm ((env.inOrderOf order).results n tasks) := by
  have hdone : (env.order n tasks).1.Perm (order n tasks).1 := (env.order n tasks).2.trans (order n tasks).2.symm
  exact hdone.map _

/-- A node has asked: it yields in the wave, or was `Yielded` before and has asked then. -/
inductive Asked (env : Env S) (threadId : String) (cancellation : Bool) (earlier : Nat → Option YieldRequest)
    (v : Waves S) (n : Nat) : Nat → YieldRequest → Prop
  | now (t : WaveTask S) (request : YieldRequest) (ht : t ∈ v.tasks threadId cancellation)
      (hout : env.outcome n t = .ok (.error (.yield request))) :
      Asked env threadId cancellation earlier v n t.idx request
  | before (k : Nat) (request : YieldRequest) (hk : v.dag.statusAt k = some .yielded)
      (hask : earlier k = some request) : Asked env threadId cancellation earlier v n k request

/-- The checkpoint of a yielded wave is the same in whatever order its nodes end, and holds the request of every node it
marks `Yielded`. -/
structure YieldsKept (env : Env S) (g : Graph S) (threadId : String) (cancellation : Bool)
    (earlier : Nat → Option YieldRequest) (v : Waves S) (w : World) (args : SaveArgs S) : Prop where
  anyOrder : ∀ order u, exec (memory (env.inOrderOf order)) (g.waveBody threadId cancellation v) w = some u →
    writes u.trace = [args]
  recovered : ∀ snapshot k request, args.dag = some snapshot → snapshot.statusAt k = some .yielded →
    Asked env threadId cancellation earlier v w.waves k request → args.yieldRequest = some request

/-- What a wave that yields saves, from its results. -/
def yieldSave (threadId : String) (v : Waves S) (j : Joining S) : SaveArgs S :=
  Graph.waveSave threadId v j.dag v.state (",".intercalate (j.dag.namesOf [.yielded, .pending])) .yielded
    j.latestYieldRequest

/-- A round that saves a yielded checkpoint has joined its wave, without a failure and with a yield. -/
theorem WaveRound.of_yielded {u : Run (ops S) WaveError (WaveFlow S) World}
    (h : WaveRound env g threadId cancellation v w u) (hwrites : writes u.trace = [args])
    (hyielded : args.status = .yielded) :
    ∃ j val, g.Launches v ∧ g.joining env threadId cancellation v w.waves = .ok j ∧ j.waveFailed = [] ∧
      j.hasYielded = true ∧ g.Savable v.state val ∧ args = yieldSave threadId v j := by
  have quiet (hq : Quiet w [] u) : False := by cases hq.writes.symm.trans hwrites
  have saved {args' : SaveArgs S} {val : Value} {id : String} (hs : Saves env w [] args' val id u) : args' = args :=
    List.singleton_inj.1 (hs.writes.symm.trans hwrites)
  cases h with
  | ended _ _ _ hq => exact (quiet hq).elim
  | deadlocked _ _ _ hq => exact (quiet hq).elim
  | gated val id _ _ _ _ hs =>
    rw [← saved hs] at hyielded
    cases hyielded
  | gateFailed _ _ _ _ hq => exact (quiet hq).elim
  | unregistered _ _ _ _ hq => exact (quiet hq).elim
  | brokenOff _ _ _ _ hq => exact (quiet hq).elim
  | failed _ _ _ _ _ hq => exact (quiet hq).elim
  | yielded j val id hlaunch hjoin hfailed hyield hval _ hs =>
    exact ⟨j, val, hlaunch, hjoin, hfailed, hyield, hval, (saved hs).symm⟩
  | yieldFailed _ _ _ _ _ _ _ _ hq => exact (quiet hq).elim
  | completed _ _ _ _ _ _ _ _ _ _ hs =>
    rw [← saved hs] at hyielded
    cases hyielded
  | completeFailed _ _ _ _ _ _ _ _ hq => exact (quiet hq).elim

/-- A round that joins its wave, without a failure and with a yield, saves it. -/
theorem WaveRound.writes_of_joining {u : Run (ops S) WaveError (WaveFlow S) World} {j : Joining S} {val : Value}
    (h : WaveRound env g threadId cancellation v w u) (hlaunch : g.Launches v)
    (hjoin : g.joining env threadId cancellation v w.waves = .ok j) (hfailed : j.waveFailed = [])
    (hyield : j.hasYielded = true) (hval : g.Savable v.state val) : writes u.trace = [yieldSave threadId v j] := by
  cases h with
  | ended hready => exact absurd hready hlaunch.1
  | deadlocked hready => exact absurd hready hlaunch.1
  | gated _ _ _ hgate => exact absurd hgate hlaunch.2.1
  | gateFailed _ hgate => exact absurd hgate hlaunch.2.1
  | unregistered idx _ hfind =>
    have hreg := hlaunch.2.2 idx (List.mem_of_find?_eq_some hfind)
    exact absurd hreg (by simpa using List.find?_some hfind)
  | brokenOff _ _ hjoin' => cases hjoin.symm.trans hjoin'
  | failed j' _ hjoin' hfailed' =>
    cases hjoin.symm.trans hjoin'
    exact absurd hfailed hfailed'
  | yielded j' _ _ _ hjoin' _ _ _ _ hs =>
    cases hjoin.symm.trans hjoin'
    exact hs.writes
  | yieldFailed j' _ _ _ _ _ herr => exact absurd hval (Graph.not_savable_of_saveError herr val)
  | completed j' _ _ _ hjoin' _ hyield' =>
    cases hjoin.symm.trans hjoin'
    cases hyield.symm.trans hyield'
  | completeFailed j' _ _ hjoin' _ hyield' =>
    cases hjoin.symm.trans hjoin'
    cases hyield.symm.trans hyield'

/-- A yielded wave keeps what it was asked if and only if all nodes that are `Yielded` now have asked the same. -/
theorem yields_kept_iff {u : Run (ops S) WaveError (WaveFlow S) World} {earlier : Nat → Option YieldRequest}
    (hu : exec (memory env) (g.waveBody threadId cancellation v) w = some u) (hwrites : writes u.trace = [args])
    (hyielded : args.status = .yielded) :
    YieldsKept env g threadId cancellation earlier v w args ↔
      ∀ k request k' request', Asked env threadId cancellation earlier v w.waves k request →
        Asked env threadId cancellation earlier v w.waves k' request' → request = request' := by
  obtain ⟨j, val, hlaunch, hjoin, hfailed, hyield, hval, rfl⟩ := (waveRound_of_exec hu).of_yielded hwrites hyielded
  obtain ⟨hj, hperm⟩ := joined_of_joining hjoin
  constructor
  · intro h k request k' request' hk hk'
    -- every node that has asked is marked `Yielded`
    have marked {k : Nat} {request : YieldRequest} (hk : Asked env threadId cancellation earlier v w.waves k request) :
        j.dag.statusAt k = some .yielded := by
      rw [hj]
      cases hk with
      | now t request ht hout =>
        have hmem : t.joinResult (env.outcome w.waves t) ∈ env.results w.waves (v.tasks threadId cancellation) :=
          joinResult_mem_results ht
        rw [hout] at hmem
        exact statusAt_joined_of_mem hperm hmem
      | before k request hk _ =>
        rw [statusAt_joined_of_notMem hperm, hk]
        intro hready
        cases hk.symm.trans (DAG.statusAt_of_mem_ready hready)
    exact Option.some.inj ((h.recovered _ _ _ rfl (marked hk) hk).symm.trans (h.recovered _ _ _ rfl (marked hk') hk'))
  · intro hsame
    obtain ⟨idx, request₀, hmem₀⟩ : Yields (v.wave threadId cancellation env w.waves).results := by
      rw [hj, joined, Joining.hasYielded_addAll] at hyield
      exact hyield.resolve_left Bool.false_ne_true
    -- in whatever order the nodes end, the last request is the one that every node has asked
    have hlatest {results : List (JoinResult S)} (hresults : (v.wave threadId cancellation env
      w.waves).results.Perm results)
        {k : Nat} {request : YieldRequest} (hk : Asked env threadId cancellation earlier v w.waves k request) :
        (joined v.dag v.completed results).latestYieldRequest = some request := by
      have hne : results.filterMap requestOf ≠ [] :=
        List.ne_nil_of_mem (List.mem_filterMap.2 ⟨_, hresults.mem_iff.1 hmem₀, rfl⟩)
      have hlast := List.getLast?_eq_some_getLast hne
      obtain ⟨res, hres, hof⟩ := List.mem_filterMap.1 (List.getLast_mem hne)
      obtain ⟨k', hres'⟩ : ∃ k', res = .ok (k', .error (.yield ((results.filterMap requestOf).getLast hne))) := by
        generalize (results.filterMap requestOf).getLast hne = request' at hof
        rcases res with panic | ⟨k', e | out⟩
        · cases hof
        · cases e with
          | yield r =>
            cases hof
            exact ⟨k', rfl⟩
          | _ => cases hof
        · cases hof
      have hmem := hresults.mem_iff.2 hres
      rw [hres'] at hmem
      obtain ⟨t, ht, _, hout⟩ := mem_tasks_of_mem_results hmem
      have heq := hsame _ _ _ _ (.now t _ ht hout) hk
      rw [joined, latestYieldRequest_addAll, hlast, heq]
      rfl
    obtain ⟨t₀, ht₀, _, hout₀⟩ := mem_tasks_of_mem_results hmem₀
    have hasked : Asked env threadId cancellation earlier v w.waves t₀.idx request₀ := .now t₀ request₀ ht₀ hout₀
    constructor
    · intro order u' hu'
      have hresults : (v.wave threadId cancellation env w.waves).results.Perm
          (v.wave threadId cancellation (env.inOrderOf order) w.waves).results := results_inOrderOf_perm ..
      have hjoin' : g.joining (env.inOrderOf order) threadId cancellation v w.waves =
          .ok (joined v.dag v.completed (v.wave threadId cancellation (env.inOrderOf order) w.waves).results) :=
        Graph.joinAll_perm hjoin hresults
      rw [(waveRound_of_exec hu').writes_of_joining hlaunch hjoin' ?_ ?_ hval]
      · have hdag := joined_dag_perm hperm hresults
        rw [yieldSave, yieldSave, hj, hlatest hresults hasked, hlatest (.refl _) hasked, hdag]
      · rw [hj, joined, Joining.waveFailed_addAll] at hfailed
        rw [joined, Joining.waveFailed_addAll]
        exact ⟨rfl, fun idx x hx => hfailed.2 idx x (hresults.mem_iff.2 hx)⟩
      · rw [joined, Joining.hasYielded_addAll]
        exact Or.inr ⟨idx, request₀, hresults.mem_iff.1 hmem₀⟩
    · intro snapshot k request _ _ hk
      rw [yieldSave, Graph.waveSave, hj]
      exact hlatest (.refl _) hk

end Rounds

/-! ### Two questions in one wave -/

section Examples

/-- Each node asks for itself. -/
def inquisitive : Env Nat where
  newId n := s!"c{n}"
  now n := n
  answer _ _ state _ _ := .returned (.ok { state := state })
  outcome _ task := .ok (.error (.yield (.new task.nodeName "Go on?")))
  order _ := inOrder

/-- The nodes end in the reverse order. -/
def lastFirst (tasks : List (WaveTask Nat)) : { done : List (WaveTask Nat) // done.Perm tasks } :=
  ⟨tasks.reverse, tasks.reverse_perm⟩

/-- The wave, before it is launched. -/
def bothReady : Waves Nat := .start sideBySide 0 none

def askedBoth : Run (ops Nat) WaveError (WaveFlow Nat) World :=
  (exec (memory inquisitive) (stages.waveBody "t" false bothReady) World.empty).get (by decide +kernel)

def askedTurned : Run (ops Nat) WaveError (WaveFlow Nat) World :=
  (exec (memory (inquisitive.inOrderOf fun _ => lastFirst)) (stages.waveBody "t" false bothReady) World.empty).get
    (by decide +kernel)

/-- Which request is saved depends on who ends last, and the other one is lost. -/
theorem yields_kept_false :
    exec (memory inquisitive) (stages.waveBody "t" false bothReady) World.empty = some askedBoth ∧
      exec (memory (inquisitive.inOrderOf fun _ => lastFirst)) (stages.waveBody "t" false bothReady) World.empty =
        some askedTurned ∧
      (writes askedBoth.trace).map (fun args => args.yieldRequest.map YieldRequest.interruptId) = [some "B"] ∧
      (writes askedTurned.trace).map (fun args => args.yieldRequest.map YieldRequest.interruptId) = [some "A"] ∧
      ∀ args earlier, writes askedBoth.trace = [args] →
        ¬ YieldsKept inquisitive stages "t" false earlier bothReady World.empty args := by
  have hboth : (writes askedBoth.trace).map (fun args => args.yieldRequest.map YieldRequest.interruptId) =
    [some "B"] := by
    decide +kernel
  have hturned : (writes askedTurned.trace).map (fun args => args.yieldRequest.map YieldRequest.interruptId) =
      [some "A"] := by
    decide +kernel
  have hexec : exec (memory (inquisitive.inOrderOf fun _ => lastFirst))
      (stages.waveBody "t" false bothReady) World.empty = some askedTurned := (Option.some_get _).symm
  refine ⟨(Option.some_get _).symm, hexec, hboth, hturned, fun args earlier hwrites h => ?_⟩
  rw [hwrites] at hboth
  rw [h.anyOrder _ _ hexec] at hturned
  exact absurd (hboth.symm.trans hturned) (by decide)

/-- `A` on its own. -/
def oneReady : Waves Nat := .start ⟨[⟨0, "A", [], .pending⟩]⟩ 0 none

def askedOne : Run (ops Nat) WaveError (WaveFlow Nat) World :=
  (exec (memory inquisitive) (stages.waveBody "t" false oneReady) World.empty).get (by decide +kernel)

theorem yields_kept_askedOne : ∃ args, writes askedOne.trace = [args] ∧
    YieldsKept inquisitive stages "t" false (fun _ => none) oneReady World.empty args := by
  have hexec : exec (memory inquisitive) (stages.waveBody "t" false oneReady) World.empty = some askedOne :=
    (Option.some_get _).symm
  have hstatus : (writes askedOne.trace).map SaveArgs.status = [.yielded] := by decide +kernel
  obtain ⟨args, hwrites, hyielded⟩ := List.map_eq_singleton_iff.1 hstatus
  refine ⟨args, hwrites, (yields_kept_iff hexec hwrites hyielded).2 ?_⟩
  have hasked {k : Nat} {request : YieldRequest}
      (h : Asked inquisitive "t" false (fun _ => none) oneReady World.empty.waves k request) :
      request = .new "A" "Go on?" := by
    cases h with
    | now t request ht hout =>
      have htask : t = ⟨0, "t", "A", 0, false⟩ := List.mem_singleton.1 ht
      rw [htask] at hout
      cases hout
      rfl
    | before _ _ _ h => cases h
  intro k request k' request' hk hk'
  rw [hasked hk, hasked hk']

end Examples

end Takeln
