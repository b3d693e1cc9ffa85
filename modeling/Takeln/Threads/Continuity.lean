import Takeln.Threads.Gates
import Takeln.Threads.Launches

/-!
# Continuity

The engines go by what is stored.  Before a call has saved anything it runs the node that its arguments or the
checkpoint it has loaded name, in the state stored there; afterwards every node of the sequential loop is called under
the name and in the state that the latest checkpoint of the thread holds, and is told the id of that checkpoint
(`calls_continue`).  What a call returns is the state it has saved last (`returns_stored`).
-/

namespace Takeln

open Effect Effect.Prog

variable {S : Type}

/-! ### Where a call starts -/

/-- The node a plain resume goes on with, in a state. -/
def Graph.resumeNode (g : Graph S) (info : CheckpointMeta) (state : S) : String :=
  if info.status = .running ∧ g.crashRecoveryPolicy = .skipAndContinue then
    match g.edges info.nextNode with
    | some edge => edge.target state
    | none => info.nextNode
  else info.nextNode

namespace Call

/-- The state a call starts in, if it has loaded this checkpoint. -/
def startState (loaded : Option (Loaded S)) : Call S → Option S
  | run _ _ state _ => some state
  | runDag _ _ _ state _ => some state
  | resumeWith _ _ rebind => loaded.map fun l => rebind l.state
  | _ => loaded.map Loaded.state

/-- The node the sequential loop of a call starts with. -/
def startNode (loaded : Option (Loaded S)) : Call S → Option String
  | run _ _ _ startNode => some startNode
  | resume g _ => loaded.map fun l => g.resumeNode l.info l.state
  | resumeWith g _ rebind => loaded.map fun l => g.resumeNode l.info (rebind l.state)
  | resumeWithInput g _ _ _ _ => loaded.bind fun l => l.info.yieldRequest.map (g.resumeStart l)
  | _ => none

/-- The call with the state it returns. -/
def answer [External] [State S] [Merge S] (threadId : String) : Call S → Prog (ops S) TakelnError (Option S)
  | run g c state startNode => (g.run threadId c state startNode).bind fun final => .ret (some final)
  | resume g c => g.resume threadId c
  | resumeWith g c rebind => g.resumeWith threadId c rebind
  | resumeWithInput g c i input context => g.resumeWithInput threadId c i input context
  | runDag g c dag state depth =>
    ((g.runDag threadId c dag state depth).mapError Prod.fst).bind fun final => .ret (some final.1)
  | resumeDag g c dag depth =>
    ((g.resumeDag threadId c dag depth).mapError Prod.fst).bind fun final => .ret final.1

theorem prog_eq_answer [External] [State S] [Merge S] (threadId : String) (call : Call S) :
    call.prog threadId = (call.answer threadId).bind fun _ => .ret () := by
  cases call <;> simp only [prog, answer, bind_assoc, ret_bind]

end Call

/-! ### The ledger of a call -/

/-- What a call has loaded, and what it has saved last. -/
structure Ledger (S : Type) where
  loaded : Option (Loaded S) := none
  saved : Option (SaveArgs S × String) := none

namespace Ledger

/-- A node is called as the ledger says. -/
def Names (call : Call S) (q : Ledger S) (name : String) (state : S) (lastCheckpointId : Option String) : Prop :=
  match q.saved with
  | some (args, id) => name = args.nextNode ∧ state = args.state ∧ lastCheckpointId = some id
  | none => call.startNode q.loaded = some name ∧ call.startState q.loaded = some state ∧ lastCheckpointId = none

/-- The state of the last save, or the one the call has started in. -/
def state (call : Call S) (q : Ledger S) : Option S :=
  match q.saved with
  | some (args, _) => some args.state
  | none => call.startState q.loaded

theorem Names.state {call : Call S} {q : Ledger S} {name : String} {s : S} {lastCheckpointId : Option String}
    (h : q.Names call name s lastCheckpointId) : q.state call = some s := by
  unfold Names at h
  unfold Ledger.state
  split at h
  · rw [h.2.1]
  · exact h.2.1

end Ledger

/-- Nodes are called as the ledger says, and a call loads before it saves. -/
def bookkeeping (threadId : String) (call : Call S) : Protocol (ops S) (Ledger S) where
  allow
    | q, .callNode ctx state _ _ => q.Names call ctx.nodeName state ctx.lastCheckpointId
    | _, .saveStateBound args => args.threadId = threadId
    | q, .loadState t => t = threadId ∧ q.saved = none
    | _, _ => True
  next
    | q, .saveStateBound args, r =>
      match r.bind checkpointId with
      | .ok id => { q with saved := some (args, id) }
      | .error _ => q
    | q, .loadState _, .ok (some l) => { q with loaded := some l }
    | q, _, _ => q

section Calls

variable {threadId : String} {call : Call S} {q : Ledger S} {g : Graph S} {cancellation : Bool}
  {resolvedInterrupt : Option String}

theorem bookkeeping_silent (q : Ledger S) (max : Nat) : Silent (bookkeeping threadId call) q max :=
  ⟨⟨trivial, fun _ => rfl⟩, fun _ => ⟨trivial, rfl⟩, fun _ => ⟨trivial, rfl⟩⟩

theorem bookkeeping_save {args : SaveArgs S} {Φ : Ledger S → Except TakelnError String → Prop}
    (ht : args.threadId = threadId) (herr : ∀ e, Φ q (.error e))
    (hok : ∀ id, Φ { q with saved := some (args, id) } (.ok id)) :
    SaveFollows (bookkeeping threadId call) q args Φ := by
  refine ⟨ht, fun r => ?_⟩
  show Φ (match r.bind checkpointId with | .ok id => { q with saved := some (args, id) } | .error _ => q) _
  cases r.bind checkpointId with
  | error e => exact herr e
  | ok id => exact hok id

variable [External] [State S]

/-- The loop calls the node the ledger names, and returns the state it holds. -/
theorem runInner_bookkeeping {state : S} {node : String} {input : Option Value}
    (hstart : q.Names call node state none) :
    Follows (bookkeeping threadId call) (g.runInner threadId cancellation resolvedInterrupt state node input) q
      fun q' x => ∀ s, x = .ok s → q'.state call = some s := by
  refine follows_runInner (I := fun q v => q.Names call v.currentNodeName v.state v.lastCheckpointId) trivial
    (fun _ => nofun) (fun _ => hstart) ?_ fun _ _ _ _ => nofun
  intro q v hq
  have hstop {q' : Ledger S} {v' : Loop S} (h : q'.state call = some v'.state) :
      ∀ s, (.ok v'.state : Except RunError S) = .ok s → q'.state call = some s := by
    rintro s ⟨⟩
    exact h
  refine follows_loopBody_cases (Ψ := fun q' _ => q' = q) (bookkeeping_silent _ _).nodes
    (fun _ => (bookkeeping_silent _ 0).emit _ (hstop hq.state)) (fun _ => nofun)
    (fun _ => bookkeeping_save rfl (fun _ => nofun) fun _ => hstop rfl) (fun _ => ?_) ?_ ?_
  · refine follows_callNode (J := fun q' => q' = q) (Ψ := fun q' _ => q' = q) ?_ (fun q' x hq' => hq') rfl
    rintro q' rfl attempt input timeout token
    exact ⟨hq, fun _ => ⟨fun _ _ => rfl, rfl⟩⟩
  · rintro q' attempt out rfl
    refine follows_onSuccess (bookkeeping_silent _ _).nodes (fun _ _ _ => nofun) fun _ _ => ⟨fun _ => nofun,
      bookkeeping_save rfl (fun _ => nofun) fun id => ?_⟩
    dsimp only
    by_cases hafter : v.currentNodeName ∈ g.interruptAfter
    · rw [if_pos hafter]
      exact hstop rfl
    · rw [if_neg hafter]
      exact ⟨rfl, rfl, rfl⟩
  · rintro q' attempt err rfl
    exact follows_onError (bookkeeping_silent _ _).nodes (fun _ => nofun) fun _ _ =>
      bookkeeping_save rfl (fun _ => nofun) fun _ => hstop rfl

/-- A plain resume goes on with the node of `resumeNode`. -/
theorem resumeWith_bookkeeping {rebind : S → S}
    (hnode : ∀ l : Loaded S, call.startNode (some l) = some (g.resumeNode l.info (rebind l.state)))
    (hstate : ∀ l : Loaded S, call.startState (some l) = some (rebind l.state)) :
    Follows (bookkeeping threadId call) (g.resumeWith threadId cancellation rebind) {}
      fun q' x => ∀ s, x = .ok (some s) → q'.state call = some s := by
  refine ⟨⟨rfl, rfl⟩, fun r => ?_⟩
  rcases r with e | _ | l
  · exact nofun
  · exact nofun
  have continueAt (node : String) (h : node = g.resumeNode l.info (rebind l.state)) : Follows
      (bookkeeping threadId call) (((g.runInner threadId cancellation l.info.claimedInterrupt (rebind l.state) node
        none).mapError Prod.fst).bind fun final => .ret (some final)) { loaded := some l }
        fun q' x => ∀ s, x = .ok (some s) → q'.state call = some s := by
    subst h
    rw [follows_bind, follows_mapError]
    have hstart : Ledger.Names call { loaded := some l } (g.resumeNode l.info (rebind l.state)) (rebind l.state) none :=
      ⟨hnode l, hstate l, rfl⟩
    refine (runInner_bookkeeping hstart).mono fun q' x hx => ?_
    cases x with
    | error e => exact nofun
    | ok final =>
      rintro s ⟨⟩
      exact hx _ rfl
  change Follows _ (ite _ _ _) _ _
  split
  · rename_i hrunning
    cases hpolicy : g.crashRecoveryPolicy with
    | resetToPending => exact continueAt _ (by simp [Graph.resumeNode, hpolicy])
    | failFast => exact nofun
    | skipAndContinue =>
      dsimp only
      split
      · rename_i edge hedge
        exact continueAt _ (by simp [Graph.resumeNode, hrunning, hpolicy, hedge])
      · rename_i hedge
        exact continueAt _ (by simp [Graph.resumeNode, hrunning, hpolicy, hedge])
  · rename_i hrunning
    exact continueAt _ (by simp [Graph.resumeNode, hrunning])

/-- A resume with input runs only after its checks, and rolls back without calling a node. -/
theorem resumeWithInput_bookkeeping {i : String} {input : Value} {context : ResumeContext}
    (hnode : ∀ l : Loaded S, call.startNode (some l) = l.info.yieldRequest.map (g.resumeStart l))
    (hstate : ∀ l : Loaded S, call.startState (some l) = some l.state) :
    Follows (bookkeeping threadId call) (g.resumeWithInput threadId cancellation i input context) {}
      fun q' x => ∀ s, x = .ok (some s) → q'.state call = some s := by
  refine ⟨trivial, fun r => ?_⟩
  rcases r with e | claim
  · exact nofun
  refine ⟨⟨rfl, rfl⟩, fun r => ?_⟩
  rcases r with e | _ | l
  · exact nofun
  · exact nofun
  cases claim with
  | inProgress => exact nofun
  | alreadyCompleted =>
    rintro s ⟨⟩
    exact hstate l
  | claimed =>
    change Follows _ ((Prog.ofExcept (Graph.checkResume threadId i input l)).bind _) _ _
    rw [follows_bind, follows_ofExcept]
    cases hcheck : Graph.checkResume threadId i input l with
    | error e => exact nofun
    | ok request =>
      dsimp only
      unfold Graph.resumeClaimed
      rw [bind_eq, follows_bind]
      have hstart : Ledger.Names call { loaded := some l } (g.resumeStart l request) l.state none := by
        refine ⟨?_, hstate l, rfl⟩
        rw [hnode, (checkResume_eq_ok_iff.1 hcheck).1]
        rfl
      refine follows_runClaimed ((runInner_bookkeeping hstart).mono fun q x hx => ?_)
      rcases x with ⟨e, lastHead⟩ | final
      · have hrevert : Follows (bookkeeping threadId call)
            (Graph.revertToYielded threadId l.state l.info.nextNode request lastHead) q fun _ _ => True :=
          follows_revertToYielded (fun head _ => bookkeeping_save rfl (fun _ => trivial) fun _ => trivial)
            fun _ => ⟨trivial, fun _ => trivial, fun head => bookkeeping_save rfl (fun _ => trivial) fun _ => trivial⟩
        refine hrevert.mono fun q' y _ => ?_
        cases y with
        | ok _ => exact nofun
        | error _ => exact fun _ => nofun
      · dsimp only
        rw [bind_eq, follows_bind]
        refine follows_record (bookkeeping_silent _ _).nodes _ ?_
        rintro s ⟨⟩
        exact hx _ rfl

variable [Merge S]

omit [External] [State S] in
theorem WaveSave.threadId_eq {v : Waves S} {args : SaveArgs S} {id : String} {flow : WaveFlow S}
    (h : WaveSave g threadId v args id flow) : args.threadId = threadId := by
  cases h <;> rfl

omit [External] [State S] in
/-- A round goes on, or stops, with the state it has saved. -/
theorem WaveSave.state_eq {v : Waves S} {args : SaveArgs S} {id : String} {flow : WaveFlow S}
    (h : WaveSave g threadId v args id flow) : flow.waves.state = args.state := by
  cases h with
  | interrupted => rfl
  | yielded => rfl
  | completed =>
    split <;> rfl

omit [External] in
/-- A DAG is run in waves, and returns the state of the ledger. -/
theorem runDag_bookkeeping {dag : DAG} {state : S} {depth : Nat} (hstart : q.state call = some state) :
    Follows (bookkeeping threadId call) (g.runDag threadId cancellation dag state depth) q
      fun q' x => ∀ s dag, x = .ok (s, dag) → q'.state call = some s := by
  have hstop {q' : Ledger S} {v : Waves S} (h : q'.state call = some v.state) :
      ∀ s dag, (.ok (v.state, v.dag) : Except WaveError (S × DAG)) = .ok (s, dag) → q'.state call = some s := by
    rintro s dag ⟨⟩
    exact h
  refine follows_runDag (I := fun q v => q.state call = some v.state) (fun _ => nofun) trivial (fun _ => nofun)
    (fun _ => hstart) ?_ fun _ _ _ _ => nofun
  intro q v hq
  refine follows_waveBody (bookkeeping_silent _ _) (fun tasks htasks => ⟨trivial, fun _ => rfl⟩)
    ((bookkeeping_silent _ 0).emit _ (hstop hq)) (fun _ => nofun) fun args flow dag hsave => ?_
  refine bookkeeping_save (hsave "").threadId_eq (fun _ => nofun) fun id => ?_
  have hstate := (hsave id).state_eq
  dsimp only
  cases hflow : flow id with
  | next v' =>
    rw [hflow] at hstate
    exact congrArg some hstate.symm
  | stop v' =>
    rw [hflow] at hstate
    exact (bookkeeping_silent _ 0).emit _ (hstop (congrArg some hstate.symm))
  | yielded v' =>
    rw [hflow] at hstate
    exact hstop (congrArg some hstate.symm)

/-- Every call goes by its ledger. -/
theorem answer_bookkeeping (call : Call S) :
    Follows (bookkeeping threadId call) (call.answer threadId) {}
      fun q' x => ∀ s, x = .ok (some s) → q'.state call = some s := by
  cases call with
  | run g c state startNode =>
    unfold Call.answer Graph.run
    rw [follows_bind, follows_mapError]
    have hstart : Ledger.Names (.run g c state startNode) {} startNode state none := ⟨rfl, rfl, rfl⟩
    refine (runInner_bookkeeping hstart).mono fun q' x hx => ?_
    cases x with
    | error e => exact nofun
    | ok final =>
      rintro s ⟨⟩
      exact hx _ rfl
  | resume g c => exact resumeWith_bookkeeping (fun _ => rfl) fun _ => rfl
  | resumeWith g c rebind => exact resumeWith_bookkeeping (fun _ => rfl) fun _ => rfl
  | resumeWithInput g c i input context => exact resumeWithInput_bookkeeping (fun _ => rfl) fun _ => rfl
  | runDag g c dag state depth =>
    unfold Call.answer
    rw [follows_bind, follows_mapError]
    refine (runDag_bookkeeping rfl).mono fun q' x hx => ?_
    cases x with
    | error e => exact nofun
    | ok final =>
      rintro s ⟨⟩
      exact hx _ _ rfl
  | resumeDag g c dag depth =>
    unfold Call.answer
    rw [follows_bind, follows_mapError]
    refine ⟨⟨rfl, rfl⟩, fun r => ?_⟩
    rcases r with e | _ | ⟨state, info, _ | saved⟩
    · exact nofun
    · exact nofun
    · exact nofun
    change Follows _ (ite _ _ _) _ _
    split
    · exact nofun
    rw [bind_eq, follows_bind]
    refine (runDag_bookkeeping rfl).mono fun q' x hx => ?_
    cases x with
    | error e => exact nofun
    | ok final =>
      rintro s ⟨⟩
      exact hx _ _ rfl

end Calls

/-! ### The ledger and the thread -/

/-- A checkpoint is loaded as it was saved, up to what a claim changes. -/
structure Loaded.Reads (l : Loaded S) (args : SaveArgs S) : Prop where
  state : l.state = args.state
  nextNode : l.info.nextNode = args.nextNode
  dag : l.dag = args.dag
  yieldRequest : l.info.yieldRequest = args.yieldRequest

section Sessions

variable [State S] [RoundTrip S] {env : Env S} {threadId : String} {call : Call S} {w₀ w w' : World}
  {latest : Option (SaveArgs S)}

/-- What is loaded from a thread is what was saved there last. -/
theorem reads_of_endsWith (hstored : EndsWith (w.rows threadId) latest) {l : Loaded S}
    (h : w.store.loadState threadId = .ok (some l)) : ∃ args ∈ latest, l.Reads args := by
  obtain ⟨last, hlast, hrow⟩ := MemoryStore.loadState_eq_ok h
  obtain ⟨hstate, hinfo, hdag⟩ := MemoryCheckpoint.load_eq_ok_iff.1 hrow
  cases latest with
  | none =>
    have hempty : w.rows threadId = [] := hstored
    have hlast' : (w.rows threadId).getLast? = some last := hlast
    rw [hempty] at hlast'
    cases hlast'
  | some args =>
    obtain ⟨cp, hcp, hholds⟩ := hstored
    cases hcp.symm.trans hlast
    have hsaved := hstate.symm.trans (RoundTrip.fromValue_toValue hholds.state)
    refine ⟨args, rfl, Except.ok.inj hsaved, ?_, hdag.trans hholds.dag, ?_⟩
    · rw [hinfo]
      exact hholds.nextNode
    · rw [hinfo]
      exact hholds.yieldRequest

omit [State S] [RoundTrip S] in
/-- A save that is refused. -/
theorem written_of_refused {args : SaveArgs S} {r : Except TakelnError CheckpointSave} {e : TakelnError}
    (h : r.bind checkpointId = .error e) :
    written (S := S) ⟨.saveStateBound args, r⟩ = none ∧ savedId (S := S) ⟨.saveStateBound args, r⟩ = none := by
  rcases r with e' | save
  · exact ⟨rfl, rfl⟩
  · have hid : checkpointId save = .error e := h
    simp [written, savedId, hid, Except.toOption]

omit [State S] [RoundTrip S] in
/-- A save that is accepted. -/
theorem written_of_accepted {args : SaveArgs S} {r : Except TakelnError CheckpointSave} {id : String}
    (h : r.bind checkpointId = .ok id) :
    written (S := S) ⟨.saveStateBound args, r⟩ = some args ∧
      savedId (S := S) ⟨.saveStateBound args, r⟩ = some id := by
  rcases r with e' | save
  · cases h
  · have hid : checkpointId save = .ok id := h
    simp [written, savedId, hid, Except.toOption]

/-- The ledger of a call agrees with its operations and with the thread. -/
structure Ledger.Agrees (threadId : String) (latest : Option (SaveArgs S)) (q : Ledger S) (tr : List (Event (ops S)))
    (w : World) : Prop where
  stored : EndsWith (w.rows threadId) ((latestSave threadId tr).or latest)
  saved : q.saved.map Prod.fst = latestSave threadId tr
  id : q.saved.map Prod.snd = lastSaved tr
  loaded : ∀ l ∈ q.loaded, ∃ args ∈ latest, l.Reads args

/-- Whatever a call does is entered in its ledger. -/
theorem Ledger.Agrees.step {q : Ledger S} {tr : List (Event (ops S))} {o : Op S} {r : o.Answer}
    (hallow : (bookkeeping threadId call).allow q o) (hr : memory env w o = some (r, w'))
    (h : q.Agrees threadId latest tr w) :
    Ledger.Agrees threadId latest ((bookkeeping threadId call).next q o r) (tr ++ [(⟨o, r⟩ : Event (ops S))]) w' := by
  have hstored : EndsWith (w'.rows threadId) ((latestSave threadId (tr ++ [(⟨o, r⟩ : Event (ops S))])).or latest) := by
    rw [latestSave_append, Option.or_assoc]
    exact endsWith_of_memory h.stored hr
  have quiet (hwritten : written (S := S) ⟨o, r⟩ = none) (hid : Takeln.savedId (S := S) ⟨o, r⟩ = none) :
      latestSave threadId (tr ++ [(⟨o, r⟩ : Event (ops S))]) = latestSave threadId tr ∧
        lastSaved (tr ++ [(⟨o, r⟩ : Event (ops S))]) = lastSaved tr := by
    rw [latestSave_append, lastSaved_concat, hid, latestSave, savesOf_eq_nil]
    · exact ⟨rfl, rfl⟩
    · intro args h
      cases hwritten.symm.trans h
  cases o with
  | saveStateBound args =>
    have ht : args.threadId = threadId := hallow
    cases hid : (r : Except TakelnError CheckpointSave).bind checkpointId with
    | error e =>
      have hq : (bookkeeping threadId call).next q (.saveStateBound args) r = q := by
        simp [bookkeeping, hid]
      obtain ⟨hlatest, hlast⟩ := quiet (written_of_refused hid).1 (written_of_refused hid).2
      rw [hq]
      exact ⟨hstored, h.saved.trans hlatest.symm, h.id.trans hlast.symm, h.loaded⟩
    | ok id =>
      have hq : (bookkeeping threadId call).next q (.saveStateBound args) r = { q with saved := some (args, id) } := by
        simp [bookkeeping, hid]
      rw [hq]
      obtain ⟨hwritten, hsaved⟩ := written_of_accepted hid
      refine ⟨hstored, ?_, ?_, h.loaded⟩
      · have hsaves : savesOf threadId [(⟨.saveStateBound args, r⟩ : Event (ops S))] = [args] := by
          unfold savesOf writes
          rw [List.filterMap_cons_some hwritten]
          simp [ht]
        rw [latestSave_append, latestSave, hsaves]
        rfl
      · rw [lastSaved_concat]
        exact (congrArg (Option.or · (lastSaved tr)) hsaved).symm
  | loadState t =>
    obtain ⟨hlatest, hlast⟩ := quiet rfl rfl
    obtain ⟨ht, hnone⟩ : t = threadId ∧ q.saved = none := hallow
    have hunchanged : latestSave threadId tr = none := by
      rw [← h.saved, hnone]
      rfl
    obtain ⟨hload, rfl⟩ := Prod.mk.inj (Option.some.inj hr)
    subst ht
    rcases r with e | _ | l
    · exact ⟨hstored, h.saved.trans hlatest.symm, h.id.trans hlast.symm, h.loaded⟩
    · exact ⟨hstored, h.saved.trans hlatest.symm, h.id.trans hlast.symm, h.loaded⟩
    · refine ⟨hstored, h.saved.trans hlatest.symm, h.id.trans hlast.symm, ?_⟩
      rintro l' ⟨⟩
      have hrows := h.stored
      rw [hunchanged, Option.none_or] at hrows
      exact reads_of_endsWith hrows hload
  | _ =>
    obtain ⟨hlatest, hlast⟩ := quiet rfl rfl
    exact ⟨hstored, h.saved.trans hlatest.symm, h.id.trans hlast.symm, h.loaded⟩

/-- What a program has performed since it was started is in its ledger. -/
theorem agrees_of_reaches {α : Type} {p p' : Prog (ops S) TakelnError α} {Φ : Ledger S → Except TakelnError α → Prop}
    {tr : List (Event (ops S))} (hp : Follows (bookkeeping threadId call) p {} Φ)
    (hstored : EndsWith (w.rows threadId) latest) (hr : Reaches (memory env) p w tr p' w') :
    Ledger.Agrees threadId latest ((bookkeeping threadId call).after {} tr) tr w' := by
  have hinit : Ledger.Agrees threadId latest {} [] w := ⟨hstored, rfl, rfl, nofun⟩
  have hstep (q : Ledger S) (tr : List (Event (ops S))) (w : World) (o : Op S) (r : o.Answer) (w' : World)
      (hallow : (bookkeeping threadId call).allow q o) (hans : memory env w o = some (r, w'))
      (h : q.Agrees threadId latest tr w) :
      Ledger.Agrees threadId latest ((bookkeeping threadId call).next q o r) (tr ++ [(⟨o, r⟩ : Event (ops S))]) w' :=
    h.step hallow hans
  exact Follows.invariant (I := fun q tr w => Ledger.Agrees threadId latest q tr w) hstep hp hr hinit

variable [External] [Merge S]

omit [RoundTrip S] in
theorem prog_bookkeeping (call : Call S) :
    Follows (bookkeeping threadId call) (call.prog threadId) {} fun _ _ => True := by
  rw [call.prog_eq_answer, follows_bind]
  refine (answer_bookkeeping call).mono fun q x _ => ?_
  cases x <;> trivial

/-- Over any calls on a thread, each of them stopped anywhere: once a call has saved a checkpoint it calls nodes only
under the name and in the state that the latest checkpoint holds, with its id; and before that, only the node and the
state that its arguments name, or the latest checkpoint of the thread as it has loaded it. -/
theorem calls_continue {calls : List (Call S × List (Event (ops S)))} (hempty : w₀.rows threadId = [])
    (hS : Session (memory env) (Call.prog threadId) w₀ calls w) :
    ∀ earlier call done ctx state timeout token r rest later,
      calls = earlier ++ (call, done ++ (⟨.callNode ctx state timeout token, r⟩ : Event (ops S)) :: rest) :: later →
      (∀ args, latestSave threadId done = some args →
        ctx.nodeName = args.nextNode ∧ state = args.state ∧ ctx.lastCheckpointId = lastSaved done) ∧
      (latestSave threadId done = none → ctx.lastCheckpointId = none ∧ ∃ loaded,
        call.startNode loaded = some ctx.nodeName ∧ call.startState loaded = some state ∧
        ∀ l ∈ loaded, ∃ args ∈ latestSave threadId (performed earlier), l.Reads args) := by
  rintro earlier call done ctx state timeout token r rest later rfl
  obtain ⟨w₁, p, w₂, hearlier, hr⟩ := hS.split
  have hnames : Ledger.Names call ((bookkeeping threadId call).after {} done) ctx.nodeName state
      ctx.lastCheckpointId := (prog_bookkeeping call).allow_of_reaches hr
  obtain ⟨p', w', hdone, -⟩ := hr.split
  have hagrees : Ledger.Agrees threadId (latestSave threadId (performed earlier))
      ((bookkeeping threadId call).after {} done) done w' :=
    agrees_of_reaches (prog_bookkeeping call) (endsWith_of_empty hearlier.steps hempty) hdone
  generalize (bookkeeping threadId call).after {} done = q at hnames hagrees
  obtain ⟨loaded, saved⟩ := q
  rw [← hagrees.saved, ← hagrees.id]
  cases saved with
  | none =>
    rw [Option.map_none]
    exact ⟨fun _ h => (nomatch h), fun _ => ⟨hnames.2.2, loaded, hnames.1, hnames.2.1, hagrees.loaded⟩⟩
  | some save =>
    refine ⟨?_, nofun⟩
    rintro args ⟨⟩
    exact hnames

/-- Whatever was done on a thread before: the state a call returns is the one it has saved last, or, if it has saved
nothing, the one it has started in, from its arguments or from the latest checkpoint of the thread. -/
theorem returns_stored {calls : List (Call S × List (Event (ops S)))} (hempty : w₀.rows threadId = [])
    (hS : Session (memory env) (Call.prog threadId) w₀ calls w) (call : Call S)
    {u : Run (ops S) TakelnError (Option S) World} (hu : exec (memory env) (call.answer threadId) w = some u) {s : S}
    (hres : u.result = .ok (some s)) :
    (∀ args, latestSave threadId u.trace = some args → s = args.state) ∧
      (latestSave threadId u.trace = none → ∃ loaded, call.startState loaded = some s ∧
        ∀ l ∈ loaded, ∃ args ∈ latestSave threadId (performed calls), l.Reads args) := by
  have hfollows : Follows (bookkeeping threadId call) (call.answer threadId) {}
      fun q x => ∀ s, x = .ok (some s) → q.state call = some s := answer_bookkeeping call
  have hstate := hfollows.of_exec hu s hres
  have hagrees : Ledger.Agrees threadId (latestSave threadId (performed calls))
      ((bookkeeping threadId call).after {} u.trace) u.trace u.world :=
    agrees_of_reaches hfollows (endsWith_of_empty hS.steps hempty) (reaches_of_exec hu)
  generalize (bookkeeping threadId call).after {} u.trace = q at hstate hagrees
  obtain ⟨loaded, saved⟩ := q
  rw [← hagrees.saved]
  cases saved with
  | none =>
    rw [Option.map_none]
    exact ⟨fun _ h => (nomatch h), fun _ => ⟨loaded, hstate, hagrees.loaded⟩⟩
  | some save =>
    refine ⟨?_, nofun⟩
    rintro args ⟨⟩
    exact (Option.some.inj hstate).symm

end Sessions

/-! ### A crash and a resume -/

section Examples

attribute [local instance] shortRuns

theorem calls_continue_passing :
    ((performed passing.1).filterMap calledContext).map NodeContext.nodeName = ["A", "B"] ∧
      ∀ earlier call done ctx state timeout token r rest later,
        passing.1 = earlier ++ (call, done ++ (⟨.callNode ctx state timeout token, r⟩ : Event (ops Nat)) :: rest) ::
          later →
        (∀ args, latestSave "t" done = some args →
          ctx.nodeName = args.nextNode ∧ state = args.state ∧ ctx.lastCheckpointId = lastSaved done) ∧
        (latestSave "t" done = none → ctx.lastCheckpointId = none ∧ ∃ loaded,
          call.startNode loaded = some ctx.nodeName ∧ call.startState loaded = some state ∧
          ∀ l ∈ loaded, ∃ args ∈ latestSave "t" (performed earlier), l.Reads args) :=
  ⟨by decide +kernel, calls_continue rfl passing_session⟩

/-- The resume, with the state it returns. -/
def resumedHalf : Run (ops Nat) TakelnError (Option Nat) World :=
  (exec (memory completing) ((Call.resume guarded false).answer "t") cut.2).get (by decide +kernel)

theorem returns_stored_resumedHalf :
    (∀ args, latestSave "t" resumedHalf.trace = some args → 2 = args.state) ∧
      (latestSave "t" resumedHalf.trace = none → ∃ loaded, (Call.resume guarded false).startState loaded = some 2 ∧
        ∀ l ∈ loaded, ∃ args ∈ latestSave "t" (performed cut.1), l.Reads args) :=
  returns_stored rfl cut_session (.resume guarded false) (u := resumedHalf) (Option.some_get _).symm (by decide +kernel)

end Examples

end Takeln
