import Takeln.Concurrent.Calls
import Takeln.Sequential.Resume
import Takeln.Sequential.Settled

/-!
# Lost updates

A `resume`, `resume_with` or `resume_dag` call next to any other programs on its thread, on a store whose head and
whose latest checkpoint belong together.  The call loads in one step and reads the head in a later one, and its first
write is checked against the head only.  So the checkpoint it replaces is the one it was computed from if and only if
no other write is accepted between the two steps (`resume_replaces_loaded_iff`).
-/

namespace Takeln

open Effect Effect.Prog

variable {S : Type}

/-! ### A store with versions -/

/-- The latest accepted write of a thread, and every id that was given to a write. -/
structure Versions (S : Type) where
  latest : Option (Loaded S)
  used : List String
  latest_used : ∀ l ∈ latest, l.info.checkpointId ∈ used

namespace Versions

/-- The head of the thread is the id of its latest checkpoint. -/
def head (w : Versions S) : Option String := w.latest.map fun l => l.info.checkpointId

/-- The latest checkpoint after a write was accepted under the id `id`. -/
def written (args : SaveArgs S) (id : String) (time : Int) : Loaded S where
  state := args.state
  info :=
    { checkpointId := id, threadId := args.threadId, nextNode := args.nextNode, status := args.status,
      createdAt := time, yieldRequest := args.yieldRequest, claimedInterrupt := args.claimedInterrupt,
      resolvedInterrupt := args.resolvedInterrupt }
  dag := args.dag

def advance (w : Versions S) (args : SaveArgs S) (id : String) (time : Int) : Versions S where
  latest := some (written args id time)
  used := id :: w.used
  latest_used := by
    intro l hl
    cases hl
    exact List.mem_cons_self ..

/-- The latest checkpoint is claimed for an interrupt. -/
def claim (w : Versions S) (interruptId : String) : Versions S where
  latest := w.latest.map (·.claimedFor interruptId)
  used := w.used
  latest_used := by
    intro l hl
    obtain ⟨l', hl', rfl⟩ := Option.map_eq_some_iff.1 hl
    exact w.latest_used l' hl'

/-- What a checkpoint is: its id and its state. -/
def version (l : Loaded S) : String × S := (l.info.checkpointId, l.state)

end Versions

/-- The latest checkpoint is what is loaded and what the head names; a write is accepted only if it names the head, and
then gets a fresh id.  An operation may also fail without any effect, and everything else may be answered in any way. -/
def versioned (S : Type) : Semantics (ops S) (Versions S)
  | w, .currentHead _, r, w' => w' = w ∧ (r = .ok w.head ∨ ∃ e, r = .error e)
  | w, .loadState _, r, w' => w' = w ∧ (r = .ok w.latest ∨ ∃ e, r = .error e)
  | w, .saveStateBound args, r, w' =>
    args.proof.expectedHead = w.head ∧ (∃ id time, id ∉ w.used ∧ (r = .ok (.created id) ∨ r = .ok (.advanced id)) ∧
        w' = w.advance args id time) ∨
      args.proof.expectedHead ≠ w.head ∧ r = .ok (.conflict w.head) ∧ w' = w ∨
      (∃ e, r = .error e) ∧ w' = w
  | w, .claimInterrupt _ i, _, w' => w' = w ∨ w' = w.claim i
  | w, _, _, w' => w' = w

section

variable {ι : Type} {w w' : Versions S}

theorem versioned_accepted {o : Op S} {r : o.Answer} (h : versioned S w o r w')
    (hacc : (written (⟨o, r⟩ : Event (ops S))).isSome) :
    ∃ args, o = .saveStateBound args ∧ args.proof.expectedHead = w.head ∧
      ∃ id time, id ∉ w.used ∧ w' = w.advance args id time := by
  cases o with
  | saveStateBound args =>
    rcases h with ⟨hhead, id, time, hid, _, hw⟩ | ⟨_, rfl, _⟩ | ⟨⟨e, rfl⟩, _⟩
    · exact ⟨args, rfl, hhead, id, time, hid, hw⟩
    · cases hacc
    · cases hacc
  | _ => cases hacc

/-- Without an accepted write the latest version stays what it is. -/
theorem versioned_same {o : Op S} {r : o.Answer} (h : versioned S w o r w')
    (hacc : written (⟨o, r⟩ : Event (ops S)) = none) :
    w'.latest.map Versions.version = w.latest.map Versions.version ∧ w'.used = w.used := by
  cases o with
  | saveStateBound args =>
    rcases h with ⟨_, id, time, _, rfl | rfl, _⟩ | ⟨_, _, rfl⟩ | ⟨_, rfl⟩
    · cases hacc
    · cases hacc
    · exact ⟨rfl, rfl⟩
    · exact ⟨rfl, rfl⟩
  | claimInterrupt t i =>
    rcases h with rfl | rfl
    · exact ⟨rfl, rfl⟩
    · refine ⟨?_, rfl⟩
      unfold Versions.claim
      rw [Option.map_map]
      rfl
  | currentHead t => rw [h.1]; exact ⟨rfl, rfl⟩
  | loadState t => rw [h.1]; exact ⟨rfl, rfl⟩
  | _ => cases h; exact ⟨rfl, rfl⟩

theorem Versions.used_of_head (w : Versions S) {id : String} (h : id ∈ w.head) : id ∈ w.used := by
  obtain ⟨l, hl, rfl⟩ := Option.map_eq_some_iff.1 h
  exact w.latest_used l hl

theorem versioned_load {e : Entry (ops S) ι (Versions S)} {t : String} {loaded : Loaded S}
    (he : e.event = ⟨.loadState t, .ok (some loaded)⟩) (h : versioned S e.world e.op e.ans w') :
    w' = e.world ∧ e.world.latest = some loaded := by
  obtain ⟨who, world, o, r⟩ := e
  cases he
  obtain ⟨rfl, hr | ⟨err, hr⟩⟩ := h
  · exact ⟨rfl, (Except.ok.inj hr).symm⟩
  · cases hr

theorem versioned_read {e : Entry (ops S) ι (Versions S)} {t : String} {head : Option String}
    (he : e.event = ⟨.currentHead t, .ok head⟩) (h : versioned S e.world e.op e.ans w') :
    w' = e.world ∧ e.world.head = head := by
  obtain ⟨who, world, o, r⟩ := e
  cases he
  obtain ⟨rfl, hr | ⟨err, hr⟩⟩ := h
  · exact ⟨rfl, (Except.ok.inj hr).symm⟩
  · cases hr

theorem head_eq_of_version (h : w'.latest.map Versions.version = w.latest.map Versions.version) : w'.head = w.head := by
  have hid := congrArg (Option.map Prod.fst) h
  simpa [Option.map_map, Function.comp_def, Versions.version, Versions.head] using hid

/-- Ids are never used again; without an accepted write the latest version stays what it is, and with one the head is
new. -/
theorem versions_of_trail {tr : List (Entry (ops S) ι (Versions S))} (h : Trail (versioned S) w tr w') :
    (∀ id ∈ w.used, id ∈ w'.used) ∧
      ((∀ x ∈ tr, written x.event = none) → w'.latest.map Versions.version = w.latest.map Versions.version) ∧
      ((∃ x ∈ tr, (written x.event).isSome) → ∃ id ∈ w'.head, id ∉ w.used) := by
  induction h with
  | nil w => exact ⟨fun _ h => h, fun _ => rfl, fun ⟨x, hx, _⟩ => absurd hx List.not_mem_nil⟩
  | @cons w w₁ w'' i o r tr hsem _ ih =>
    obtain ⟨hused, hsame, hnew⟩ := ih
    cases hacc : written (⟨o, r⟩ : Event (ops S)) with
    | none =>
      obtain ⟨hversion, hused₁⟩ := versioned_same hsem hacc
      rw [hused₁] at hused hnew
      refine ⟨hused, fun hall => ?_, fun hex => hnew ?_⟩
      · exact (hsame fun x hx => hall x (List.mem_cons_of_mem _ hx)).trans hversion
      · obtain ⟨x, hx, hxw⟩ := hex
        rcases List.mem_cons.1 hx with rfl | hx
        · change (written (⟨o, r⟩ : Event (ops S))).isSome at hxw
          rw [hacc] at hxw
          cases hxw
        · exact ⟨x, hx, hxw⟩
    | some args' =>
      obtain ⟨args, _, _, id, time, hid, rfl⟩ := versioned_accepted hsem (by rw [hacc]; rfl)
      have hgrow : ∀ id' ∈ w.used, id' ∈ (w.advance args id time).used := fun id' h => List.mem_cons_of_mem _ h
      refine ⟨fun id' h => hused id' (hgrow id' h), fun hall => ?_, fun _ => ?_⟩
      · have := hall ⟨i, w, o, r⟩ (List.mem_cons_self ..)
        cases hacc.symm.trans this
      · by_cases hex : ∃ x ∈ tr, (written x.event).isSome
        · obtain ⟨id', hid', hfresh⟩ := hnew hex
          exact ⟨id', hid', fun h => hfresh (hgrow id' h)⟩
        · have hall : ∀ x ∈ tr, written x.event = none := fun x hx => by
            by_contra hne
            exact hex ⟨x, hx, Option.isSome_iff_ne_none.2 hne⟩
          refine ⟨id, ?_, hid⟩
          rw [head_eq_of_version (hsame hall)]
          rfl

end

/-! ### What a resume does first -/

/-- How far a resume has come. -/
inductive LoadPhase (S : Type)
  | fresh
  /-- it has loaded a checkpoint; its run starts with this state -/
  | loaded (state : S)
  /-- it has read the head, and written nothing yet -/
  | ready (state : S) (head : Option String)
  | written
  | failed

/-- A resume loads, then reads the head, and until its first write is accepted it executes nodes with the state it has
loaded and writes with the head it has read. -/
def loadsFirst (rebind : S → S) : Protocol (ops S) (LoadPhase S) where
  allow
    | .fresh, .loadState _ => True
    | .loaded _, .currentHead _ => True
    | .ready _ _, .nextSeq => True
    | .ready _ _, .send _ => True
    | .ready _ _, .record _ _ => True
    | .ready s _, .callNode _ state _ _ => state = s
    | .ready s _, .joinWave tasks => ∀ t ∈ tasks, t.state = s
    | .ready _ head, .saveStateBound args => args.proof.expectedHead = head
    | .written, .nextSeq => True
    | .written, .send _ => True
    | .written, .record _ _ => True
    | .written, .callNode _ _ _ _ => True
    | .written, .joinWave _ => True
    | .written, .saveStateBound _ => True
    | _, _ => False
  next
    | .fresh, .loadState _, .ok (some loaded) => .loaded (rebind loaded.state)
    | .fresh, .loadState _, _ => .failed
    | .loaded s, .currentHead _, .ok head => .ready s head
    | .loaded _, .currentHead _, .error _ => .failed
    | .ready _ _, .saveStateBound _, r =>
      match Except.bind r checkpointId with
      | .ok _ => .written
      | .error _ => .failed
    | q, _, _ => q

/-- The call resumes a thread, and applies this to the loaded state. -/
def Call.resumes : Call S → Option (S → S)
  | .resume _ _ => some id
  | .resumeWith _ _ rebind => some rebind
  | .resumeDag _ _ _ _ => some id
  | _ => none

section Follow

variable [External] [State S] {g : Graph S} {threadId : String} {cancellation : Bool}
  {resolvedInterrupt : Option String} {rebind : S → S}

/-- The loop is in the loaded state, or has written. -/
private def Loads (state : S) (head : Option String) (q : LoadPhase S) : Prop := q = .ready state head ∨ q = .written

omit [External] [State S] in
private theorem Loads.silent {state : S} {head : Option String} {q : LoadPhase S} (h : Loads state head q) (max : Nat) :
    Silent (loadsFirst rebind) q max := by
  rcases h with rfl | rfl <;> constructor <;> first | exact ⟨trivial, fun _ => rfl⟩ | exact fun _ => ⟨trivial, rfl⟩

omit [External] [State S] in
private theorem Loads.save {state : S} {head : Option String} {q : LoadPhase S} (h : Loads state head q)
    {args : SaveArgs S} (hargs : args.proof = checkpointProof head) {Φ : LoadPhase S → Except TakelnError String → Prop}
    (herr : ∀ q e, Φ q (.error e)) (hok : ∀ id, Φ .written (.ok id)) : SaveFollows (loadsFirst rebind) q args Φ := by
  rcases h with rfl | rfl
  · refine ⟨congrArg CheckpointProof.expectedHead hargs, fun r => ?_⟩
    change Φ (match r.bind checkpointId with | .ok _ => LoadPhase.written | .error _ => LoadPhase.failed) _
    cases r.bind checkpointId with
    | error e => exact herr _ e
    | ok id => exact hok id
  · refine ⟨trivial, fun r => ?_⟩
    change Φ LoadPhase.written _
    cases r.bind checkpointId with
    | error e => exact herr _ e
    | ok id => exact hok id

theorem runInner_loads (state : S) (startNode : String) :
    Follows (loadsFirst rebind) (g.runInner threadId cancellation resolvedInterrupt state startNode none)
      (.loaded state) fun _ _ => True := by
  refine follows_runInner (I := fun q v => Loads v.state v.expectedHead q) trivial (fun _ => trivial)
    (fun head => Or.inl rfl) ?_ fun _ _ _ _ => trivial
  intro q v hI
  refine follows_loopBody (hI.silent _) ?_ trivial (fun _ => trivial) fun args flow hsave => ?_
  · intro ctx timeout token
    rcases hI with rfl | rfl
    · exact ⟨rfl, fun _ => rfl⟩
    · exact ⟨trivial, fun _ => rfl⟩
  · refine hI.save (hsave "").proof_eq (fun _ _ => trivial) fun id => ?_
    dsimp only
    cases hf : flow id with
    | stop v' => trivial
    | next v' => exact Or.inr rfl

omit [External] in
theorem runDag_loads [Merge S] (dag : DAG) (state : S) (depth : Nat) :
    Follows (loadsFirst rebind) (g.runDag threadId cancellation dag state depth) (.loaded state) fun _ _ => True := by
  refine follows_runDag (I := fun q v => Loads v.state v.expectedHead q) (fun _ => trivial) trivial (fun _ => trivial)
    (fun head => Or.inl rfl) ?_ fun _ _ _ _ => trivial
  intro q v hI
  refine follows_waveBody (hI.silent _) ?_ ((hI.silent 0).emit _ trivial)
    (fun _ => trivial) fun args flow dag hsave => ?_
  · intro tasks htasks
    rcases hI with rfl | rfl
    · exact ⟨fun t ht => (htasks t ht).1, fun _ => rfl⟩
    · exact ⟨trivial, fun _ => rfl⟩
  · refine hI.save (hsave "").proof_eq (fun _ _ => trivial) fun id => ?_
    dsimp only
    cases hf : flow id with
    | stop v' => exact (Loads.silent (Or.inr rfl : Loads v'.state none _) 0).emit _ trivial
    | yielded v' => trivial
    | next v' => exact Or.inr rfl

theorem loadsFirst_follows [Merge S] {call : Call S} (hcall : call.resumes = some rebind) :
    Follows (loadsFirst rebind) (call.prog threadId) .fresh fun _ _ => True := by
  have resumeWith (g : Graph S) (c : Bool) :
      Follows (loadsFirst rebind) (g.resumeWith threadId c rebind) .fresh fun _ _ => True :=
    follows_resumeWith trivial (fun _ _ => trivial) fun loaded node _ => runInner_loads _ _
  have drop {A : Type} {p : Prog (ops S) TakelnError A} (hp : Follows (loadsFirst rebind) p .fresh fun _ _ => True) :
      Follows (loadsFirst rebind) (p.bind fun _ => .ret ()) .fresh fun _ _ => True := by
    rw [follows_bind]
    refine hp.mono fun q x _ => ?_
    cases x <;> trivial
  cases call with
  | resume g c =>
    cases hcall
    exact drop (resumeWith g c)
  | resumeWith g c rebind' =>
    cases hcall
    exact drop (resumeWith g c)
  | resumeDag g c dag depth =>
    cases hcall
    refine drop ?_
    rw [follows_mapError]
    exact follows_resumeDag trivial (fun _ _ => trivial) fun loaded dag => runDag_loads dag loaded.state depth
  | _ => cases hcall

end Follow

/-! ### Who replaces what -/

section Phases

variable {rebind : S → S}

theorem after_failed (events : List (Event (ops S))) : (loadsFirst rebind).after .failed events = .failed := by
  induction events with
  | nil => rfl
  | cons e events ih => exact ih

/-- Until its first write is accepted a resume is ready, or has failed. -/
theorem after_ready (rebind : S → S) (s : S) (head : Option String) {events : List (Event (ops S))}
    (h : ∀ e ∈ events, written e = none) :
    (loadsFirst rebind).after (.ready s head) events = .ready s head ∨
      (loadsFirst rebind).after (.ready s head) events = .failed := by
  induction events with
  | nil => exact Or.inl rfl
  | cons e events ih =>
    have hrest := ih fun e' he' => h e' (List.mem_cons_of_mem _ he')
    have he := h e (List.mem_cons_self ..)
    obtain ⟨o, r⟩ := e
    cases o with
    | saveStateBound args =>
      rcases r with err | save
      · exact Or.inr (after_failed events)
      · cases save with
        | conflict actual => exact Or.inr (after_failed events)
        | _ => cases he
    | _ => exact hrest

/-- A resume that has loaded a state reads the head with this state. -/
theorem after_loaded {s s' : S} (events : List (Event (ops S))) (q : LoadPhase S)
    (hq : q = .loaded s ∨ (∃ head, q = .ready s head) ∨ q = .written ∨ q = .failed)
    (h : (loadsFirst rebind).after q events = .loaded s') : s' = s := by
  induction events generalizing q with
  | nil =>
    rcases hq with rfl | ⟨head, rfl⟩ | rfl | rfl <;> cases h
    rfl
  | cons e events ih =>
    refine ih _ ?_ h
    obtain ⟨o, r⟩ := e
    rcases hq with rfl | ⟨head, rfl⟩ | rfl | rfl
    · cases o with
      | currentHead t =>
        rcases r with err | head
        · exact Or.inr (Or.inr (Or.inr rfl))
        · exact Or.inr (Or.inl ⟨head, rfl⟩)
      | _ => exact Or.inl rfl
    · cases o with
      | saveStateBound args =>
        rcases r with err | save
        · exact Or.inr (Or.inr (Or.inr rfl))
        · cases save with
          | conflict actual => exact Or.inr (Or.inr (Or.inr rfl))
          | _ => exact Or.inr (Or.inr (Or.inl rfl))
      | _ => exact Or.inr (Or.inl ⟨head, rfl⟩)
    · exact Or.inr (Or.inr (Or.inl rfl))
    · exact Or.inr (Or.inr (Or.inr rfl))

end Phases

/-- The checkpoint an operation loads. -/
def loads : Event (ops S) → Option (Loaded S)
  | ⟨.loadState _, .ok (some loaded)⟩ => some loaded
  | _ => none

/-- The operation reads the head. -/
def readsHead (e : Event (ops S)) : Bool :=
  match e.op with
  | .currentHead _ => true
  | _ => false

theorem eq_of_loads {e : Event (ops S)} {loaded : Loaded S} (h : loads e = some loaded) :
    ∃ t, e = ⟨.loadState t, .ok (some loaded)⟩ := by
  obtain ⟨o, r⟩ := e
  cases o with
  | loadState t =>
    rcases r with err | _ | loaded'
    · cases h
    · cases h
    · cases h
      exact ⟨t, rfl⟩
  | _ => cases h

theorem eq_of_readsHead {e : Event (ops S)} (h : readsHead e = true) : ∃ t r, e = ⟨.currentHead t, r⟩ := by
  obtain ⟨o, r⟩ := e
  cases o with
  | currentHead t => exact ⟨t, r, rfl⟩
  | _ => cases h

/-- The operation executes nodes only with this state. -/
def GivenState (s : S) (e : Event (ops S)) : Prop :=
  match e.op with
  | .callNode _ state _ _ => state = s
  | .joinWave tasks => ∀ t ∈ tasks, t.state = s
  | _ => True

section Main

variable [External] [State S] [Merge S] {ι : Type} [DecidableEq ι] {t : String} {rebind : S → S} {w₀ w : Versions S}
  {tr l₁ l₂ l₃ l₄ : List (Entry (ops S) ι (Versions S))} {load read save : Entry (ops S) ι (Versions S)}
  {P₀ P : ι → Prog (ops S) TakelnError Unit} {i : ι} {loaded : Loaded S}

omit [External] [State S] [Merge S] in
/-- What the protocol says of the four steps: the first write carries the head that was read, and before it nodes are
executed with the loaded state only. -/
private theorem steps_of_loadsFirst {p : Prog (ops S) TakelnError Unit}
    (hfollows : Follows (loadsFirst rebind) p .fresh fun _ _ => True)
    (hI : Interleaving (versioned S) P₀ w₀ tr P w) (hprog : P₀ i = p)
    (htr : tr = l₁ ++ load :: (l₂ ++ read :: (l₃ ++ save :: l₄)))
    (hload : load.who = i ∧ loads load.event = some loaded) (hread : read.who = i ∧ readsHead read.event)
    (hsave : save.who = i ∧ (written save.event).isSome)
    (hfirst : ∀ x ∈ l₃, x.who = i → written x.event = none) :
    (∃ args head t, save.op = .saveStateBound args ∧ args.proof.expectedHead = head ∧
        read.event = ⟨.currentHead t, .ok head⟩) ∧
      ∀ x ∈ l₃, x.who = i → GivenState (rebind loaded.state) x.event := by
  subst hprog
  have hallow := (hI.allow_own hfollows).2
  obtain ⟨t, hloadEq⟩ := eq_of_loads hload.2
  obtain ⟨t', r, hr⟩ := eq_of_readsHead hread.2
  -- it has done nothing before it loads
  have hfresh : (loadsFirst rebind).after .fresh (own i l₁) = .fresh := by
    have h := hallow l₁ load _ htr hload.1
    rw [show load.op = .loadState t from congrArg Event.op hloadEq] at h
    generalize (loadsFirst rebind).after .fresh (own i l₁) = q at h
    cases q with
    | fresh => rfl
    | _ => cases h
  have hloaded : (loadsFirst rebind).after .fresh (own i (l₁ ++ [load])) = .loaded (rebind loaded.state) := by
    rw [own_concat, if_pos hload.1, Protocol.after_concat, hfresh, hloadEq]
    rfl
  -- it still has that state when it reads the head
  have hready : (loadsFirst rebind).after .fresh (own i (l₁ ++ load :: l₂)) = .loaded (rebind loaded.state) := by
    have h := hallow (l₁ ++ load :: l₂) read (l₃ ++ save :: l₄) (by rw [htr]; simp) hread.1
    rw [show read.op = .currentHead t' from congrArg Event.op hr] at h
    have hlater (s' : S) : (loadsFirst rebind).after .fresh (own i (l₁ ++ load :: l₂)) = .loaded s' →
        s' = rebind loaded.state := by
      intro hs'
      rw [show l₁ ++ load :: l₂ = (l₁ ++ [load]) ++ l₂ by simp, own_append, Protocol.after_append, hloaded] at hs'
      exact after_loaded (own i l₂) _ (Or.inl rfl) hs'
    generalize (loadsFirst rebind).after .fresh (own i (l₁ ++ load :: l₂)) = q at h hlater
    cases q with
    | loaded s' => rw [hlater s' rfl]
    | _ => cases h
  have hnext : (loadsFirst rebind).after .fresh (own i (l₁ ++ load :: (l₂ ++ [read]))) =
      (loadsFirst rebind).next (.loaded (rebind loaded.state)) read.event.op read.event.ans := by
    rw [← List.cons_append, ← List.append_assoc, own_concat, if_pos hread.1, Protocol.after_concat, hready]
  rw [hr] at hnext
  have hquiet : ∀ l : List (Entry (ops S) ι (Versions S)), (∀ x ∈ l, x ∈ l₃) → ∀ e ∈ own i l, written e = none := by
    intro l hl e he
    obtain ⟨x, hx, rfl⟩ := List.mem_map.1 he
    rw [List.mem_filter, decide_eq_true_iff] at hx
    exact hfirst x (hl x hx.1) hx.2
  -- in the part of `l₃` that it has done it was ready, or it has failed
  have hphase (l : List (Entry (ops S) ι (Versions S))) (hl : ∀ x ∈ l, x ∈ l₃) :
      (∃ head, r = .ok head ∧ (loadsFirst rebind).after .fresh (own i (l₁ ++ load :: (l₂ ++ read :: l))) =
        .ready (rebind loaded.state) head) ∨
      (loadsFirst rebind).after .fresh (own i (l₁ ++ load :: (l₂ ++ read :: l))) = .failed := by
    have hsplit : l₁ ++ load :: (l₂ ++ read :: l) = (l₁ ++ load :: (l₂ ++ [read])) ++ l := by simp
    rw [hsplit, own_append, Protocol.after_append, hnext]
    rcases r with err | head
    · exact Or.inr (after_failed _)
    · rcases after_ready rebind (rebind loaded.state) head (hquiet l hl) with h | h
      · exact Or.inl ⟨head, rfl, h⟩
      · exact Or.inr h
  constructor
  · have h := hallow (l₁ ++ load :: (l₂ ++ read :: l₃)) save l₄ (by rw [htr]; simp) hsave.1
    obtain ⟨who, world, o, ans⟩ := save
    cases o with
    | saveStateBound args =>
      rcases hphase l₃ fun _ h => h with ⟨head, rfl, hq⟩ | hq
      · rw [hq] at h
        exact ⟨args, head, t', rfl, h, hr⟩
      · rw [hq] at h
        cases h
    | _ => cases hsave.2
  · intro x hx hwho
    obtain ⟨m₁, m₂, rfl⟩ := List.append_of_mem hx
    have h := hallow (l₁ ++ load :: (l₂ ++ read :: m₁)) x (m₂ ++ save :: l₄) (by rw [htr]; simp) hwho
    rcases hphase m₁ fun _ h => List.mem_append_left _ h with ⟨head, _, hq⟩ | hq
    · rw [hq] at h
      obtain ⟨who, world, o, ans⟩ := x
      cases o <;> first | exact h | trivial
    · rw [hq] at h
      obtain ⟨who, world, o, ans⟩ := x
      cases o <;> cases h

/-- The first accepted write of a resume replaces the checkpoint that it loaded, and was computed from its state, if and
only if no other write was accepted between the load and the read of the head. -/
theorem resume_replaces_loaded_iff (hI : Interleaving (versioned S) P₀ w₀ tr P w) (call : Call S)
    (hprog : P₀ i = call.prog t) (hcall : call.resumes = some rebind)
    (htr : tr = l₁ ++ load :: (l₂ ++ read :: (l₃ ++ save :: l₄)))
    (hload : load.who = i ∧ loads load.event = some loaded) (hread : read.who = i ∧ readsHead read.event)
    (hsave : save.who = i ∧ (written save.event).isSome)
    (hfirst : ∀ x ∈ l₃, x.who = i → written x.event = none) :
    (∃ l, save.world.latest = some l ∧ Versions.version l = Versions.version loaded ∧
        ∀ x ∈ l₃, x.who = i → GivenState (rebind l.state) x.event) ↔
      ∀ x ∈ l₂, written x.event = none := by
  obtain ⟨⟨args, head, _, hop, hargs, hevent⟩, hgiven⟩ :=
    steps_of_loadsFirst (loadsFirst_follows hcall) hI hprog htr hload hread hsave hfirst
  -- the worlds of the steps
  have htrail := hI.trail
  rw [htr] at htrail
  obtain ⟨_, w₁, hstep₁, htrail⟩ := htrail.split
  obtain ⟨htrail₂, w₂, hstep₂, htrail⟩ := htrail.split
  obtain ⟨htrail₃, w₃, hstep₃, _⟩ := htrail.split
  obtain ⟨_, hloadEq⟩ := eq_of_loads hload.2
  obtain ⟨rfl, hlatest⟩ := versioned_load hloadEq hstep₁
  obtain ⟨rfl, hhead⟩ := versioned_read hevent hstep₂
  obtain ⟨hused₂, hsame₂, hnew₂⟩ := versions_of_trail htrail₂
  obtain ⟨_, hsame₃, hnew₃⟩ := versions_of_trail htrail₃
  have hreplaced : save.world.head = read.world.head := by
    obtain ⟨args', hop', hargs', _⟩ := versioned_accepted hstep₃ hsave.2
    rw [hop] at hop'
    cases hop'
    rw [hhead, ← hargs', hargs]
  -- nothing was accepted between the read of the head and the write
  have hclean₃ : ∀ x ∈ l₃, written x.event = none := by
    by_contra hne
    simp only [not_forall] at hne
    obtain ⟨x, hx, hxw⟩ := hne
    obtain ⟨id, hid, hfresh⟩ := hnew₃ ⟨x, hx, Option.isSome_iff_ne_none.2 hxw⟩
    rw [hreplaced] at hid
    exact hfresh (read.world.used_of_head hid)
  constructor
  · rintro ⟨l, hl, hversion, _⟩ x hx
    by_contra hne
    obtain ⟨id, hid, hfresh⟩ := hnew₂ ⟨x, hx, Option.isSome_iff_ne_none.2 hne⟩
    rw [← hreplaced, Versions.head, hl] at hid
    have hid' : id = loaded.info.checkpointId := (Option.some.inj hid).symm.trans (congrArg Prod.fst hversion)
    exact hfresh (hid' ▸ load.world.latest_used loaded hlatest)
  · intro hclean₂
    have hversion := (hsame₃ hclean₃).trans (hsame₂ hclean₂)
    rw [hlatest] at hversion
    obtain ⟨l, hl, hlv⟩ := Option.map_eq_some_iff.1 hversion
    refine ⟨l, hl, hlv, ?_⟩
    rw [show l.state = loaded.state from congrArg Prod.snd hlv]
    exact hgiven

end Main

/-! ### A writer in between -/

section Examples

attribute [local instance] shortRuns

/-- A store of versions `c0`, `c1` and so on, on which every node counts up. -/
def versionStore : Handler (ops Nat) (Versions Nat)
  | w, .currentHead _ => some (.ok w.head, w)
  | w, .loadState _ => some (.ok w.latest, w)
  | w, .saveStateBound args =>
    let id := s!"c{w.used.length}"
    if args.proof.expectedHead ≠ w.head then some (.ok (.conflict w.head), w)
    else if id ∈ w.used then some (.error (.checkpointError id), w)
    else some (.ok (.advanced id), w.advance args id 0)
  | w, .claimInterrupt t _ => some (.error (.nothingToResume t), w)
  | w, .callNode _ state _ _ => some (.returned (.ok { state := state + 1 }), w)
  | w, .joinWave _ => some ([], w)
  | w, .nextSeq => some ((0 : Nat), w)
  | w, .send _ => some ((), w)
  | w, .record _ _ => some ((), w)

theorem versioned_of_versionStore (w : Versions Nat) (o : Op Nat) (r : o.Answer) (w' : Versions Nat)
    (h : versionStore w o = some (r, w')) : versioned Nat w o r w' := by
  cases o with
  | saveStateBound args =>
    simp only [versionStore] at h
    split at h
    · rename_i hhead
      cases h
      exact Or.inr (Or.inl ⟨hhead, rfl, rfl⟩)
    · rename_i hhead
      split at h
      · cases h
        exact Or.inr (Or.inr ⟨⟨_, rfl⟩, rfl⟩)
      · rename_i hid
        cases h
        exact Or.inl ⟨not_not.1 hhead, _, _, hid, Or.inr rfl, rfl⟩
  | currentHead t =>
    cases h
    exact ⟨rfl, Or.inl rfl⟩
  | loadState t =>
    cases h
    exact ⟨rfl, Or.inl rfl⟩
  | claimInterrupt t i =>
    cases h
    exact Or.inl rfl
  | _ =>
    cases h
    rfl

/-- A thread whose latest checkpoint `base` waits at `A`. -/
def base : Versions Nat :=
  (⟨none, [], by simp⟩ : Versions Nat).advance (Graph.loopSave "t" (.start 0 "A" none none) 0 "A" .complete none none)
    "base" 0

/-- A resume, and a run that writes to the same thread. -/
def meddling : Bool → Prog (ops Nat) TakelnError Unit
  | true => (Call.resume single false).prog "t"
  | false => (Call.run single false 5 "A").prog "t"

/-- The resume loads, the run runs, and then the resume goes on. -/
def meddled : List (Entry (ops Nat) Bool (Versions Nat)) × (Bool → Prog (ops Nat) TakelnError Unit) × Versions Nat :=
  (schedule versionStore ([true] ++ List.replicate 8 false ++ List.replicate 8 true) [] meddling base).get
    (by decide +kernel)

theorem schedule_meddled :
    schedule versionStore ([true] ++ List.replicate 8 false ++ List.replicate 8 true) [] meddling base = some meddled :=
  (Option.some_get _).symm

theorem meddled_interleaving : Interleaving (versioned Nat) meddling base meddled.1 meddled.2.1 meddled.2.2 :=
  (Interleaving.start.schedule schedule_meddled).mono versioned_of_versionStore

/-- The steps of the resume: it loads, the run writes, and then it reads the head and writes. -/
theorem meddled_steps :
    ∃ load l₂ read l₃ save l₄ loaded, meddled.1 = [] ++ load :: (l₂ ++ read :: (l₃ ++ save :: l₄)) ∧
      (load.who = true ∧ loads load.event = some loaded) ∧ (read.who = true ∧ readsHead read.event) ∧
      (save.who = true ∧ (written save.event).isSome) ∧ (∀ x ∈ l₃, x.who = true → written x.event = none) ∧
      save.world.latest.map Versions.version ≠ some (Versions.version loaded) := by
  refine ⟨meddled.1.head (List.ne_nil_of_length_pos (by decide +kernel)), meddled.1.tail.take 8,
    (meddled.1.tail.drop 8).head (List.ne_nil_of_length_pos (by decide +kernel)), (meddled.1.tail.drop 8).tail.take 6,
    ((meddled.1.tail.drop 8).tail.drop 6).head (List.ne_nil_of_length_pos (by decide +kernel)),
    ((meddled.1.tail.drop 8).tail.drop 6).tail, _, ?_,
    ⟨by decide +kernel, (Option.some_get (show Option.isSome _ = true by decide +kernel)).symm⟩,
    ⟨by decide +kernel, by decide +kernel⟩, ⟨by decide +kernel, by decide +kernel⟩, ?_, by decide +kernel⟩
  · rw [List.cons_head_tail, List.take_append_drop, List.cons_head_tail, List.take_append_drop, List.nil_append,
      List.cons_head_tail]
  · have hnone : ((meddled.1.tail.drop 8).tail.take 6).all (fun x => (written x.event).isNone) = true := by
      decide +kernel
    intro x hx _
    exact Option.isNone_iff_eq_none.1 (List.all_eq_true.1 hnone x hx)

theorem resume_replaces_loaded_false :
    ∃ load l₂ read l₃ save l₄ loaded,
      Interleaving (versioned Nat) meddling base ([] ++ load :: (l₂ ++ read :: (l₃ ++ save :: l₄))) meddled.2.1
        meddled.2.2 ∧
      (load.who = true ∧ loads load.event = some loaded) ∧ (read.who = true ∧ readsHead read.event) ∧
      (save.who = true ∧ (written save.event).isSome) ∧ (∀ x ∈ l₃, x.who = true → written x.event = none) ∧
      ¬ ∃ l, save.world.latest = some l ∧ Versions.version l = Versions.version loaded ∧
        ∀ x ∈ l₃, x.who = true → GivenState l.state x.event := by
  obtain ⟨load, l₂, read, l₃, save, l₄, loaded, htr, hload, hread, hsave, hfirst, hversion⟩ := meddled_steps
  refine ⟨load, l₂, read, l₃, save, l₄, loaded, htr ▸ meddled_interleaving, hload, hread, hsave, hfirst, ?_⟩
  rintro ⟨l, hl, hlv, _⟩
  exact hversion (by rw [hl, ← hlv]; rfl)

theorem resume_replaces_loaded_meddled :
    ∃ load l₂ read l₃ save l₄ loaded, meddled.1 = [] ++ load :: (l₂ ++ read :: (l₃ ++ save :: l₄)) ∧
      ((∃ l, save.world.latest = some l ∧ Versions.version l = Versions.version loaded ∧
          ∀ x ∈ l₃, x.who = true → GivenState (id l.state) x.event) ↔ ∀ x ∈ l₂, written x.event = none) := by
  obtain ⟨load, l₂, read, l₃, save, l₄, loaded, htr, hload, hread, hsave, hfirst, _⟩ := meddled_steps
  refine ⟨load, l₂, read, l₃, save, l₄, loaded, htr, ?_⟩
  exact resume_replaces_loaded_iff meddled_interleaving (.resume single false) rfl rfl htr hload hread hsave hfirst

end Examples

end Takeln
