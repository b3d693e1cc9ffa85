import Takeln.Stores.Calls
import Takeln.Stores.Engines

/-!
# Checkpointers that stand in for the in-memory one

The engines use three operations of a checkpointer.  If these keep up with an in-memory store, up to the texts of errors
and the dates of checkpoints (`StandsIn`), then any number of calls do on the checkpointer what they do in memory,
however they take turns and however many of them are stopped on the way (`StandsIn.interleaving`).
-/

namespace Takeln

open Effect Effect.Prog

/-- What the engines use of a checkpointer with the store `C`: a save is given its id and its clock reading, the others
the number of the query. -/
structure Checkpointer (S C : Type) where
  saveState : String → Int → SaveArgs S → C → Except TakelnError String × C
  loadState : Nat → String → C → Except TakelnError (Option (Loaded S))
  claimInterrupt : Nat → String → String → C → Except TakelnError ClaimResult × C

/-- The store of a checkpointer, with counters of the queries, saves, node calls and waves so far, and the shared state
of the graph. -/
structure Hosted (C : Type) where
  store : C
  queries : Nat := 0
  saves : Nat := 0
  calls : Nat := 0
  waves : Nat := 0
  seq : Nat := 0
  records : List ExecutionRecord := []

variable {S C : Type}

/-- The engines on a checkpointer. -/
def Checkpointer.engines (cp : Checkpointer S C) (env : Env S) : Handler (ops S) (Hosted C)
  | w, .currentHead _ => some (.ok none, w)
  | w, .saveStateBound args =>
    let (r, store) := cp.saveState (env.newId w.saves) (env.now w.saves) args w.store
    some (r.map .created, { w with store := store, saves := w.saves + 1 })
  | w, .loadState threadId =>
    some (cp.loadState w.queries threadId w.store, { w with queries := w.queries + 1 })
  | w, .claimInterrupt threadId interruptId =>
    let (r, store) := cp.claimInterrupt w.queries threadId interruptId w.store
    some (r, { w with store := store, queries := w.queries + 1 })
  | w, .callNode ctx state timeout token =>
    some (env.answer w.calls ctx state timeout token, { w with calls := w.calls + 1 })
  | w, .joinWave tasks =>
    some ((env.order w.waves tasks).1.map fun t => t.joinResult (env.outcome w.waves t),
      { w with waves := w.waves + 1 })
  | w, .nextSeq => some (w.seq, { w with seq := w.seq + 1 })
  | w, .send _ => some ((), w)
  | w, .record max r => (pushRecord max w.records r).map fun records => ((), { w with records := records })

/-- The first `n` saves draw distinct ids and increasing times. -/
structure Ticks (env : Env S) (n : Nat) : Prop where
  ids {i j : Nat} : i < j → j < n → env.newId i ≠ env.newId j
  times {i j : Nat} : i < j → j < n → env.now i < env.now j

/-- Replies that are the same come from the same results. -/
theorem sameEnd_of_sameReply {α : Type} {f : α → Reply S} (hf : Function.Injective f) {x x' : Except TakelnError α}
    (h : SameReply (x.map f) (x'.map f)) : SameEnd SameKind x x' := by
  cases x with
  | ok a =>
    cases x' with
    | ok a' =>
      cases hf (show f a = f a' from h)
      exact .ok a
    | error e' => exact absurd h id
  | error e =>
    cases x' with
    | ok a' => exact absurd h id
    | error e' => exact .error h

variable [State S]

/-! ### The in-memory store -/

/-- What a save writes. -/
theorem mem_rows_saveState {store : MemoryStore} {id : String} {now : Int} {args : SaveArgs S} {t : String}
    {cp : MemoryCheckpoint} (h : cp ∈ (store.saveState id now args).2.rows t) :
    cp ∈ store.rows t ∨ ∃ v, cp = .ofSave id now v args := by
  unfold MemoryStore.saveState at h
  split at h
  · exact Or.inl h
  · rename_i v _
    rw [MemoryStore.rows_update] at h
    split at h
    · rename_i ht
      rcases List.mem_append.1 h with hold | hnew
      · exact Or.inl (ht ▸ hold)
      · exact Or.inr ⟨v, List.mem_singleton.1 hnew⟩
    · exact Or.inl h

/-- What a claim leaves of a checkpoint. -/
theorem mem_rows_claimInterrupt {store : MemoryStore} {threadId interruptId t : String} {cp : MemoryCheckpoint}
    (h : cp ∈ (store.claimInterrupt threadId interruptId).2.rows t) :
    ∃ cp' ∈ store.rows t, cp'.checkpointId = cp.checkpointId ∧ cp'.createdAt = cp.createdAt ∧
      cp'.yieldRequest = cp.yieldRequest := by
  rw [MemoryStore.claimInterrupt_store] at h
  split at h
  · rw [MemoryStore.rows_update] at h
    split at h
    · rename_i ht
      subst ht
      rcases List.mem_append.1 h with hold | hlast
      · exact ⟨cp, (List.dropLast_sublist _).subset hold, rfl, rfl, rfl⟩
      · obtain ⟨last, hlast', rfl⟩ := Option.map_eq_some_iff.1 (Option.mem_toList.1 hlast)
        exact ⟨last, List.mem_of_getLast? hlast', rfl, rfl, rfl⟩
    · exact ⟨cp, h, rfl, rfl, rfl⟩
  · exact ⟨cp, h, rfl, rfl, rfl⟩

/-! ### Keeping up -/

/-- A checkpointer answers as an in-memory store that it corresponds to, and goes on corresponding to it; of a save
`ok` is required, and that it is later than all checkpoints and has a new id. -/
structure StandsIn (cp : Checkpointer S C) (M : MemoryStore → C → Prop) (ok : Int → SaveArgs S → Prop) : Prop where
  save {store : MemoryStore} {c : C} {id : String} {now : Int} {args : SaveArgs S} (h : M store c) (hok : ok now args)
    (holder : ∀ t, ∀ cp ∈ store.rows t, cp.createdAt < now) (hfresh : ∀ t, ∀ cp ∈ store.rows t, cp.checkpointId ≠ id) :
    SameEnd SameKind (store.saveState id now args).1 (cp.saveState id now args c).1 ∧
      M (store.saveState id now args).2 (cp.saveState id now args c).2
  load {store : MemoryStore} {c : C} (h : M store c) (query : Nat) (threadId : String) :
    SameLoad (store.loadState threadId) (cp.loadState query threadId c)
  claim {store : MemoryStore} {c : C} (h : M store c) (query : Nat) (threadId interruptId : String) :
    SameEnd SameKind (store.claimInterrupt threadId interruptId).1 (cp.claimInterrupt query threadId interruptId c).1 ∧
      M (store.claimInterrupt threadId interruptId).2 (cp.claimInterrupt query threadId interruptId c).2

/-- If an operation saves, it is one of the first `n` saves and saves what is `ok`. -/
def SavesWell (env : Env S) (ok : Int → SaveArgs S → Prop) (n : Nat) (w : World) (o : Op S) : Prop :=
  ∀ args, o = .saveStateBound args → w.saves < n ∧ ok (env.now w.saves) args

/-- The worlds correspond, and their checkpoints are older than the saves to come, the `n`-th one excluded. -/
structure Shadows (M : MemoryStore → C → Prop) (env : Env S) (n : Nat) (w : World) (w' : Hosted C) : Prop where
  store : M w.store w'.store
  saves : w'.saves = w.saves
  calls : w'.calls = w.calls
  waves : w'.waves = w.waves
  seq : w'.seq = w.seq
  records : w'.records = w.records
  older {t : String} {cp : MemoryCheckpoint} (hcp : cp ∈ w.rows t) :
    ∀ i, w.saves ≤ i → i < n → cp.createdAt < env.now i
  fresh {t : String} {cp : MemoryCheckpoint} (hcp : cp ∈ w.rows t) :
    ∀ i, w.saves ≤ i → i < n → cp.checkpointId ≠ env.newId i

namespace StandsIn

variable {cp : Checkpointer S C} {M : MemoryStore → C → Prop} {ok : Int → SaveArgs S → Prop} {env : Env S} {n : Nat}

/-- A save writes the same checkpoint to both. -/
theorem step_save (hcp : StandsIn cp M ok) (hticks : Ticks env n) {w w₁ : World} {w' : Hosted C}
    (h : Shadows M env n w w') {args : SaveArgs S} (hargs : SavesWell env ok n w (.saveStateBound args))
    {r : Except TakelnError CheckpointSave} (hr : memory env w (.saveStateBound args) = some (r, w₁)) :
    ∃ r' w₁', cp.engines env w' (.saveStateBound args) = some (r', w₁') ∧ SameEnd SameKind r r' ∧
      Shadows M env n w₁ w₁' := by
  obtain ⟨hsaves, hok⟩ := hargs args rfl
  obtain ⟨rfl, rfl⟩ := Prod.mk.inj (Option.some.inj hr)
  obtain ⟨hsame, hstore⟩ := hcp.save h.store hok (fun t cp hcp => h.older hcp _ le_rfl hsaves)
    fun t cp hcp => h.fresh hcp _ le_rfl hsaves
  refine ⟨_, _, rfl, ?_, ?_⟩
  · rw [h.saves]
    exact hsame.map CheckpointSave.created
  · constructor
    · rw [h.saves]
      exact hstore
    · exact congrArg (· + 1) h.saves
    · exact h.calls
    · exact h.waves
    · exact h.seq
    · exact h.records
    · intro t cp hmem i hi hn
      rcases mem_rows_saveState hmem with hold | ⟨v, rfl⟩
      · exact h.older hold i (Nat.le_of_succ_le hi) hn
      · exact hticks.times (Nat.lt_of_succ_le hi) hn
    · intro t cp hmem i hi hn
      rcases mem_rows_saveState hmem with hold | ⟨v, rfl⟩
      · exact h.fresh hold i (Nat.le_of_succ_le hi) hn
      · exact hticks.ids (Nat.lt_of_succ_le hi) hn

/-- Every operation is answered alike in both worlds. -/
theorem step (hcp : StandsIn cp M ok) (hticks : Ticks env n) (w : World) (w' : Hosted C) (o : Op S) (r : o.Answer)
    (w₁ : World) (h : Shadows M env n w w') (ho : SavesWell env ok n w o) (hr : memory env w o = some (r, w₁)) :
    ∃ r' w₁', cp.engines env w' o = some (r', w₁') ∧ Told o r r' ∧ Shadows M env n w₁ w₁' := by
  cases o with
  | currentHead t =>
    obtain ⟨rfl, rfl⟩ := Prod.mk.inj (Option.some.inj hr)
    exact ⟨_, _, rfl, SameEnd.ok _, h⟩
  | saveStateBound args => exact hcp.step_save hticks h ho hr
  | loadState t =>
    obtain ⟨rfl, rfl⟩ := Prod.mk.inj (Option.some.inj hr)
    exact ⟨_, _, rfl, hcp.load h.store _ t,
      ⟨h.store, h.saves, h.calls, h.waves, h.seq, h.records, h.older, h.fresh⟩⟩
  | claimInterrupt t i =>
    obtain ⟨rfl, rfl⟩ := Prod.mk.inj (Option.some.inj hr)
    obtain ⟨hsame, hstore⟩ := hcp.claim h.store w'.queries t i
    refine ⟨_, _, rfl, hsame, ⟨hstore, h.saves, h.calls, h.waves, h.seq, h.records, ?_, ?_⟩⟩
    · intro t' cp hmem i hi hn
      obtain ⟨cp', hcp', -, htime, -⟩ := mem_rows_claimInterrupt hmem
      exact htime ▸ h.older hcp' i hi hn
    · intro t' cp hmem i hi hn
      obtain ⟨cp', hcp', hid, -, -⟩ := mem_rows_claimInterrupt hmem
      exact hid ▸ h.fresh hcp' i hi hn
  | callNode ctx state timeout token =>
    obtain ⟨rfl, rfl⟩ := Prod.mk.inj (Option.some.inj hr)
    refine ⟨_, _, rfl, ?_, ⟨h.store, h.saves, congrArg (· + 1) h.calls, h.waves, h.seq, h.records, h.older, h.fresh⟩⟩
    exact congrArg (fun n => env.answer n ctx state timeout token) h.calls.symm
  | joinWave tasks =>
    obtain ⟨rfl, rfl⟩ := Prod.mk.inj (Option.some.inj hr)
    refine ⟨_, _, rfl, ?_, ⟨h.store, h.saves, h.calls, congrArg (· + 1) h.waves, h.seq, h.records, h.older, h.fresh⟩⟩
    exact congrArg (fun n => (env.order n tasks).1.map fun t => t.joinResult (env.outcome n t)) h.waves.symm
  | nextSeq =>
    obtain ⟨rfl, rfl⟩ := Prod.mk.inj (Option.some.inj hr)
    exact ⟨_, _, rfl, h.seq.symm,
      ⟨h.store, h.saves, h.calls, h.waves, congrArg (· + 1) h.seq, h.records, h.older, h.fresh⟩⟩
  | send event =>
    obtain ⟨rfl, rfl⟩ := Prod.mk.inj (Option.some.inj hr)
    exact ⟨_, _, rfl, rfl, h⟩
  | record max rec =>
    obtain ⟨records, hrecords, heq⟩ := Option.map_eq_some_iff.1 hr
    cases heq
    refine ⟨(), { w' with records := records }, ?_, rfl,
      ⟨h.store, h.saves, h.calls, h.waves, h.seq, rfl, h.older, h.fresh⟩⟩
    change (pushRecord max w'.records rec).map _ = _
    rw [h.records, hrecords]
    rfl

end StandsIn

/-! ### Counting saves -/

/-- A save takes the next number. -/
theorem saves_mono {env : Env S} {w w₁ : World} {o : Op S} {r : o.Answer} (h : memory env w o = some (r, w₁)) :
    w.saves ≤ w₁.saves ∧ ∀ args, o = .saveStateBound args → w.saves < w₁.saves := by
  cases o with
  | saveStateBound args =>
    obtain ⟨-, rfl⟩ := Prod.mk.inj (Option.some.inj h)
    exact ⟨Nat.le_succ _, fun _ _ => Nat.lt_succ_self _⟩
  | record max rec =>
    obtain ⟨records, -, heq⟩ := Option.map_eq_some_iff.1 h
    cases heq
    exact ⟨le_rfl, fun _ h => (nomatch h)⟩
  | _ =>
    obtain ⟨-, rfl⟩ := Prod.mk.inj (Option.some.inj h)
    exact ⟨le_rfl, fun _ h => (nomatch h)⟩

/-- Saves are counted. -/
theorem saves_of_trail {env : Env S} {ι : Type} {w w₁ : World} {tr : List (Entry (ops S) ι World)}
    (h : Trail (memory env).semantics w tr w₁) :
    w.saves ≤ w₁.saves ∧ ∀ e ∈ tr, ∀ args, e.op = .saveStateBound args → e.world.saves < w₁.saves := by
  induction h with
  | nil w => exact ⟨le_rfl, fun e he => absurd he List.not_mem_nil⟩
  | @cons w w' w'' i o r tr hsem _ ih =>
    obtain ⟨hle, hsaves⟩ := ih
    have hmono := saves_mono hsem
    refine ⟨hmono.1.trans hle, fun e he args hargs => ?_⟩
    rcases List.mem_cons.1 he with rfl | he
    · exact lt_of_lt_of_le (hmono.2 args hargs) hle
    · exact hsaves e he args hargs

/-! ### Runs -/

/-- On a checkpointer that stands in, calls can take the turns that they take in memory: they perform the same
operations, those that have ended have returned the same or failed alike, and the stores correspond. -/
theorem StandsIn.interleaving [External] [Merge S] {cp : Checkpointer S C} {M : MemoryStore → C → Prop}
    {ok : Int → SaveArgs S → Prop} (hcp : StandsIn cp M ok) {env : Env S} {ι : Type} [DecidableEq ι]
    {threadId : ι → String} {call : ι → Call S} {tr : List (Entry (ops S) ι World)}
    {P : ι → Prog (ops S) TakelnError (Option S)} {w : World} {c : C} (hempty : M World.empty.store c)
    (hI : Interleaving (memory env).semantics (fun i => (call i).answer (threadId i)) World.empty tr P w)
    (hticks : Ticks env w.saves)
    (hsaves : ∀ e ∈ tr, ∀ args, e.op = .saveStateBound args → ok (env.now e.world.saves) args) :
    ∃ tr' P' w', Interleaving (cp.engines env).semantics (fun i => (call i).answer (threadId i)) { store := c }
        tr' P' w' ∧
      List.Forall₂ (fun e e' => e.who = e'.who ∧ SameEvent Told e.event e'.event) tr tr' ∧
      (∀ i x, (P i).outcome = some x → ∃ x', (P' i).outcome = some x' ∧ SameEnd SameKind x x') ∧
      M w.store w'.store := by
  have hwell : ∀ e ∈ tr, SavesWell env ok w.saves e.world e.op := fun e he args hargs =>
    ⟨(saves_of_trail hI.trail).2 e he args hargs, hsaves e he args hargs⟩
  have hstart : Shadows M env w.saves World.empty { store := c } :=
    ⟨hempty, rfl, rfl, rfl, rfl, rfl, fun h => absurd h List.not_mem_nil, fun h => absurd h List.not_mem_nil⟩
  obtain ⟨tr', P', w', hI', htr, hP, hshadows⟩ := hI.akin (hcp.step hticks) (fun i => (call i).akin (threadId i))
    hstart hwell
  exact ⟨tr', P', w', hI', htr, fun i x hx => (hP i).outcome hx, hshadows.store⟩

/-! ### Two answers to one question -/

section Examples

attribute [local instance] shortRuns

/-- A node that asks `q`. -/
def questioning : Graph Bool where
  nodes := ["A"]
  edges _ := none

/-- It asks until it is told something. -/
def telling : Env Bool where
  newId n := s!"c{n}"
  now n := n
  answer _ ctx state _ _ :=
    .returned (if ctx.resumedInput.isSome then .ok { state := !state } else .error (.yield (.simple "q")))
  outcome _ task := .ok (.ok { state := task.state })
  order _ := inOrder

/-- A run, and two resumes that answer `q`. -/
def contest : Fin 3 → Call Bool
  | 0 => .run questioning false false "A"
  | _ => .resumeWithInput questioning false "q" .null {}

/-- The run asks, then the resumes take turns. -/
def contested : List (Entry (ops Bool) (Fin 3) World) ×
    (Fin 3 → Prog (ops Bool) TakelnError (Option Bool)) × World :=
  (schedule (memory telling) (List.replicate 12 0 ++ (List.replicate 20 [1, 2]).flatten) []
    (fun i => (contest i).answer "t") World.empty).get (by decide +kernel)

theorem contested_interleaving : Interleaving (memory telling).semantics (fun i => (contest i).answer "t")
    World.empty contested.1 contested.2.1 contested.2.2 :=
  Interleaving.start.schedule (Option.some_get _).symm

/-- The turns of the contest. -/
def turns : List (Fin 3) := List.replicate 12 0 ++ (List.replicate 20 [1, 2]).flatten

theorem ticks_contested : Ticks telling contested.2.2.saves := by
  have hsaves : contested.2.2.saves = 2 := by decide +kernel
  rw [hsaves]
  constructor
  · have hids : ∀ j < 2, ∀ i < j, telling.newId i ≠ telling.newId j := by decide
    exact fun {i j} hij hj => hids j hj i hij
  · exact fun hij _ => Int.ofNat_lt.2 hij

/-- A checkpoint without a snapshot, that asks for nothing or for `q`. -/
def asksSimply (args : SaveArgs Bool) : Bool :=
  args.dag.isNone && args.yieldRequest.all fun r => r.schema.isNone && r.payloadRef.isNone &&
    decide (r.interruptId = "q" ∧ r.message = "q" ∧ r.resumeMode = .reEntry)

theorem simple_of_asksSimply {args : SaveArgs Bool} (h : asksSimply args = true) :
    args.dag = none ∧ ∀ r, args.yieldRequest = some r → r = .simple "q" := by
  simp only [asksSimply, Bool.and_eq_true, Option.isNone_iff_eq_none] at h
  obtain ⟨hdag, hrequest⟩ := h
  refine ⟨hdag, ?_⟩
  rintro ⟨interruptId, message, schema, mode, payload⟩ hr
  rw [hr] at hrequest
  simp only [Option.all_some, Bool.and_eq_true, Option.isNone_iff_eq_none, decide_eq_true_eq] at hrequest
  obtain ⟨⟨rfl, rfl⟩, rfl, rfl, rfl⟩ := hrequest
  rfl

/-- A save asks simply, and is one of the first two. -/
def savesSimply (saves : Nat) : Op Bool → Bool
  | .saveStateBound args => asksSimply args && decide (saves < 2)
  | _ => true

/-- What the calls save, and when. -/
theorem saves_contested : ∀ e ∈ contested.1, ∀ args, e.op = .saveStateBound args →
    asksSimply args = true ∧ e.world.saves < 2 := by
  have hall : (contested.1.all fun e => savesSimply e.world.saves e.op) = true := by decide +kernel
  intro e he args hargs
  have hsimple := List.all_eq_true.1 hall e he
  rw [hargs] at hsimple
  simpa [savesSimply] using hsimple

end Examples

end Takeln
