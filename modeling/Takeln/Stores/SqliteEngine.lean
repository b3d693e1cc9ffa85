import Takeln.Stores.Checkpointers
import Takeln.Stores.Claiming

/-!
# The engines on SQLite

The engines on a `SqliteCheckpointer` do what they do on an `InMemoryCheckpointer`, whatever calls on whatever threads
are in flight and however they take turns, as long as the clock readings of the saves increase and the requests that
are saved read back as they were (`runs_as_memory`).
-/

namespace Takeln.Sqlite

open Effect Effect.Prog
open Rfc3339 (InYears)

/-- How SQLite settles ties of its queries, and the clock readings of its reads. -/
structure Settling where
  select : Nat → Order
  update : Nat → Order
  now : Nat → Int

section Engines

variable {S : Type} [State S] [JsonText S] [JsonText DAG] [JsonText YieldRequest]

/-- A SQLite checkpointer. -/
def checkpointer [Chrono] (settling : Settling) : Checkpointer S Table where
  saveState id now args T := T.saveState id now args
  loadState query threadId T := T.loadState (settling.select query) (settling.now query) threadId
  claimInterrupt query threadId interruptId T :=
    T.claimInterrupt (settling.select query) (settling.update query) threadId interruptId

/-- What a save writes is written and read back by `serde`, its request included, in a year that is printed alike. -/
def WritesCleanly (now : Int) (args : SaveArgs S) : Prop :=
  InYears now ∧ args.Serde ∧ ∀ r, args.yieldRequest = some r → r.Survives

/-- The table holds the checkpoints of the store, and all their requests survive. -/
structure Holds [Chrono] (store : MemoryStore) (T : Table) : Prop where
  mirrors : Mirrors S store T
  survive {t : String} {cp : MemoryCheckpoint} (hcp : cp ∈ store.rows t) : cp.Survives

/-- SQLite keeps up with an in-memory store. -/
theorem standsIn [Chrono] [Chrono.Documented] (settling : Settling) :
    StandsIn (checkpointer (S := S) settling) (Holds (S := S)) WritesCleanly where
  save {store T id now args} h hok holder hfresh := by
    obtain ⟨hyears, hargs, hrequest⟩ := hok
    obtain ⟨hsame, hmirrors⟩ := h.mirrors.saveState id hargs hyears holder hfresh
    refine ⟨sameEnd_of_sameReply (fun _ _ => Reply.saved.inj) hsame, hmirrors, fun hcp => ?_⟩
    rcases mem_rows_saveState hcp with hold | ⟨v, rfl⟩
    · exact h.survive hold
    · exact hrequest
  load {store T} h query threadId := by
    have hsame := (h.mirrors.loadState_iff (settling.select query) (settling.now query) threadId).2 fun cp hcp =>
      h.survive (t := threadId) (List.mem_of_getLast? hcp)
    have hend := sameEnd_of_sameReply (fun _ _ => Reply.loaded.inj) hsame
    change SameLoad _ (T.loadState (S := S) (settling.select query) (settling.now query) threadId)
    generalize (store.loadState (S := S) threadId) = x at hend
    generalize (T.loadState (S := S) (settling.select query) (settling.now query) threadId) = x' at hend
    cases hend with
    | ok found =>
      cases found with
      | none => exact .ok .none
      | some l => exact .ok (.some l l.info.createdAt)
    | error he => exact .error he
  claim {store T} h query threadId interruptId := by
    obtain ⟨hsame, hmirrors⟩ := h.mirrors.claimInterrupt (settling.select query) (settling.update query) threadId
      interruptId
    have hreadable : ClaimReadable (store.rows threadId) interruptId := by
      intro _ cp hcp _ r hr
      obtain ⟨s, hs, hread⟩ := h.survive (t := threadId) (List.mem_of_getLast? hcp) r hr
      exact ⟨s, r, hs, hread, Iff.rfl⟩
    refine ⟨sameEnd_of_sameReply (fun _ _ => Reply.claimed.inj) (hsame.2 hreadable), hmirrors hreadable, ?_⟩
    intro t cp hcp r hr
    obtain ⟨cp', hcp', -, -, hrequest⟩ := mem_rows_claimInterrupt hcp
    exact h.survive hcp' r (hrequest.trans hr)

/-- What any number of calls on any threads do on an in-memory checkpointer, in any interleaving and however many of
them are stopped on the way, they can do on a SQLite checkpointer by taking the same turns: the operations are the same,
the calls that have ended have returned the same or failed alike, and the table holds the same checkpoints. -/
theorem runs_as_memory [External] [Merge S] [Chrono] [Chrono.Documented] {env : Env S} (settling : Settling)
    {ι : Type} [DecidableEq ι] {threadId : ι → String} {call : ι → Call S}
    {tr : List (Entry (ops S) ι World)} {P : ι → Prog (ops S) TakelnError (Option S)} {w : World}
    (hI : Interleaving (memory env).semantics (fun i => (call i).answer (threadId i)) World.empty tr P w)
    (hticks : Ticks env w.saves)
    (hsaves : ∀ e ∈ tr, ∀ args, e.op = .saveStateBound args → WritesCleanly (env.now e.world.saves) args) :
    ∃ tr' P' w', Interleaving ((checkpointer settling).engines env).semantics
        (fun i => (call i).answer (threadId i)) { store := Table.empty } tr' P' w' ∧
      List.Forall₂ (fun e e' => e.who = e'.who ∧ SameEvent Told e.event e'.event) tr tr' ∧
      (∀ i x, (P i).outcome = some x → ∃ x', (P' i).outcome = some x' ∧ SameEnd SameKind x x') ∧
      Mirrors S w.store w'.store := by
  have hempty : Holds (S := S) World.empty.store Table.empty := ⟨.empty, fun h => absurd h List.not_mem_nil⟩
  obtain ⟨tr', P', w', hI', htr, hP, hstore⟩ := (standsIn settling).interleaving hempty hI hticks hsaves
  exact ⟨tr', P', w', hI', htr, hP, hstore.mirrors⟩

end Engines

/-! ### Two answers to one question -/

section Examples

attribute [local instance] shortRuns utcTimes noDags askRequests

theorem serde_of_asksSimply {args : SaveArgs Bool} (h : asksSimply args = true) : args.Serde where
  value h := by cases h; rfl
  text h := by
    cases h
    cases args.state <;> rfl
  fails := iff_of_false (fun ⟨e, he⟩ => (nomatch he)) fun ⟨e, he⟩ => (nomatch he)
  dag hd := by
    rw [(simple_of_asksSimply h).1] at hd
    cases hd
  request hr := by
    rw [(simple_of_asksSimply h).2 _ hr]
    exact ⟨_, rfl⟩

theorem runs_as_memory_contested :
    (List.ofFn fun i => (contested.2.1 i).outcome.map Except.toOption) = [some (some (some false)),
      some (some (some true)), some none] ∧
    ∃ tr' P' w', Interleaving ((checkpointer ⟨fun _ => .stable _, fun _ => .stable _, fun n => n⟩).engines
        telling).semantics (fun i => (contest i).answer "t") { store := Table.empty } tr' P' w' ∧
      List.Forall₂ (fun e e' => e.who = e'.who ∧ SameEvent Told e.event e'.event) contested.1 tr' ∧
      (∀ i x, (contested.2.1 i).outcome = some x → ∃ x', (P' i).outcome = some x' ∧ SameEnd SameKind x x') ∧
      Mirrors Bool contested.2.2.store w'.store := by
  have hdocumented := utcTimes_documented
  have hyears : ∀ n < 2, InYears (telling.now n) := by decide
  refine ⟨by decide +kernel, runs_as_memory _ contested_interleaving ticks_contested fun e he args hargs => ?_⟩
  obtain ⟨hsimple, hsaves⟩ := saves_contested e he args hargs
  refine ⟨hyears _ hsaves, serde_of_asksSimply hsimple, fun r hr => ?_⟩
  rw [(simple_of_asksSimply hsimple).2 r hr]
  exact ⟨_, rfl, rfl⟩

end Examples

end Takeln.Sqlite
