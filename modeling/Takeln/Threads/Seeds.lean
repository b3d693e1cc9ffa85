import Takeln.Model.Dynamic
import Takeln.Threads.Permitted

/-!
# The seeds of execution ids

The text that an execution id is made from is the thread, the node and the last checkpoint with colons between them, and
`initial` stands for no checkpoint.  Thread ids, node names and checkpoint ids may have colons in them, so the same text
can be read in several ways (`executionSeed_injective_iff`).
-/

namespace Takeln

open Effect Effect.Prog

/-! ### Two texts with a colon between them -/

/-- A separator that is joined on can be taken for another one of its kind. -/
theorem append_cons_eq_iff {α : Type} {s : α} {a b a' b' : List α} :
    a ++ s :: b = a' ++ s :: b' ↔ (a = a' ∧ b = b') ∨
      ∃ mid, (a = a' ++ s :: mid ∧ b' = mid ++ s :: b) ∨ (a' = a ++ s :: mid ∧ b = mid ++ s :: b') := by
  constructor
  · intro h
    rcases List.append_eq_append_iff.1 h with ⟨l, ha', hb⟩ | ⟨l, ha, hb'⟩
    · cases l with
      | nil =>
        rw [List.append_nil] at ha'
        exact Or.inl ⟨ha'.symm, (List.cons.inj hb).2⟩
      | cons x mid =>
        obtain ⟨rfl, hrest⟩ := List.cons.inj hb
        exact Or.inr ⟨mid, Or.inr ⟨ha', hrest⟩⟩
    · cases l with
      | nil =>
        rw [List.append_nil] at ha
        exact Or.inl ⟨ha, (List.cons.inj hb').2.symm⟩
      | cons x mid =>
        obtain ⟨rfl, hrest⟩ := List.cons.inj hb'
        exact Or.inr ⟨mid, Or.inl ⟨ha, hrest⟩⟩
  · rintro (⟨rfl, rfl⟩ | ⟨mid, ⟨rfl, rfl⟩ | ⟨rfl, rfl⟩⟩)
    · rfl
    · simp
    · simp

/-- The pairs are different and read the same: a colon in one text is taken for the colon between the two. -/
def Shifted (a b a' b' : String) : Prop :=
  ∃ mid, (a = a' ++ ":" ++ mid ∧ b' = mid ++ ":" ++ b) ∨ (a' = a ++ ":" ++ mid ∧ b = mid ++ ":" ++ b')

private theorem eq_colon_iff {a b c : String} : a = b ++ ":" ++ c ↔ a.toList = b.toList ++ ':' :: c.toList := by
  rw [← String.toList_inj]
  simp

theorem colon_eq_iff {a b a' b' : String} :
    a ++ ":" ++ b = a' ++ ":" ++ b' ↔ (a = a' ∧ b = b') ∨ Shifted a b a' b' := by
  have hlist : a ++ ":" ++ b = a' ++ ":" ++ b' ↔ a.toList ++ ':' :: b.toList = a'.toList ++ ':' :: b'.toList := by
    rw [← String.toList_inj]
    simp
  rw [hlist, append_cons_eq_iff, String.toList_inj, String.toList_inj]
  refine or_congr_right ⟨?_, ?_⟩
  · rintro ⟨mid, h⟩
    refine ⟨String.ofList mid, ?_⟩
    simpa only [eq_colon_iff, String.toList_ofList] using h
  · rintro ⟨mid, h⟩
    refine ⟨mid.toList, ?_⟩
    simpa only [eq_colon_iff] using h

theorem Shifted.ne {a b a' b' : String} (h : Shifted a b a' b') : a ≠ a' := by
  rintro rfl
  obtain ⟨mid, ⟨ha, _⟩ | ⟨ha, _⟩⟩ := h <;>
  · have hlen := congrArg String.length ha
    simp only [String.length_append, show ":".length = 1 from rfl] at hlen
    omega

/-- A colon can only be mistaken where there is one more. -/
theorem not_shifted {a b a' b' : String} (h : ':' ∉ a.toList) (h' : ':' ∉ a'.toList) : ¬ Shifted a b a' b' := by
  rintro ⟨mid, ⟨rfl, _⟩ | ⟨rfl, _⟩⟩
  · exact h (by simp)
  · exact h' (by simp)

/-! ### Seeds -/

/-- The text of a checkpoint in a seed. -/
def checkpointText (lastCheckpointId : Option String) : String := lastCheckpointId.getD "initial"

theorem checkpointText_eq_iff {c c' : Option String} :
    checkpointText c = checkpointText c' ↔
      c = c' ∨ (c = none ∧ c' = some "initial") ∨ c = some "initial" ∧ c' = none := by
  unfold checkpointText
  cases c <;> cases c' <;> simp [eq_comm]

theorem executionSeed_eq_iff {t n t' n' : String} {c c' : Option String} :
    executionSeed t n c = executionSeed t' n' c' ↔
      (t = t' ∧ ((n = n' ∧ checkpointText c = checkpointText c') ∨
        Shifted n (checkpointText c) n' (checkpointText c'))) ∨
        Shifted t (n ++ ":" ++ checkpointText c) t' (n' ++ ":" ++ checkpointText c') := by
  have hseed (t n : String) (c : Option String) :
      executionSeed t n c = t ++ ":" ++ (n ++ ":" ++ checkpointText c) := by
    rw [← String.append_assoc, ← String.append_assoc]
    rfl
  rw [hseed, hseed, colon_eq_iff, colon_eq_iff]

/-! ### Contexts -/

namespace NodeContext

def seed (ctx : NodeContext) : String := executionSeed ctx.threadId ctx.nodeName ctx.lastCheckpointId

/-- The seeds of two contexts are read in two ways: as no checkpoint or one called `initial`, or with a colon of one
text taken for one between the texts. -/
def Collides (ctx ctx' : NodeContext) : Prop :=
  (ctx.threadId = ctx'.threadId ∧ ctx.nodeName = ctx'.nodeName ∧
      ((ctx.lastCheckpointId = none ∧ ctx'.lastCheckpointId = some "initial") ∨
        ctx.lastCheckpointId = some "initial" ∧ ctx'.lastCheckpointId = none)) ∨
    (ctx.threadId = ctx'.threadId ∧ Shifted ctx.nodeName (checkpointText ctx.lastCheckpointId) ctx'.nodeName
      (checkpointText ctx'.lastCheckpointId)) ∨
    Shifted ctx.threadId (ctx.nodeName ++ ":" ++ checkpointText ctx.lastCheckpointId) ctx'.threadId
      (ctx'.nodeName ++ ":" ++ checkpointText ctx'.lastCheckpointId)

/-- The seeds tell the threads, nodes and checkpoints of two contexts apart, and the ids the threads and nodes. -/
structure ToldApart (ctx ctx' : NodeContext) : Prop where
  of_seed : ctx.seed = ctx'.seed → ctx.threadId = ctx'.threadId ∧ ctx.nodeName = ctx'.nodeName ∧
    ctx.lastCheckpointId = ctx'.lastCheckpointId
  of_executionId : ctx.executionId = ctx'.executionId → ctx.threadId = ctx'.threadId ∧ ctx.nodeName = ctx'.nodeName

/-- Different contexts with one seed are those that collide. -/
theorem seed_eq_iff {ctx ctx' : NodeContext} :
    ctx.seed = ctx'.seed ↔
      (ctx.threadId = ctx'.threadId ∧ ctx.nodeName = ctx'.nodeName ∧ ctx.lastCheckpointId = ctx'.lastCheckpointId) ∨
        ctx.Collides ctx' := by
  unfold seed Collides
  rw [executionSeed_eq_iff, checkpointText_eq_iff]
  tauto

theorem Collides.not_same {ctx ctx' : NodeContext} (h : ctx.Collides ctx') :
    ¬ (ctx.threadId = ctx'.threadId ∧ ctx.nodeName = ctx'.nodeName ∧
      ctx.lastCheckpointId = ctx'.lastCheckpointId) := by
  rintro ⟨hthread, hnode, hcheckpoint⟩
  rcases h with ⟨_, _, ⟨hnone, hsome⟩ | ⟨hsome, hnone⟩⟩ | ⟨_, hshift⟩ | hshift
  · rw [hcheckpoint, hsome] at hnone
    cases hnone
  · rw [hcheckpoint, hnone] at hsome
    cases hsome
  · exact hshift.ne hnode
  · exact hshift.ne hthread

/-- Thread ids and node names without colons, and checkpoint ids other than `initial`, do not collide. -/
theorem not_collides {ctx ctx' : NodeContext} (hthread : ':' ∉ ctx.threadId.toList)
    (hthread' : ':' ∉ ctx'.threadId.toList) (hnode : ':' ∉ ctx.nodeName.toList) (hnode' : ':' ∉ ctx'.nodeName.toList)
    (hcheckpoint : ctx.lastCheckpointId ≠ some "initial") (hcheckpoint' : ctx'.lastCheckpointId ≠ some "initial") :
    ¬ ctx.Collides ctx' := by
  rintro (⟨_, _, ⟨_, hinitial⟩ | ⟨hinitial, _⟩⟩ | ⟨_, hshift⟩ | hshift)
  · exact hcheckpoint' hinitial
  · exact hcheckpoint hinitial
  · exact not_shifted hnode hnode' hshift
  · exact not_shifted hthread hthread' hshift

variable [External]

/-- A context as `NodeContext::new` makes it. -/
def Built (ctx : NodeContext) : Prop := ctx.executionId = External.newV5 ctx.seed

theorem built_child (ctx : NodeContext) (childName : String) : (ctx.child childName).Built := rfl

end NodeContext

section

variable [External] {S : Type}

/-- The contexts an operation hands out are made by `NodeContext::new`. -/
def Op.Built : Op S → Prop
  | .callNode ctx _ _ _ => ctx.Built
  | .joinWave tasks => ∀ t ∈ tasks, ∀ attempt, (t.context attempt).Built
  | _ => True

theorem permitted_built (g : Graph S) (threadId : String) : Permitted Op.Built g threadId where
  node _ _ _ _ _ _ _ _ _ := rfl
  wave _ _ _ _ _ := rfl
  record _ := trivial
  head := trivial
  save _ := trivial
  load := trivial
  claim _ := trivial
  seq := trivial
  send _ := trivial

/-- Calls on any threads, interleaved in any order, hand out contexts that are made by `NodeContext::new`. -/
theorem built_of_interleaving [State S] [Merge S] {W ι : Type} [DecidableEq ι] {sem : Semantics (ops S) W}
    {threadOf : ι → String} {callOf : ι → Call S} {w w' : W} {tr : List (Entry (ops S) ι W)}
    {P : ι → Prog (ops S) TakelnError Unit}
    (hI : Interleaving sem (fun i => (callOf i).prog (threadOf i)) w tr P w') {e : Entry (ops S) ι W} (he : e ∈ tr) :
    e.op.Built := by
  obtain ⟨before, after, htr⟩ := List.append_of_mem he
  exact hI.allow_at htr (permitted_built _ _).call

/-- A child runs in a context that is made by `NodeContext::new`, and does not yield. -/
theorem ChildRunner.runChild_follows (runner : ChildRunner) (childName : String) (ctx : NodeContext) (state : S) :
    Follows (permitting Op.Built) (runner.runChild childName ctx state) () fun _ x =>
      ∀ request, x ≠ .error (.yield request) := by
  unfold runChild
  split
  · refine ⟨ctx.built_child childName, fun answer => ?_⟩
    dsimp only
    cases CallAnswer.result childName answer with
    | ok output =>
      intro request h
      cases h
    | error e =>
      cases e <;>
      · intro request h
        cases h
  · intro request h
    cases h

theorem NodeContext.Built.toldApart_iff {ctx ctx' : NodeContext} (hctx : ctx.Built) (hctx' : ctx'.Built)
    (hinj : External.newV5 ctx.seed = External.newV5 ctx'.seed → ctx.seed = ctx'.seed) :
    ctx.ToldApart ctx' ↔ ¬ ctx.Collides ctx' := by
  constructor
  · intro happart hcollides
    exact hcollides.not_same (happart.of_seed (NodeContext.seed_eq_iff.2 (Or.inr hcollides)))
  · intro hfree
    have hsame (hseed : ctx.seed = ctx'.seed) := (NodeContext.seed_eq_iff.1 hseed).resolve_right hfree
    refine ⟨hsame, fun hid => ?_⟩
    rw [hctx, hctx'] at hid
    obtain ⟨hthread, hnode, _⟩ := hsame (hinj hid)
    exact ⟨hthread, hnode⟩

/-- Contexts for different threads, nodes or checkpoints have different seeds, and contexts for different threads or
nodes have different ids, exactly if they do not collide.  All contexts that calls hand out to nodes, and those in which
children run, are made so. -/
theorem executionSeed_injective_iff [State S] [Merge S] {ctx ctx' : NodeContext} (hctx : ctx.Built)
    (hctx' : ctx'.Built) (hinj : External.newV5 ctx.seed = External.newV5 ctx'.seed → ctx.seed = ctx'.seed) :
    (ctx.ToldApart ctx' ↔ ¬ ctx.Collides ctx') ∧
    (∀ {W ι : Type} [DecidableEq ι] {sem : Semantics (ops S) W} {threadOf : ι → String} {callOf : ι → Call S}
      {w w' : W} {tr : List (Entry (ops S) ι W)} {P : ι → Prog (ops S) TakelnError Unit},
      Interleaving sem (fun i => (callOf i).prog (threadOf i)) w tr P w' → ∀ e ∈ tr, e.op.Built) ∧
    ∀ (runner : ChildRunner) (childName : String) (ctx : NodeContext) (state : S),
      Follows (permitting Op.Built) (runner.runChild childName ctx state) () fun _ x =>
        ∀ request, x ≠ .error (.yield request) :=
  ⟨hctx.toldApart_iff hctx' hinj, fun hI _ he => built_of_interleaving hI he, ChildRunner.runChild_follows⟩

end

section Examples

attribute [local instance] shortRuns

/-- The first executions of `c` on the thread `a:b` and of `b:c` on the thread `a` share their seed. -/
theorem executionSeed_injective_false : ¬ ∀ ctx ctx' : NodeContext, ctx.Built → ctx'.Built → ctx.ToldApart ctx' := by
  intro h
  have happart := h (.new "a:b" "c" 0 none none false none) (.new "a" "b:c" 0 none none false none) rfl rfl
  exact absurd (happart.of_seed (by decide +kernel)).2.1 (by decide)

/-- The node `A` after the checkpoint `c0`. -/
def afterC0 : NodeContext := .new "t" "A" 0 (some "c0") none false none

/-- The first node `A` of a call. -/
def firstOfCall : NodeContext := .new "t" "A" 0 none none false none

theorem executionSeed_injective_child :
    (afterC0.child "B").ToldApart firstOfCall ∧ ¬ (afterC0.child "B").Collides firstOfCall := by
  have hfree : ¬ (afterC0.child "B").Collides firstOfCall :=
    NodeContext.not_collides (by decide) (by decide) (by decide) (by decide) (by decide) (by decide)
  have hbuilt : firstOfCall.Built := rfl
  exact ⟨(executionSeed_injective_iff (S := Bool) (afterC0.built_child "B") hbuilt fun h =>
    absurd h (by decide +kernel)).1.2 hfree, hfree⟩

end Examples

end Takeln
