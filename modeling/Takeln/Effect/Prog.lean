import Mathlib.Init

/-!
# Effectful programs

A program over a signature of operations is a tree: it returns a value, fails with an error, or performs an
operation and goes on with the answer.  `exec` runs a program to its end under a handler and lists the operations
performed; `Reaches` is the part of such a run up to some point (a process that is stopped there never performs
the rest).  Both are compatible with `bind`, and a stopped run is a prefix of the full one.
-/

namespace Effect

/-- Operations, and the answers each of them may get. -/
structure Signature where
  Op : Type
  Ans : Op → Type

/-- A program that fails with an `E` or returns an `α`. -/
inductive Prog (F : Signature) (E α : Type) : Type
  | ret (a : α)
  | fail (e : E)
  | perform (o : F.Op) (k : F.Ans o → Prog F E α)

/-- An operation performed, with its answer. -/
structure Event (F : Signature) where
  op : F.Op
  ans : F.Ans op

/-- How the world answers operations; `none` if it never answers. -/
abbrev Handler (F : Signature) (W : Type) := W → (o : F.Op) → Option (F.Ans o × W)

/-- What a finished run leaves: its result, the world and the operations performed. -/
structure Run (F : Signature) (E α W : Type) where
  result : Except E α
  world : W
  trace : List (Event F)

/-- The run `u`, after the operations `tr`. -/
def Run.after {F : Signature} {E α W : Type} (tr : List (Event F)) (u : Run F E α W) : Run F E α W :=
  { u with trace := tr ++ u.trace }

@[simp] theorem Run.after_nil {F : Signature} {E α W : Type} (u : Run F E α W) : u.after [] = u := rfl

@[simp] theorem Run.after_after {F : Signature} {E α W : Type} (t₁ t₂ : List (Event F)) (u : Run F E α W) :
    (u.after t₂).after t₁ = u.after (t₁ ++ t₂) := by
  simp [Run.after]

namespace Prog

variable {F : Signature} {E E' α β W : Type}

def bind (p : Prog F E α) (f : α → Prog F E β) : Prog F E β :=
  match p with
  | ret a => f a
  | fail e => fail e
  | perform o k => perform o fun r => (k r).bind f

instance : Monad (Prog F E) where
  pure := ret
  bind := bind

/-- Perform one operation and return its answer. -/
def op (o : F.Op) : Prog F E (F.Ans o) := perform o ret

def ofExcept : Except E α → Prog F E α
  | .ok a => ret a
  | .error e => fail e

/-- Run `p` and return its failure instead of failing. -/
def attempt : Prog F E α → Prog F E' (Except E α)
  | ret a => ret (.ok a)
  | fail e => ret (.error e)
  | perform o k => perform o fun r => (k r).attempt

def mapError (g : E → E') : Prog F E α → Prog F E' α
  | ret a => ret a
  | fail e => fail (g e)
  | perform o k => perform o fun r => (k r).mapError g

@[simp] theorem pure_eq (a : α) : (pure a : Prog F E α) = ret a := rfl

@[simp] theorem bind_eq (p : Prog F E α) (f : α → Prog F E β) : p >>= f = p.bind f := rfl

@[simp] theorem ret_bind (a : α) (f : α → Prog F E β) : (ret a).bind f = f a := rfl

@[simp] theorem fail_bind (e : E) (f : α → Prog F E β) : (fail e).bind f = fail e := rfl

@[simp] theorem perform_bind (o : F.Op) (k : F.Ans o → Prog F E α) (f : α → Prog F E β) :
    (perform o k).bind f = perform o fun r => (k r).bind f := rfl

theorem bind_assoc {γ : Type} (p : Prog F E α) (f : α → Prog F E β) (g : β → Prog F E γ) :
    (p.bind f).bind g = p.bind fun a => (f a).bind g := by
  induction p with
  | ret a => rfl
  | fail e => rfl
  | perform o k ih => simp only [perform_bind, ih]

@[simp] theorem ofExcept_ok (a : α) : (ofExcept (.ok a) : Prog F E α) = ret a := rfl

@[simp] theorem ofExcept_error (e : E) : (ofExcept (.error e) : Prog F E α) = fail e := rfl

/-! ### Running to the end -/

/-- The run of a program under a handler, if it ends. -/
def exec (h : Handler F W) : Prog F E α → W → Option (Run F E α W)
  | ret a, w => some ⟨.ok a, w, []⟩
  | fail e, w => some ⟨.error e, w, []⟩
  | perform o k, w =>
    match h w o with
    | none => none
    | some (r, w') => (exec h (k r) w').map (Run.after [⟨o, r⟩])

variable {h : Handler F W} {w w' : W} {tr : List (Event F)}

@[simp] theorem exec_ret (a : α) : exec h (ret a : Prog F E α) w = some ⟨.ok a, w, []⟩ := rfl

@[simp] theorem exec_fail (e : E) : exec h (fail e : Prog F E α) w = some ⟨.error e, w, []⟩ := rfl

theorem exec_perform {o : F.Op} {r : F.Ans o} (hr : h w o = some (r, w')) (k : F.Ans o → Prog F E α) :
    exec h (perform o k) w = (exec h (k r) w').map (Run.after [⟨o, r⟩]) := by
  simp only [exec, hr]

theorem exec_perform_eq_some {o : F.Op} {k : F.Ans o → Prog F E α} {u : Run F E α W} :
    exec h (perform o k) w = some u ↔
      ∃ r w' v, h w o = some (r, w') ∧ exec h (k r) w' = some v ∧ u = v.after [⟨o, r⟩] := by
  constructor
  · intro he
    simp only [exec] at he
    split at he
    · cases he
    · rename_i r w' hr
      obtain ⟨v, hv, rfl⟩ := Option.map_eq_some_iff.1 he
      exact ⟨r, w', v, hr, hv, rfl⟩
  · rintro ⟨r, w', v, hr, hv, rfl⟩
    rw [exec_perform hr, hv]
    rfl

theorem exec_bind_ok {p : Prog F E α} {a : α} (hp : exec h p w = some ⟨.ok a, w', tr⟩) (f : α → Prog F E β) :
    exec h (p.bind f) w = (exec h (f a) w').map (Run.after tr) := by
  induction p generalizing w tr with
  | ret b =>
    cases hp
    cases hf : exec h (f a) w' <;> simp [hf]
  | fail e => cases hp
  | perform o k ih =>
    obtain ⟨r, w'', ⟨x, w₁, t⟩, hr, hv, hu⟩ := exec_perform_eq_some.1 hp
    obtain ⟨rfl, rfl, rfl⟩ := Run.mk.inj hu
    rw [perform_bind, exec_perform hr, ih r hv, Option.map_map]
    congr 1

theorem exec_bind_error {p : Prog F E α} {e : E} (hp : exec h p w = some ⟨.error e, w', tr⟩)
    (f : α → Prog F E β) : exec h (p.bind f) w = some ⟨.error e, w', tr⟩ := by
  induction p generalizing w tr with
  | ret b => cases hp
  | fail e => cases hp; rfl
  | perform o k ih =>
    obtain ⟨r, w'', ⟨x, w₁, t⟩, hr, hv, hu⟩ := exec_perform_eq_some.1 hp
    obtain ⟨rfl, rfl, rfl⟩ := Run.mk.inj hu
    rw [perform_bind, exec_perform hr, ih r hv]
    rfl

theorem exec_bind_none {p : Prog F E α} (hp : exec h p w = none) (f : α → Prog F E β) :
    exec h (p.bind f) w = none := by
  induction p generalizing w with
  | ret b => cases hp
  | fail e => cases hp
  | perform o k ih =>
    simp only [perform_bind, exec] at hp ⊢
    split
    · rfl
    · rename_i r w' hr
      rw [hr, Option.map_eq_none_iff] at hp
      rw [ih r hp]
      rfl

/-- A run of `p.bind f` is a failed run of `p`, or a run of `p` that returns followed by a run of `f`. -/
theorem exec_bind_eq_some {p : Prog F E α} {f : α → Prog F E β} {u : Run F E β W}
    (hu : exec h (p.bind f) w = some u) :
    (∃ e w' tr, exec h p w = some ⟨.error e, w', tr⟩ ∧ u = ⟨.error e, w', tr⟩) ∨
      ∃ a w' tr v, exec h p w = some ⟨.ok a, w', tr⟩ ∧ exec h (f a) w' = some v ∧ u = v.after tr := by
  cases hp : exec h p w with
  | none => rw [exec_bind_none hp] at hu; cases hu
  | some v =>
    obtain ⟨x, w', tr⟩ := v
    cases x with
    | error e =>
      rw [exec_bind_error hp] at hu
      cases hu
      exact Or.inl ⟨e, w', tr, rfl, rfl⟩
    | ok a =>
      rw [exec_bind_ok hp] at hu
      obtain ⟨v, hv, rfl⟩ := Option.map_eq_some_iff.1 hu
      exact Or.inr ⟨a, w', tr, v, rfl, hv, rfl⟩

theorem exec_attempt (p : Prog F E α) :
    exec h (p.attempt : Prog F E' (Except E α)) w =
      (exec h p w).map fun u => ⟨.ok u.result, u.world, u.trace⟩ := by
  induction p generalizing w with
  | ret a => rfl
  | fail e => rfl
  | perform o k ih =>
    simp only [attempt, exec]
    split
    · rfl
    · rw [ih]
      simp only [Option.map_map]
      rfl

theorem exec_attempt_bind {p : Prog F E α} {u : Run F E α W} (hp : exec h p w = some u)
    (f : Except E α → Prog F E' β) :
    exec h (p.attempt.bind f) w = (exec h (f u.result) u.world).map (Run.after u.trace) :=
  exec_bind_ok (by rw [exec_attempt, hp]; rfl) f

theorem exec_attempt_bind_eq_some {p : Prog F E α} {f : Except E α → Prog F E' β} {u : Run F E' β W}
    (hu : exec h (p.attempt.bind f) w = some u) :
    ∃ v x, exec h p w = some v ∧ exec h (f v.result) v.world = some x ∧ u = x.after v.trace := by
  rcases exec_bind_eq_some hu with ⟨e, w', tr, hp, _⟩ | ⟨x, w', tr, x', hp, hx, rfl⟩
  · rw [exec_attempt] at hp
    obtain ⟨v, _, heq⟩ := Option.map_eq_some_iff.1 hp
    cases heq
  · rw [exec_attempt] at hp
    obtain ⟨v, hv, heq⟩ := Option.map_eq_some_iff.1 hp
    cases heq
    exact ⟨v, x', hv, hx, rfl⟩

theorem exec_mapError (g : E → E') (p : Prog F E α) :
    exec h (p.mapError g) w = (exec h p w).map fun u => ⟨u.result.mapError g, u.world, u.trace⟩ := by
  induction p generalizing w with
  | ret a => rfl
  | fail e => rfl
  | perform o k ih =>
    simp only [mapError, exec]
    split
    · rfl
    · rw [ih]
      simp only [Option.map_map]
      rfl

theorem exec_bind_ret (f : α → β) (p : Prog F E α) :
    exec h (p.bind fun a => ret (f a)) w = (exec h p w).map fun u => ⟨u.result.map f, u.world, u.trace⟩ := by
  induction p generalizing w with
  | ret a => rfl
  | fail e => rfl
  | perform o k ih =>
    simp only [perform_bind, exec]
    split
    · rfl
    · rw [ih]
      simp only [Option.map_map]
      rfl

/-! ### Running up to some point -/

/-- Under `h` the program `p` performs `tr` and is then at `p'`. -/
inductive Reaches (h : Handler F W) : Prog F E α → W → List (Event F) → Prog F E α → W → Prop
  | here (p : Prog F E α) (w : W) : Reaches h p w [] p w
  | step {o : F.Op} {r : F.Ans o} {k : F.Ans o → Prog F E α} {w w' w'' : W} {tr : List (Event F)}
      {p' : Prog F E α} (hr : h w o = some (r, w')) (hrest : Reaches h (k r) w' tr p' w'') :
      Reaches h (perform o k) w (⟨o, r⟩ :: tr) p' w''

/-- A run stopped early is a prefix of the whole run. -/
theorem Reaches.prefix_exec {p p' : Prog F E α} {u : Run F E α W} (hr : Reaches h p w tr p' w')
    (hu : exec h p w = some u) : ∃ v, exec h p' w' = some v ∧ u = v.after tr := by
  induction hr generalizing u with
  | here p w => exact ⟨u, hu, rfl⟩
  | step hr _ ih =>
    rw [exec_perform hr] at hu
    obtain ⟨v, hv, rfl⟩ := Option.map_eq_some_iff.1 hu
    obtain ⟨v', hv', rfl⟩ := ih hv
    exact ⟨v', hv', rfl⟩

/-- The whole run is the part reached, then the run of the rest. -/
theorem Reaches.exec_eq {p p' : Prog F E α} (hr : Reaches h p w tr p' w') :
    exec h p w = (exec h p' w').map (Run.after tr) := by
  induction hr with
  | here p w => cases hp : exec h p w <;> simp
  | step hr _ ih =>
    rw [exec_perform hr, ih, Option.map_map]
    congr 1

theorem Reaches.bind {p p' : Prog F E α} (hr : Reaches h p w tr p' w') (f : α → Prog F E β) :
    Reaches h (p.bind f) w tr (p'.bind f) w' := by
  induction hr with
  | here p w => exact .here _ _
  | step hr _ ih => exact .step hr ih

theorem Reaches.nil {p p' : Prog F E α} (hr : Reaches h p w [] p' w') : p' = p ∧ w' = w := by
  cases hr
  exact ⟨rfl, rfl⟩

theorem Reaches.trans {p p' p'' : Prog F E α} {w'' : W} {tr' : List (Event F)} (hr : Reaches h p w tr p' w')
    (hr' : Reaches h p' w' tr' p'' w'') : Reaches h p w (tr ++ tr') p'' w'' := by
  induction hr with
  | here p w => exact hr'
  | step hr _ ih => exact .step hr (ih hr')

/-- Of two stopped runs from one point, one goes on from where the other stopped. -/
theorem Reaches.total {p p₁ p₂ : Prog F E α} {w₁ w₂ : W} {t₁ t₂ : List (Event F)} (h₁ : Reaches h p w t₁ p₁ w₁)
    (h₂ : Reaches h p w t₂ p₂ w₂) :
    (∃ t, t₁ = t₂ ++ t ∧ Reaches h p₂ w₂ t p₁ w₁) ∨ ∃ t, t₂ = t₁ ++ t ∧ Reaches h p₁ w₁ t p₂ w₂ := by
  induction h₁ generalizing t₂ with
  | here p w => exact Or.inr ⟨t₂, rfl, h₂⟩
  | step hr hrest ih =>
    cases h₂ with
    | here => exact Or.inl ⟨_, rfl, .step hr hrest⟩
    | step hr' hrest' =>
      rw [hr] at hr'
      cases hr'
      rcases ih hrest' with ⟨t, rfl, ht⟩ | ⟨t, rfl, ht⟩
      · exact Or.inl ⟨t, rfl, ht⟩
      · exact Or.inr ⟨t, rfl, ht⟩

theorem Reaches.split {p p' : Prog F E α} {tr' : List (Event F)} (hr : Reaches h p w (tr ++ tr') p' w') :
    ∃ p₁ w₁, Reaches h p w tr p₁ w₁ ∧ Reaches h p₁ w₁ tr' p' w' := by
  induction tr generalizing p w with
  | nil => exact ⟨p, w, .here p w, hr⟩
  | cons e tr ih =>
    cases hr with
    | step hr hrest =>
      obtain ⟨p₁, w₁, hfirst, hlater⟩ := ih hrest
      exact ⟨p₁, w₁, .step hr hfirst, hlater⟩

/-- After a run of `p` that returns, `p.bind f` goes on as `f`. -/
theorem Reaches.of_exec_bind {p : Prog F E α} {a : α} {w'' : W} {tr' : List (Event F)} {q : Prog F E β}
    {f : α → Prog F E β} (hp : exec h p w = some ⟨.ok a, w', tr⟩) (hf : Reaches h (f a) w' tr' q w'') :
    Reaches h (p.bind f) w (tr ++ tr') q w'' := by
  induction p generalizing w tr with
  | ret b => cases hp; exact hf
  | fail e => cases hp
  | perform o k ih =>
    obtain ⟨r, w₁, ⟨x, w₂, t⟩, hr, hv, hu⟩ := exec_perform_eq_some.1 hp
    obtain ⟨rfl, rfl, rfl⟩ := Run.mk.inj hu
    exact .step hr (ih r hv)

theorem Reaches.attempt {p p' : Prog F E α} (hr : Reaches h p w tr p' w') :
    Reaches h (p.attempt : Prog F E' (Except E α)) w tr p'.attempt w' := by
  induction hr with
  | here p w => exact .here _ _
  | step hr _ ih => exact .step hr ih

/-- A stopped run of `p.bind f` is a stopped run of `p`, or a run of `p` that returns and a stopped run of `f`. -/
theorem Reaches.bind_cases {p : Prog F E α} {f : α → Prog F E β} {q : Prog F E β}
    (hr : Reaches h (p.bind f) w tr q w') : (∃ p', Reaches h p w tr p' w') ∨
      ∃ a w₁ t₁ t₂, exec h p w = some ⟨.ok a, w₁, t₁⟩ ∧ Reaches h (f a) w₁ t₂ q w' ∧ tr = t₁ ++ t₂ := by
  induction p generalizing w tr with
  | ret a => exact Or.inr ⟨a, w, [], tr, rfl, hr, rfl⟩
  | fail e => cases hr; exact Or.inl ⟨_, .here _ _⟩
  | perform o k ih =>
    cases hr with
    | here => exact Or.inl ⟨_, .here _ _⟩
    | step hr hrest =>
      rcases ih _ hrest with ⟨p', hp⟩ | ⟨a, w₁, t₁, t₂, hp, hf, rfl⟩
      · exact Or.inl ⟨p', .step hr hp⟩
      · refine Or.inr ⟨a, w₁, _ :: t₁, t₂, ?_, hf, rfl⟩
        rw [exec_perform hr, hp]
        rfl

theorem Reaches.mapError {p p' : Prog F E α} (hr : Reaches h p w tr p' w') (g : E → E') :
    Reaches h (p.mapError g) w tr (p'.mapError g) w' := by
  induction hr with
  | here p w => exact .here _ _
  | step hr _ ih => exact .step hr ih

theorem Reaches.attempt_cases {p : Prog F E α} {q : Prog F E' (Except E α)} (hr : Reaches h p.attempt w tr q w') :
    ∃ p', Reaches h p w tr p' w' := by
  induction p generalizing w tr with
  | ret a => cases hr; exact ⟨_, .here _ _⟩
  | fail e => cases hr; exact ⟨_, .here _ _⟩
  | perform o k ih =>
    cases hr with
    | here => exact ⟨_, .here _ _⟩
    | step hr hrest =>
      obtain ⟨p', hp⟩ := ih _ hrest
      exact ⟨p', .step hr hp⟩

theorem Reaches.mapError_cases {p : Prog F E α} {g : E → E'} {q : Prog F E' α}
    (hr : Reaches h (p.mapError g) w tr q w') : ∃ p', Reaches h p w tr p' w' := by
  induction p generalizing w tr with
  | ret a => cases hr; exact ⟨_, .here _ _⟩
  | fail e => cases hr; exact ⟨_, .here _ _⟩
  | perform o k ih =>
    cases hr with
    | here => exact ⟨_, .here _ _⟩
    | step hr hrest =>
      obtain ⟨p', hp⟩ := ih _ hrest
      exact ⟨p', .step hr hp⟩

/-- A run that ends is reached in full. -/
theorem reaches_of_exec {p : Prog F E α} {u : Run F E α W} (hu : exec h p w = some u) :
    Reaches h p w u.trace (match u.result with | .ok a => ret a | .error e => fail e) u.world := by
  induction p generalizing w u with
  | ret a => cases hu; exact .here _ _
  | fail e => cases hu; exact .here _ _
  | perform o k ih =>
    obtain ⟨r, w', v, hr, hv, rfl⟩ := exec_perform_eq_some.1 hu
    exact .step hr (ih r hv)

/-! ### Errors -/

/-- Whatever the program fails with under the handler satisfies `P`. -/
def Raises (h : Handler F W) (P : E → Prop) (p : Prog F E α) : Prop :=
  ∀ w u e, exec h p w = some u → u.result = .error e → P e

variable {P : E → Prop}

theorem raises_ret (a : α) : Raises h P (ret a : Prog F E α) := by
  intro w u e hu he
  cases hu
  cases he

theorem raises_fail {e : E} (he : P e) : Raises h P (fail e : Prog F E α) := by
  intro w u e' hu he'
  cases hu
  cases he'
  exact he

theorem raises_perform {o : F.Op} {k : F.Ans o → Prog F E α} (hk : ∀ r, Raises h P (k r)) :
    Raises h P (perform o k) := by
  intro w u e hu he
  obtain ⟨r, w', u', -, hu', rfl⟩ := exec_perform_eq_some.1 hu
  exact hk r w' u' e hu' he

theorem raises_bind {p : Prog F E α} {f : α → Prog F E β} (hp : Raises h P p) (hf : ∀ a, Raises h P (f a)) :
    Raises h P (p.bind f) := by
  intro w u e hu he
  rcases exec_bind_eq_some hu with ⟨e', w', tr, hp', rfl⟩ | ⟨a, w', tr, u', -, hu', rfl⟩
  · cases he
    exact hp w _ _ hp' rfl
  · exact hf a w' u' e hu' he

theorem raises_mapError {g : E → E'} {P' : E' → Prop} {p : Prog F E α} (hp : Raises h (fun e => P' (g e)) p) :
    Raises h P' (p.mapError g) := by
  intro w u e hu he
  rw [exec_mapError] at hu
  obtain ⟨u', hu', rfl⟩ := Option.map_eq_some_iff.1 hu
  cases hres : u'.result with
  | ok a =>
    rw [hres] at he
    cases he
  | error e' =>
    rw [hres] at he
    cases he
    exact hp w u' e' hu' hres

end Prog

/-! ### Operations of any programs -/

/-- The operations `tr`, each answered by `h`, lead from `w` to `w'`. -/
inductive Steps {F : Signature} {W : Type} (h : Handler F W) : W → List (Event F) → W → Prop
  | nil (w : W) : Steps h w [] w
  | cons {w w' w'' : W} {o : F.Op} {r : F.Ans o} {tr : List (Event F)} (hr : h w o = some (r, w'))
      (hrest : Steps h w' tr w'') : Steps h w (⟨o, r⟩ :: tr) w''

variable {F : Signature} {W : Type} {h : Handler F W} {w w' : W} {tr : List (Event F)}

/-- What every operation preserves holds after any of them. -/
theorem Steps.invariant {I : W → Prop} (hstep : ∀ w o r w', h w o = some (r, w') → I w → I w')
    (hs : Steps h w tr w') (hw : I w) : I w' := by
  induction hs with
  | nil w => exact hw
  | cons hr _ ih => exact ih (hstep _ _ _ _ hr hw)

/-- The operations and their answers determine where they lead. -/
theorem Steps.unique {w'' : W} (hs : Steps h w tr w') (hs' : Steps h w tr w'') : w' = w'' := by
  induction hs with
  | nil w =>
    cases hs'
    rfl
  | cons hr _ ih =>
    cases hs' with
    | cons hr' hrest' =>
      rw [hr] at hr'
      cases hr'
      exact ih hrest'

theorem Steps.append {w'' : W} {tr' : List (Event F)} (hs : Steps h w tr w') (hs' : Steps h w' tr' w'') :
    Steps h w (tr ++ tr') w'' := by
  induction hs with
  | nil w => exact hs'
  | cons hr _ ih => exact .cons hr (ih hs')

theorem Prog.Reaches.steps {E α : Type} {p p' : Prog F E α} (hr : Prog.Reaches h p w tr p' w') : Steps h w tr w' := by
  induction hr with
  | here p w => exact .nil w
  | step hr _ ih => exact .cons hr ih

theorem Prog.steps_of_exec {E α : Type} {p : Prog F E α} {u : Run F E α W} (hu : Prog.exec h p w = some u) :
    Steps h w u.trace u.world :=
  (Prog.reaches_of_exec hu).steps

end Effect
