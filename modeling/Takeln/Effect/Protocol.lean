import Takeln.Effect.Prog

/-!
# Protocols

A protocol says which operations a program may perform next, as a function of what it did so far and was answered.
`Follows` is the weakest precondition of the protocol: the program performs only allowed operations, whatever it is
answered, and ends in a protocol state that satisfies the postcondition.  Being defined by recursion on the program
it holds of the rest of a program that has performed some of its operations, which is what an interleaving needs.
-/

namespace Effect

/-- The operations allowed in each protocol state, and the state after an answer. -/
structure Protocol (F : Signature) (Q : Type) where
  allow : Q → F.Op → Prop
  next : Q → (o : F.Op) → F.Ans o → Q

/-- The protocol state after some operations. -/
def Protocol.after {F : Signature} {Q : Type} (π : Protocol F Q) (q : Q) (tr : List (Event F)) : Q :=
  tr.foldl (fun q e => π.next q e.op e.ans) q

theorem Protocol.after_append {F : Signature} {Q : Type} (π : Protocol F Q) (q : Q) (tr tr' : List (Event F)) :
    π.after q (tr ++ tr') = π.after (π.after q tr) tr' := List.foldl_append ..

theorem Protocol.after_concat {F : Signature} {Q : Type} (π : Protocol F Q) (q : Q) (tr : List (Event F))
    (e : Event F) : π.after q (tr ++ [e]) = π.next (π.after q tr) e.op e.ans := by
  rw [Protocol.after_append]
  rfl

/-- Everything is allowed, and remembered. -/
def recorder (F : Signature) : Protocol F (List (Event F)) where
  allow _ _ := True
  next q o r := q ++ [⟨o, r⟩]

theorem after_recorder {F : Signature} (q tr : List (Event F)) : (recorder F).after q tr = q ++ tr := by
  induction tr generalizing q with
  | nil => rw [List.append_nil]; rfl
  | cons e tr ih =>
    have happ : q ++ e :: tr = (q ++ [e]) ++ tr := by simp
    rw [happ, ← ih]
    rfl

namespace Prog

variable {F : Signature} {E E' α β Q : Type} {π : Protocol F Q} {q : Q}

/-- From the protocol state `q`, the program keeps to the protocol and ends in `Φ`. -/
def Follows (π : Protocol F Q) : Prog F E α → Q → (Q → Except E α → Prop) → Prop
  | ret a, q, Φ => Φ q (.ok a)
  | fail e, q, Φ => Φ q (.error e)
  | perform o k, q, Φ => π.allow q o ∧ ∀ r, Follows π (k r) (π.next q o r) Φ

@[simp] theorem follows_ret (a : α) (Φ : Q → Except E α → Prop) : Follows π (ret a) q Φ ↔ Φ q (.ok a) := Iff.rfl

@[simp] theorem follows_fail (e : E) (Φ : Q → Except E α → Prop) :
    Follows π (fail e) q Φ ↔ Φ q (.error e) := Iff.rfl

@[simp] theorem follows_perform (o : F.Op) (k : F.Ans o → Prog F E α) (Φ : Q → Except E α → Prop) :
    Follows π (perform o k) q Φ ↔ π.allow q o ∧ ∀ r, Follows π (k r) (π.next q o r) Φ := Iff.rfl

theorem Follows.mono {p : Prog F E α} {Φ Ψ : Q → Except E α → Prop} (hp : Follows π p q Φ)
    (himp : ∀ q x, Φ q x → Ψ q x) : Follows π p q Ψ := by
  induction p generalizing q with
  | ret a => exact himp _ _ hp
  | fail e => exact himp _ _ hp
  | perform o k ih => exact ⟨hp.1, fun r => ih r (hp.2 r)⟩

theorem follows_bind (p : Prog F E α) (f : α → Prog F E β) (Φ : Q → Except E β → Prop) :
    Follows π (p.bind f) q Φ ↔
      Follows π p q fun q' x => match x with
        | .ok a => Follows π (f a) q' Φ
        | .error e => Φ q' (.error e) := by
  induction p generalizing q with
  | ret a => rfl
  | fail e => rfl
  | perform o k ih => simp only [perform_bind, follows_perform, ih]

theorem follows_attempt (p : Prog F E α) (Φ : Q → Except E' (Except E α) → Prop) :
    Follows π (p.attempt : Prog F E' (Except E α)) q Φ ↔ Follows π p q fun q' x => Φ q' (.ok x) := by
  induction p generalizing q with
  | ret a => rfl
  | fail e => rfl
  | perform o k ih => simp only [attempt, follows_perform, ih]

theorem follows_mapError (g : E → E') (p : Prog F E α) (Φ : Q → Except E' α → Prop) :
    Follows π (p.mapError g) q Φ ↔ Follows π p q fun q' x => Φ q' (x.mapError g) := by
  induction p generalizing q with
  | ret a => rfl
  | fail e => rfl
  | perform o k ih => simp only [mapError, follows_perform, ih]

@[simp] theorem follows_op (o : F.Op) (Φ : Q → Except E (F.Ans o) → Prop) :
    Follows π (op o) q Φ ↔ π.allow q o ∧ ∀ r, Φ (π.next q o r) (.ok r) := Iff.rfl

@[simp] theorem follows_ofExcept (x : Except E α) (Φ : Q → Except E α → Prop) :
    Follows π (ofExcept x) q Φ ↔ Φ q x := by
  cases x <;> rfl

/-- The rest of a stopped program keeps to the protocol. -/
theorem Follows.reaches {W : Type} {h : Handler F W} {w w' : W} {tr : List (Event F)} {p p' : Prog F E α}
    {Φ : Q → Except E α → Prop} (hp : Follows π p q Φ) (hr : Reaches h p w tr p' w') :
    Follows π p' (π.after q tr) Φ := by
  induction hr generalizing q with
  | here p w => exact hp
  | step _ _ ih => exact ih (hp.2 _)

/-- A run ends as the protocol says. -/
theorem Follows.of_exec {W : Type} {h : Handler F W} {w : W} {p : Prog F E α} {Φ : Q → Except E α → Prop}
    {u : Run F E α W} (hp : Follows π p q Φ) (hu : exec h p w = some u) : Φ (π.after q u.trace) u.result := by
  have hend := hp.reaches (reaches_of_exec hu)
  cases hres : u.result with
  | ok a =>
    rw [hres] at hend
    exact hend
  | error e =>
    rw [hres] at hend
    exact hend

/-- Each operation of a stopped program was allowed when it was performed. -/
theorem Follows.allow_of_reaches {W : Type} {h : Handler F W} {w w' : W} {p p' : Prog F E α}
    {Φ : Q → Except E α → Prop} {tr tr' : List (Event F)} {e : Event F} (hp : Follows π p q Φ)
    (hr : Reaches h p w (tr ++ e :: tr') p' w') : π.allow (π.after q tr) e.op := by
  induction tr generalizing q p w with
  | nil =>
    cases hr with
    | step => exact hp.1
  | cons e' tr ih =>
    cases hr with
    | step _ hrest => exact ih (hp.2 _) hrest

/-- What the allowed operations keep holds from then on. -/
theorem Follows.keeps {W : Type} {h : Handler F W} {w w' : W} {p p' : Prog F E α} {Φ : Q → Except E α → Prop}
    {tr tr' : List (Event F)} {K : Q → Prop} (hstep : ∀ q o r, π.allow q o → K q → K (π.next q o r))
    (hp : Follows π p q Φ) (hr : Reaches h p w (tr ++ tr') p' w') (hK : K (π.after q tr)) :
    K (π.after q (tr ++ tr')) := by
  obtain ⟨p₁, w₁, hfirst, hlater⟩ := hr.split
  have hrest := hp.reaches hfirst
  rw [π.after_append]
  generalize π.after q tr = q₁ at hK hrest
  clear hfirst hr
  induction hlater generalizing q₁ with
  | here => exact hK
  | step _ _ ih => exact ih _ (hstep _ _ _ hrest.1 hK) (hrest.2 _)

/-- What every allowed operation preserves, of the protocol state, of what was done and of the world, holds of a stopped
program. -/
theorem Follows.invariant {W : Type} {h : Handler F W} {w w' : W} {p p' : Prog F E α} {Φ : Q → Except E α → Prop}
    {tr : List (Event F)} {I : Q → List (Event F) → W → Prop}
    (hstep : ∀ q tr w o r w', π.allow q o → h w o = some (r, w') → I q tr w → I (π.next q o r) (tr ++ [⟨o, r⟩]) w')
    (hp : Follows π p q Φ) (hr : Reaches h p w tr p' w') (hI : I q [] w) : I (π.after q tr) tr w' := by
  suffices hgen : ∀ tr₀, I q tr₀ w → I (π.after q tr) (tr₀ ++ tr) w' from hgen [] hI
  clear hI
  induction hr generalizing q with
  | here => exact fun tr₀ hI => by rwa [List.append_nil]
  | step hr _ ih =>
    intro tr₀ hI
    rw [List.append_cons]
    exact ih (hp.2 _) _ (hstep _ _ _ _ _ _ hp.1 hr hI)

/-- What holds at the end holds now, if no operation can bring it about. -/
theorem Follows.of_end {p : Prog F E α} {K : Q → Prop} (hans : ∀ o, Nonempty (F.Ans o))
    (hback : ∀ q o r, K (π.next q o r) → K q) (hp : Follows π p q fun q' _ => K q') : K q := by
  induction p generalizing q with
  | ret a => exact hp
  | fail e => exact hp
  | perform o k ih =>
    obtain ⟨r⟩ := hans o
    exact hback q o r (ih r (hp.2 r))

/-- Each operation of a run was allowed when it was performed. -/
theorem Follows.allow_of_exec {W : Type} {h : Handler F W} {w : W} {p : Prog F E α} {Φ : Q → Except E α → Prop}
    {u : Run F E α W} {tr tr' : List (Event F)} {e : Event F} (hp : Follows π p q Φ) (hu : exec h p w = some u)
    (htr : u.trace = tr ++ e :: tr') : π.allow (π.after q tr) e.op := by
  have hr := reaches_of_exec hu
  rw [htr] at hr
  exact hp.allow_of_reaches hr

/-- A program whose operations are all answered runs to its end. -/
theorem Follows.exec_isSome {W : Type} {h : Handler F W} {p : Prog F E α} {Φ : Q → Except E α → Prop}
    (hp : Follows π p q Φ) (hans : ∀ q o, π.allow q o → ∀ w, (h w o).isSome) (w : W) : ∃ u, exec h p w = some u := by
  induction p generalizing q w with
  | ret a => exact ⟨_, rfl⟩
  | fail e => exact ⟨_, rfl⟩
  | perform o k ih =>
    obtain ⟨⟨r, w'⟩, hr⟩ := Option.isSome_iff_exists.1 (hans q o hp.1 w)
    obtain ⟨u, hu⟩ := ih r (hp.2 r) w'
    exact ⟨_, by rw [exec_perform hr, hu]; rfl⟩

end Prog

end Effect
