import Takeln.Effect.Protocol

/-!
# Lockstep

Two runs of programs compared: from related worlds neither ends, or both end with related results, in related worlds,
and what is looked at in their traces is the same.  The rules follow the programs, as those of `Follows` do; a program
whose operations are answered alike runs in lockstep with itself.
-/

namespace Effect

namespace Prog

variable {F : Signature} {E E' α α' β β' γ W W' Q : Type} {h : Handler F W} {h' : Handler F W'}
  {R : W → W' → Prop} {look : Event F → Option γ} {w : W} {w' : W'}

/-- `p` under `h` from `w` and `p'` under `h'` from `w'` run in lockstep, with results related by `Φ`. -/
def Lockstep (h : Handler F W) (h' : Handler F W') (R : W → W' → Prop) (look : Event F → Option γ) (p : Prog F E α)
    (p' : Prog F E' α') (w : W) (w' : W') (Φ : Except E α → Except E' α' → Prop) : Prop :=
  Option.Rel (fun u u' => R u.world u'.world ∧ u.trace.filterMap look = u'.trace.filterMap look ∧ Φ u.result u'.result)
    (exec h p w) (exec h' p' w')

namespace Lockstep

theorem ret {a : α} {a' : α'} {Φ : Except E α → Except E' α' → Prop} (hw : R w w') (hΦ : Φ (.ok a) (.ok a')) :
    Lockstep h h' R look (.ret a) (.ret a') w w' Φ := .some ⟨hw, rfl, hΦ⟩

theorem fail {e : E} {e' : E'} {Φ : Except E α → Except E' α' → Prop} (hw : R w w') (hΦ : Φ (.error e) (.error e')) :
    Lockstep h h' R look (.fail e) (.fail e') w w' Φ := .some ⟨hw, rfl, hΦ⟩

/-- Operations that are answered. -/
theorem perform {o o' : F.Op} {r : F.Ans o} {r' : F.Ans o'} {w₁ : W} {w₁' : W'} {k : F.Ans o → Prog F E α}
    {k' : F.Ans o' → Prog F E' α'} {Φ : Except E α → Except E' α' → Prop} (hr : h w o = some (r, w₁))
    (hr' : h' w' o' = some (r', w₁')) (hlook : look ⟨o, r⟩ = look ⟨o', r'⟩)
    (hk : Lockstep h h' R look (k r) (k' r') w₁ w₁' Φ) :
    Lockstep h h' R look (.perform o k) (.perform o' k') w w' Φ := by
  unfold Lockstep at hk ⊢
  rw [exec_perform hr, exec_perform hr']
  generalize exec h (k r) w₁ = x at hk
  generalize exec h' (k' r') w₁' = x' at hk
  cases hk with
  | none => exact .none
  | some hu =>
    obtain ⟨hw, htrace, hΦ⟩ := hu
    refine .some ⟨hw, ?_, hΦ⟩
    change List.filterMap look ([⟨o, r⟩] ++ _) = List.filterMap look ([⟨o', r'⟩] ++ _)
    rw [List.filterMap_append, List.filterMap_append, htrace, List.filterMap_cons, List.filterMap_cons, hlook]

/-- Operations that are never answered. -/
theorem stuck {o o' : F.Op} {k : F.Ans o → Prog F E α} {k' : F.Ans o' → Prog F E' α'}
    {Φ : Except E α → Except E' α' → Prop} (hr : h w o = none) (hr' : h' w' o' = none) :
    Lockstep h h' R look (.perform o k) (.perform o' k') w w' Φ := by
  unfold Lockstep exec
  rw [hr, hr']
  exact .none

theorem mono {p : Prog F E α} {p' : Prog F E' α'} {Φ Ψ : Except E α → Except E' α' → Prop}
    (hp : Lockstep h h' R look p p' w w' Φ) (himp : ∀ x x', Φ x x' → Ψ x x') : Lockstep h h' R look p p' w w' Ψ := by
  unfold Lockstep at hp ⊢
  generalize exec h p w = x at hp
  generalize exec h' p' w' = x' at hp
  cases hp with
  | none => exact .none
  | some hu => exact .some ⟨hu.1, hu.2.1, himp _ _ hu.2.2⟩

/-- Programs in sequence. -/
theorem bind {p : Prog F E α} {p' : Prog F E' α'} {f : α → Prog F E β} {f' : α' → Prog F E' β'}
    {Φ : Except E α → Except E' α' → Prop} {Ψ : Except E β → Except E' β' → Prop}
    (hp : Lockstep h h' R look p p' w w' Φ)
    (hf : ∀ x x' w₁ w₁', R w₁ w₁' → Φ x x' →
      Lockstep h h' R look ((Prog.ofExcept x).bind f) ((Prog.ofExcept x').bind f') w₁ w₁' Ψ) :
    Lockstep h h' R look (p.bind f) (p'.bind f') w w' Ψ := by
  unfold Lockstep at hp
  cases hx : exec h p w with
  | none =>
    cases hx' : exec h' p' w' with
    | some u' => rw [hx, hx'] at hp; cases hp
    | none =>
      unfold Lockstep
      rw [exec_bind_none hx, exec_bind_none hx']
      exact .none
  | some u =>
    cases hx' : exec h' p' w' with
    | none => rw [hx, hx'] at hp; cases hp
    | some u' =>
      rw [hx, hx'] at hp
      obtain ⟨x, w₁, t₁⟩ := u
      obtain ⟨x', w₁', t₁'⟩ := u'
      cases hp with
      | some hu =>
        obtain ⟨hw, htrace, hΦ⟩ := hu
        have hrest := hf x x' w₁ w₁' hw hΦ
        -- both sides are the rest, after what was performed so far
        have hexec {E α β W : Type} {h : Handler F W} {p : Prog F E α} {f : α → Prog F E β} {w w₁ : W} {x : Except E α}
            {t : List (Event F)} (hx : exec h p w = some ⟨x, w₁, t⟩) :
            exec h (p.bind f) w = (exec h ((Prog.ofExcept x).bind f) w₁).map (Run.after t) := by
          cases x with
          | ok a => exact exec_bind_ok hx f
          | error e =>
            rw [exec_bind_error hx]
            simp [Run.after]
        unfold Lockstep at hrest ⊢
        rw [hexec hx, hexec hx']
        generalize exec h ((Prog.ofExcept x).bind f) w₁ = y at hrest
        generalize exec h' ((Prog.ofExcept x').bind f') w₁' = y' at hrest
        cases hrest with
        | none => exact .none
        | some hv =>
          obtain ⟨hw', htrace', hΨ⟩ := hv
          refine .some ⟨hw', ?_, hΨ⟩
          change List.filterMap look (_ ++ _) = List.filterMap look (_ ++ _)
          rw [List.filterMap_append, List.filterMap_append, htrace, htrace']

/-- A program whose operations are answered alike runs in lockstep with itself. -/
theorem self {π : Protocol F Q} {q : Q} {p : Prog F E α} {Φ : Q → Except E α → Prop} (hp : Follows π p q Φ)
    (hans : ∀ q o w w', π.allow q o → R w w' →
      Option.Rel (fun x x' => x.1 = x'.1 ∧ R x.2 x'.2) (h w o) (h' w' o)) (hw : R w w') :
    Lockstep h h' R look p p w w' fun x x' => x = x' := by
  induction p generalizing q w w' with
  | ret a => exact ret hw rfl
  | fail e => exact fail hw rfl
  | perform o k ih =>
    have ho := hans q o w w' hp.1 hw
    cases hr : h w o with
    | none =>
      cases hr' : h' w' o with
      | some x' => rw [hr, hr'] at ho; cases ho
      | none => exact stuck hr hr'
    | some x =>
      cases hr' : h' w' o with
      | none => rw [hr, hr'] at ho; cases ho
      | some x' =>
        rw [hr, hr'] at ho
        obtain ⟨r, w₁⟩ := x
        obtain ⟨r', w₁'⟩ := x'
        cases ho with
        | some hrel =>
          obtain ⟨rfl, hw₁⟩ := hrel
          exact perform hr hr' rfl (ih r (hp.2 r) hw₁)

end Lockstep

end Prog

end Effect
