import Takeln.Effect.Progress

/-!
# Layers

A layer implements the operations of one signature by programs over another one.  A program is lowered by running, for
each of its operations, the program of the layer (`Prog.lower`); in an interleaving others may take turns in the middle
of an operation.  What a program does above the layer is transported by a relation of protocol states that every
operation of the layer keeps (`follows_lower`).
-/

namespace Effect

/-- A program for each operation; it returns the answer and does not fail. -/
abbrev Layer (F G : Signature) := (o : F.Op) → Prog G Empty (F.Ans o)

/-- Two protocols at once. -/
def Protocol.prod {F : Signature} {Q Q' : Type} (π : Protocol F Q) (π' : Protocol F Q') : Protocol F (Q × Q') where
  allow q o := π.allow q.1 o ∧ π'.allow q.2 o
  next q o r := (π.next q.1 o r, π'.next q.2 o r)

namespace Prog

variable {F G : Signature} {E α Q Q' : Type} {layer : Layer F G}

/-- Run the programs of the layer for the operations. -/
def lower (layer : Layer F G) : Prog F E α → Prog G E α
  | ret a => ret a
  | fail e => fail e
  | perform o k => ((layer o).mapError Empty.elim).bind fun r => (k r).lower layer

theorem Follows.prod {π : Protocol F Q} {π' : Protocol F Q'} {p : Prog F E α} {q : Q} {q' : Q'}
    {Φ : Q → Except E α → Prop} {Φ' : Q' → Except E α → Prop} (hp : Follows π p q Φ) (hp' : Follows π' p q' Φ') :
    Follows (π.prod π') p (q, q') fun q x => Φ q.1 x ∧ Φ' q.2 x := by
  induction p generalizing q q' with
  | ret a => exact ⟨hp, hp'⟩
  | fail e => exact ⟨hp, hp'⟩
  | perform o k ih => exact ⟨⟨hp.1, hp'.1⟩, fun r => ih r (hp.2 r) (hp'.2 r)⟩

/-- The lowered program keeps to a protocol if the layer relates it to a protocol that the program keeps to. -/
theorem follows_lower {π : Protocol F Q} {ρ : Protocol G Q'} {R : Q → Q' → Prop}
    (hlayer : ∀ q q' o, R q q' → π.allow q o →
      Follows ρ (layer o) q' fun q'' x => ∀ r, x = .ok r → R (π.next q o r) q'')
    {p : Prog F E α} {q : Q} {q' : Q'} {Φ : Q → Except E α → Prop} (hp : Follows π p q Φ) (hR : R q q') :
    Follows ρ (p.lower layer) q' fun q'' x => ∃ q, R q q'' ∧ Φ q x := by
  induction p generalizing q q' with
  | ret a => exact ⟨q, hR, hp⟩
  | fail e => exact ⟨q, hR, hp⟩
  | perform o k ih =>
    unfold lower
    rw [follows_bind, follows_mapError]
    refine (hlayer q q' o hR hp.1).mono fun q'' x hx => ?_
    cases x with
    | ok r => exact ih r (hp.2 r) (hx r rfl)
    | error e => exact e.elim

end Prog

/-! ### One part of a world -/

section Project

variable {G H : Signature} {ι W : Type} {sem : Semantics G W} {sem' : Semantics H W} {w w' : W}

/-- The entries that a part of the world sees, as it sees them. -/
def project (part : Event G → Option (Event H)) (tr : List (Entry G ι W)) : List (Entry H ι W) :=
  tr.filterMap fun e => (part e.event).map fun ev => ⟨e.who, e.world, ev.op, ev.ans⟩

@[simp] theorem project_append (part : Event G → Option (Event H)) (tr tr' : List (Entry G ι W)) :
    project part (tr ++ tr') = project part tr ++ project part tr' := List.filterMap_append ..

theorem project_cons {part : Event G → Option (Event H)} {e : Entry G ι W} {ev : Event H}
    (hev : part e.event = some ev) (tr : List (Entry G ι W)) :
    project part (e :: tr) = ⟨e.who, e.world, ev.op, ev.ans⟩ :: project part tr :=
  List.filterMap_cons_some (by rw [hev]; rfl)

theorem project_cons_none {part : Event G → Option (Event H)} {e : Entry G ι W} (hev : part e.event = none)
    (tr : List (Entry G ι W)) : project part (e :: tr) = project part tr :=
  List.filterMap_cons_none (by rw [hev]; rfl)

/-- What a part sees follows each other if the rest leaves the world as it is. -/
theorem Trail.project {part : Event G → Option (Event H)}
    (hpart : ∀ w o r w' ev, sem w o r w' → part ⟨o, r⟩ = some ev → sem' w ev.op ev.ans w')
    (hrest : ∀ w o r w', sem w o r w' → part ⟨o, r⟩ = none → w' = w) {tr : List (Entry G ι W)}
    (h : Trail sem w tr w') : Trail sem' w (project part tr) w' := by
  induction h with
  | nil w => exact .nil w
  | @cons w w₁ w₂ i o r tr hsem _ ih =>
    cases hev : part ⟨o, r⟩ with
    | none =>
      rw [project_cons_none hev, ← hrest _ _ _ _ hsem hev]
      exact ih
    | some ev =>
      rw [project_cons hev]
      exact .cons (hpart _ _ _ _ _ hsem hev) ih

end Project

/-- Where a participant performed one of its operations. -/
theorem exists_of_own_eq_append {F : Signature} {ι W : Type} [DecidableEq ι] {i : ι} {tr : List (Entry F ι W)}
    {evs evs' : List (Event F)} {ev : Event F} (h : own i tr = evs ++ ev :: evs') :
    ∃ l e l', tr = l ++ e :: l' ∧ e.who = i ∧ e.event = ev ∧ own i l = evs ∧ own i l' = evs' := by
  induction evs generalizing tr with
  | nil =>
    -- before the first of its operations it has performed none
    obtain ⟨l, e, l', rfl, hwho, hev, hl'⟩ := exists_of_own_eq_cons h
    have hsplit : own i l ++ own i (e :: l') = [] ++ ev :: evs' := by rw [← own_append]; exact h
    have hcons : own i (e :: l') = ev :: own i l' := by simp [own, hwho, hev]
    rw [hcons, hl'] at hsplit
    exact ⟨l, e, l', rfl, hwho, hev, (List.append_inj' hsplit rfl).1, hl'⟩
  | cons a evs ih =>
    obtain ⟨l, e, l', rfl, hwho, hev, hl'⟩ := exists_of_own_eq_cons h
    obtain ⟨l₂, e₂, l₃, rfl, hwho₂, hev₂, hl₂, hl₃⟩ := ih hl'
    have hsplit : own i l ++ own i (e :: (l₂ ++ e₂ :: l₃)) = [] ++ a :: (evs ++ ev :: evs') := by
      rw [← own_append]; exact h
    have hcons : own i (e :: (l₂ ++ e₂ :: l₃)) = a :: own i (l₂ ++ e₂ :: l₃) := by simp [own, hwho, hev]
    rw [hcons, hl'] at hsplit
    have hnone : own i l = [] := (List.append_inj' hsplit rfl).1
    refine ⟨l ++ e :: l₂, e₂, l₃, by simp, hwho₂, hev₂, ?_, hl₃⟩
    rw [own_append, hnone, ← hl₂]
    simp [own, hwho, hev]

end Effect
