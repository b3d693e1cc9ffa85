import Mathlib.Data.List.Forall2

/-!
# Related lists

Lists that are related member by member, and the results of a fallible function on the members of a list.
-/

namespace Takeln

section

variable {α β : Type*} {R : α → β → Prop} {l : List α} {m : List β}

theorem exists_of_mem_left (h : List.Forall₂ R l m) {a : α} (ha : a ∈ l) : ∃ b ∈ m, R a b := by
  induction h with
  | nil => cases ha
  | cons hab _ ih =>
    rcases List.mem_cons.1 ha with rfl | ha
    · exact ⟨_, List.mem_cons_self, hab⟩
    · obtain ⟨b, hb, hR⟩ := ih ha
      exact ⟨b, List.mem_cons_of_mem _ hb, hR⟩

theorem exists_of_mem_right (h : List.Forall₂ R l m) {b : β} (hb : b ∈ m) : ∃ a ∈ l, R a b := by
  induction h with
  | nil => cases hb
  | cons hab _ ih =>
    rcases List.mem_cons.1 hb with rfl | hb
    · exact ⟨_, List.mem_cons_self, hab⟩
    · obtain ⟨a, ha, hR⟩ := ih hb
      exact ⟨a, List.mem_cons_of_mem _ ha, hR⟩

theorem forall₂_pairwise {P : α → α → Prop} {Q : β → β → Prop} (h : List.Forall₂ R l m) (hP : l.Pairwise P)
    (hPQ : ∀ a a' b b', R a b → R a' b' → P a a' → Q b b') : m.Pairwise Q := by
  induction h with
  | nil => exact .nil
  | cons hab htail ih =>
    rw [List.pairwise_cons] at hP
    rw [List.pairwise_cons]
    refine ⟨fun b' hb' => ?_, ih hP.2⟩
    obtain ⟨a', ha', hR⟩ := exists_of_mem_right htail hb'
    exact hPQ _ _ _ _ hab hR (hP.1 a' ha')

/-- Related lists are empty, or end in related elements. -/
theorem forall₂_concat (h : List.Forall₂ R l m) :
    (l = [] ∧ m = []) ∨ ∃ l' a m' b, l = l' ++ [a] ∧ m = m' ++ [b] ∧ List.Forall₂ R l' m' ∧ R a b := by
  rw [← List.forall₂_reverse_iff] at h
  rcases List.eq_nil_or_concat l with rfl | ⟨l', a, rfl⟩
  · exact Or.inl ⟨rfl, by simpa using h⟩
  · rcases List.eq_nil_or_concat m with rfl | ⟨m', b, rfl⟩
    · simp at h
    · simp only [List.concat_eq_append, List.reverse_append, List.reverse_singleton, List.singleton_append,
        List.forall₂_cons, List.forall₂_reverse_iff] at h
      exact Or.inr ⟨l', a, m', b, by simp, by simp, h.2, h.1⟩

theorem forall₂_find? {p : α → Bool} {q : β → Bool} (h : List.Forall₂ R l m) (hpq : ∀ a b, R a b → p a = q b) :
    Option.Rel R (l.find? p) (m.find? q) := by
  induction h with
  | nil => exact .none
  | cons hab _ ih =>
    rw [List.find?_cons, List.find?_cons, hpq _ _ hab]
    split
    · exact .some hab
    · exact ih

theorem forall₂_any {p : α → Bool} {q : β → Bool} (h : List.Forall₂ R l m) (hpq : ∀ a b, R a b → p a = q b) :
    l.any p = m.any q := by
  induction h with
  | nil => rfl
  | cons hab _ ih => rw [List.any_cons, List.any_cons, hpq _ _ hab, ih]

end

section

variable {α β ε : Type*} {f : α → Except ε β} {l : List α}

/-- The results of a list are those of its members. -/
theorem mapM_eq_ok_iff {m : List β} : l.mapM f = .ok m ↔ List.Forall₂ (fun a b => f a = .ok b) l m := by
  induction l generalizing m with
  | nil =>
    rw [List.mapM_nil, List.forall₂_nil_left_iff]
    exact ⟨fun h => (Except.ok.inj h).symm, fun h => congrArg Except.ok h.symm⟩
  | cons a l ih =>
    rw [List.mapM_cons, List.forall₂_cons_left_iff]
    constructor
    · intro h
      cases hb : f a with
      | error e => simp [hb, bind, Except.bind] at h
      | ok b =>
        cases hbs : l.mapM f with
        | error e => simp [hb, hbs, bind, Except.bind] at h
        | ok bs =>
          refine ⟨b, bs, rfl, ih.1 hbs, ?_⟩
          simpa [hb, hbs, bind, Except.bind, pure, Except.pure] using h.symm
    · rintro ⟨b, bs, hb, hbs, rfl⟩
      simp [hb, ih.2 hbs, bind, Except.bind, pure, Except.pure]

theorem mapM_ok_iff : (∃ m, l.mapM f = .ok m) ↔ ∀ a ∈ l, ∃ b, f a = .ok b := by
  simp only [mapM_eq_ok_iff]
  constructor
  · rintro ⟨m, h⟩ a ha
    obtain ⟨b, -, hb⟩ := exists_of_mem_left h ha
    exact ⟨b, hb⟩
  · intro h
    induction l with
    | nil => exact ⟨[], .nil⟩
    | cons a l ih =>
      obtain ⟨b, hb⟩ := h a List.mem_cons_self
      obtain ⟨bs, hbs⟩ := ih fun a' ha' => h a' (List.mem_cons_of_mem a ha')
      exact ⟨b :: bs, .cons hb hbs⟩

/-- A list fails as its first member that fails. -/
theorem mapM_eq_error_iff {e : ε} : l.mapM f = .error e ↔
    ∃ l₁ a l₂, l = l₁ ++ a :: l₂ ∧ (∀ a' ∈ l₁, ∃ b, f a' = .ok b) ∧ f a = .error e := by
  induction l with
  | nil =>
    rw [List.mapM_nil]
    exact iff_of_false nofun fun ⟨_, _, _, h, _⟩ => absurd h (by simp)
  | cons a l ih =>
    rw [List.mapM_cons]
    cases hb : f a with
    | error e' =>
      constructor
      · intro h
        cases h
        exact ⟨[], a, l, rfl, by simp, hb⟩
      · rintro ⟨l₁, a', l₂, hl, hok, he⟩
        rcases List.cons_eq_append_iff.1 hl with ⟨rfl, hl⟩ | ⟨l₁', rfl, -⟩
        · cases hl
          rw [hb] at he
          cases he
          rfl
        · obtain ⟨b, hb'⟩ := hok a List.mem_cons_self
          rw [hb] at hb'
          cases hb'
    | ok b =>
      have hrest : ((Except.ok b : Except ε β).bind fun b => (l.mapM f).bind fun bs => .ok (b :: bs)) = .error e ↔
          l.mapM f = .error e := by
        cases l.mapM f <;> simp [Except.bind]
      refine hrest.trans (ih.trans ⟨?_, ?_⟩)
      · rintro ⟨l₁, a', l₂, rfl, hok, he⟩
        exact ⟨a :: l₁, a', l₂, rfl, List.forall_mem_cons.2 ⟨⟨b, hb⟩, hok⟩, he⟩
      · rintro ⟨l₁, a', l₂, hl, hok, he⟩
        rcases List.cons_eq_append_iff.1 hl with ⟨rfl, hl⟩ | ⟨l₁', rfl, rfl⟩
        · cases hl
          rw [hb] at he
          cases he
        · exact ⟨l₁', a', l₂, rfl, (List.forall_mem_cons.1 hok).2, he⟩

end

end Takeln
