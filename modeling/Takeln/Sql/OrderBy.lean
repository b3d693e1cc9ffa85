import Mathlib.Data.List.Sort
import Mathlib.Logic.Equiv.Basic

/-!
# Sorted queries

`ORDER BY` sorts the selected rows by a key and leaves the order of ties open; an `Arrangement` settles it in one of
the ways allowed.  `LIMIT k` keeps the first `k` rows.  If the keys of a list increase strictly, every arrangement in
descending order is the reverse of the list, so that the first `k` rows are its last `k` (`take_desc`).  Otherwise some
arrangement prefers an earlier row to a later one (`exists_limit`).
-/

namespace Sql

variable {α β : Type} [LinearOrder β]

/-- A way to sort rows by descending keys. -/
structure Arrangement (key : α → β) where
  desc : List α → List α
  perm (l : List α) : (desc l).Perm l
  sorted (l : List α) : (desc l).Pairwise fun a b => key b ≤ key a

namespace Arrangement

variable {key : α → β}

/-- The rows by ascending keys. -/
def asc (arr : Arrangement key) (l : List α) : List α := (arr.desc l).reverse

/-- Ties stay in the order of the list. -/
def stable (key : α → β) : Arrangement key where
  desc l := l.insertionSort fun a b => key b ≤ key a
  perm l := List.perm_insertionSort _ l
  sorted l := by
    have htotal : Std.Total fun a b : α => key b ≤ key a := ⟨fun a b => le_total (key b) (key a)⟩
    have htrans : IsTrans α fun a b => key b ≤ key a := ⟨fun _ _ _ hab hbc => le_trans hbc hab⟩
    exact List.pairwise_insertionSort _ l

/-- Every sorted permutation of a list is an arrangement of it. -/
theorem exists_desc_eq {l m : List α} (hperm : m.Perm l) (hsorted : m.Pairwise fun a b => key b ≤ key a) :
    ∃ arr : Arrangement key, arr.desc l = m := by
  classical
  refine ⟨⟨fun l' => if l' = l then m else (stable key).desc l', ?_, ?_⟩, if_pos rfl⟩
  · intro l'
    split
    · rename_i h
      exact h ▸ hperm
    · exact (stable key).perm l'
  · intro l'
    split
    · exact hsorted
    · exact (stable key).sorted l'

/-- Every row with the largest key may come first. -/
theorem exists_head {l : List α} {a : α} (ha : a ∈ l) (hmax : ∀ b ∈ l, key b ≤ key a) :
    ∃ arr : Arrangement key, (arr.desc l).head? = some a := by
  classical
  have hperm : (a :: (stable key).desc (l.erase a)).Perm l :=
    (((stable key).perm (l.erase a)).cons a).trans (List.perm_cons_erase ha).symm
  have hsorted : (a :: (stable key).desc (l.erase a)).Pairwise fun a b => key b ≤ key a := by
    refine List.pairwise_cons.2 ⟨fun b hb => ?_, (stable key).sorted _⟩
    exact hmax b (List.mem_of_mem_erase (((stable key).perm _).mem_iff.1 hb))
  obtain ⟨arr, harr⟩ := exists_desc_eq hperm hsorted
  exact ⟨arr, by rw [harr]; rfl⟩

variable (arr : Arrangement key) {l : List α}

/-- The first row has the largest key. -/
theorem le_of_head {a : α} (h : (arr.desc l).head? = some a) : ∀ b ∈ l, key b ≤ key a := by
  intro b hb
  have hmem : b ∈ arr.desc l := (arr.perm l).mem_iff.2 hb
  have hsorted := arr.sorted l
  obtain ⟨rest, hrest⟩ := List.head?_eq_some_iff.1 h
  rw [hrest] at hmem hsorted
  rcases List.mem_cons.1 hmem with rfl | hb'
  · exact le_rfl
  · exact (List.pairwise_cons.1 hsorted).1 b hb'

theorem desc_eq_reverse (h : l.Pairwise fun a b => key a < key b) : arr.desc l = l.reverse := by
  have hrev : l.reverse.Pairwise fun a b => key b < key a := List.pairwise_reverse.2 h
  have hkeys : (l.map key).Nodup := List.pairwise_map.2 (h.imp ne_of_lt)
  have hanti : ∀ a b, a ∈ arr.desc l → b ∈ l.reverse → key b ≤ key a → key a ≤ key b → a = b := by
    intro a b ha hb hba hab
    exact List.inj_on_of_nodup_map hkeys ((arr.perm l).mem_iff.1 ha) (List.mem_reverse.1 hb) (le_antisymm hab hba)
  exact List.Perm.eq_of_pairwise hanti (arr.sorted l) (hrev.imp le_of_lt) ((arr.perm l).trans l.reverse_perm.symm)

theorem asc_eq (h : l.Pairwise fun a b => key a < key b) : arr.asc l = l := by
  rw [asc, arr.desc_eq_reverse h, List.reverse_reverse]

theorem head_desc (h : l.Pairwise fun a b => key a < key b) : (arr.desc l).head? = l.getLast? := by
  rw [arr.desc_eq_reverse h, List.head?_reverse]

/-- If the keys increase strictly, the first `k` rows in descending order are the last `k` of the list. -/
theorem take_desc (h : l.Pairwise fun a b => key a < key b) (k : Nat) :
    (arr.desc l).take k = (l.drop (l.length - k)).reverse := by
  rw [arr.desc_eq_reverse h, List.take_reverse]

/-- With a later row that does not have a larger key, ties can be settled against the last rows. -/
theorem exists_limit {p s : List α} {a b : α} (hnodup : (p ++ a :: b :: s).Nodup) (hkey : key b ≤ key a) :
    ∃ arr : Arrangement key, a ∈ (arr.desc (p ++ a :: b :: s)).take (s.length + 1) ∨
      b ∉ (arr.desc (p ++ a :: b :: s)).take (s.length + 1) := by
  classical
  by_contra hall
  simp only [not_exists, not_or, not_not] at hall
  -- `b` is among the first and `a` among the others, so their keys are equal and they can be exchanged
  have hsorted := (stable key).sorted (p ++ a :: b :: s)
  have hperm := (stable key).perm (p ++ a :: b :: s)
  obtain ⟨ha, hb⟩ := hall (stable key)
  generalize (stable key).desc (p ++ a :: b :: s) = m at hsorted hperm ha hb
  have ha' : a ∈ m.drop (s.length + 1) := by
    have hmem : a ∈ m := hperm.mem_iff.2 (by simp)
    rw [← List.take_append_drop (s.length + 1) m, List.mem_append] at hmem
    exact hmem.resolve_left ha
  have heq : key a = key b := by
    rw [← List.take_append_drop (s.length + 1) m, List.pairwise_append] at hsorted
    exact le_antisymm (hsorted.2.2 b hb a ha') hkey
  have hswap : ∀ x, key (Equiv.swap a b x) = key x := by
    intro x
    rw [Equiv.swap_apply_def]
    split
    · rename_i h
      rw [h, heq]
    · split
      · rename_i h
        rw [h, heq]
      · rfl
  have hperm' : (m.map (Equiv.swap a b)).Perm (p ++ a :: b :: s) := by
    rw [List.perm_ext_iff_of_nodup ((hperm.nodup_iff.2 hnodup).map (Equiv.swap a b).injective) hnodup]
    intro x
    rw [List.mem_map_of_involutive (Equiv.swap_apply_self a b), hperm.mem_iff, Equiv.swap_apply_def]
    split
    · rename_i h
      simp [h]
    · split
      · rename_i h
        simp [h]
      · rfl
  have hsorted' : (m.map (Equiv.swap a b)).Pairwise fun x y => key y ≤ key x := by
    rw [List.pairwise_map]
    exact hsorted.imp fun h => by rw [hswap, hswap]; exact h
  obtain ⟨arr, harr⟩ := exists_desc_eq hperm' hsorted'
  apply (hall arr).1
  rw [harr, ← List.map_take, List.mem_map]
  exact ⟨b, hb, Equiv.swap_apply_right a b⟩

end Arrangement

end Sql
