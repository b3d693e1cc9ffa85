import Mathlib.Data.Fintype.Card
import Mathlib.Data.List.Perm.Subperm
import Mathlib.Order.WellFounded

/-!
# Legal orders

Each element lists some elements and waits for a number of them: in a legal order each comes after as many of the
elements it lists as it needs. An order that cannot be continued has every element that any legal order has
(`Legal.subset`). Where an element needs no more elements than it lists, a well-founded listing can be ordered
completely (`placeable_of_wellFounded`), and where it needs no fewer, only a well-founded one can
(`Legal.wellFounded`).
-/

namespace Takeln

section

variable {ι : Type*} (lists : ι → ι → Prop) [∀ i, DecidablePred (lists i)] (need : ι → Nat)

/-- Each element comes once, after at least as many of the elements it lists as it needs. -/
inductive Legal : List ι → Prop
  | nil : Legal []
  | concat {l : List ι} {i : ι} : Legal l → i ∉ l → need i ≤ l.countP (lists i) → Legal (l ++ [i])

/-- Whatever could come next is already there. -/
def Closed (l : List ι) : Prop :=
  ∀ i, need i ≤ l.countP (lists i) → i ∈ l

/-- Some legal order has the element. -/
def Placeable (i : ι) : Prop :=
  ∃ l, Legal lists need l ∧ i ∈ l

variable {lists need} {l l' : List ι}

theorem Legal.nodup (h : Legal lists need l) : l.Nodup := by
  induction h with
  | nil => exact List.nodup_nil
  | concat _ hi _ ih => exact List.nodup_append.2 ⟨ih, List.nodup_singleton _, by
      intro a ha b hb hab
      rw [List.mem_singleton.1 hb] at hab
      exact hi (hab ▸ ha)⟩

theorem legal_of_need_eq_zero (hl : l.Nodup) (h : ∀ i ∈ l, need i = 0) : Legal lists need l := by
  induction l using List.reverseRecOn with
  | nil => exact .nil
  | append_singleton l i ih =>
    obtain ⟨hl', -, hne⟩ := List.nodup_append.1 hl
    have hi : i ∉ l := fun hmem => hne i hmem i (List.mem_singleton_self i) rfl
    refine (ih hl' fun j hj => h j (List.mem_append_left _ hj)).concat hi ?_
    rw [h i (List.mem_append_right _ (List.mem_singleton_self i))]
    exact Nat.zero_le _

theorem countP_le_of_subset {p : ι → Bool} (hl : l.Nodup) (h : l ⊆ l') : l.countP p ≤ l'.countP p :=
  (List.subperm_of_subset hl h).countP_le p

/-- What cannot be continued has everything that can be placed. -/
theorem Legal.subset (h : Legal lists need l) (hclosed : Closed lists need l') : l ⊆ l' := by
  induction h with
  | nil => exact List.nil_subset _
  | concat hl _ hneed ih =>
    refine List.append_subset.2 ⟨ih, ?_⟩
    have hmem := hclosed _ (hneed.trans (countP_le_of_subset hl.nodup ih))
    simpa using hmem

theorem Closed.mem_of_placeable {i : ι} (hclosed : Closed lists need l) (h : Placeable lists need i) : i ∈ l := by
  obtain ⟨l', hl', hi⟩ := h
  exact hl'.subset hclosed hi

/-- The placeable elements are the members of any legal order that cannot be continued. -/
theorem Legal.placeable_iff {i : ι} (h : Legal lists need l) (hclosed : Closed lists need l) :
    Placeable lists need i ↔ i ∈ l :=
  ⟨hclosed.mem_of_placeable, fun hi => ⟨l, h, hi⟩⟩

variable [Fintype ι] [DecidableEq ι]

omit [Fintype ι] in
theorem countP_eq_card {p : ι → Prop} [DecidablePred p] (hl : l.Nodup) :
    l.countP p = (l.toFinset.filter p).card := by
  rw [List.countP_eq_length_filter, ← List.toFinset_card_of_nodup (hl.filter _), List.toFinset_filter]
  simp

/-- How many elements an element lists. -/
abbrev listed (lists : ι → ι → Prop) [∀ i, DecidablePred (lists i)] (i : ι) : Nat :=
  (Finset.univ.filter (lists i)).card

theorem Legal.countP_le (h : Legal lists need l) (i : ι) : l.countP (lists i) ≤ listed lists i := by
  rw [countP_eq_card h.nodup]
  exact Finset.card_le_card (Finset.filter_subset_filter _ (Finset.subset_univ _))

/-- No element that is placed needs more elements than it lists. -/
theorem Placeable.need_le {i : ι} (h : Placeable lists need i) : need i ≤ listed lists i := by
  obtain ⟨l, hl, hi⟩ := h
  induction hl with
  | nil => exact absurd hi List.not_mem_nil
  | concat hl _ hneed ih =>
    rcases List.mem_append.1 hi with hi | hi
    · exact ih hi
    · obtain rfl := List.mem_singleton.1 hi
      exact hneed.trans (hl.countP_le _)

omit [DecidableEq ι] in
/-- Any legal order can be continued until nothing fits. -/
theorem Legal.exists_closed (h : Legal lists need l) : ∃ l', Legal lists need l' ∧ Closed lists need l' := by
  induction hk : Fintype.card ι - l.length generalizing l with
  | zero =>
    refine ⟨l, h, fun i hi => ?_⟩
    by_contra hnot
    have hlength := (h.concat hnot hi).nodup.length_le_card
    rw [List.length_append, List.length_singleton] at hlength
    omega
  | succ k ih =>
    by_cases hclosed : Closed lists need l
    · exact ⟨l, h, hclosed⟩
    · obtain ⟨i, hi⟩ := not_forall.1 hclosed
      obtain ⟨hneed, hnot⟩ := Classical.not_imp.1 hi
      refine ih (h.concat hnot hneed) ?_
      rw [List.length_append, List.length_singleton]
      omega

/-- An order of all elements has everything that is listed. -/
theorem countP_eq_listed (hl : l.Nodup) (hall : ∀ i, i ∈ l) (i : ι) : l.countP (lists i) = listed lists i := by
  have huniv : l.toFinset = Finset.univ := Finset.eq_univ_iff_forall.2 fun j => List.mem_toFinset.2 (hall j)
  rw [countP_eq_card hl, huniv]

/-- A well-founded listing can be ordered completely. -/
theorem placeable_of_wellFounded (hneed : ∀ i, need i ≤ listed lists i) (hwf : WellFounded fun j i => lists i j)
    (i : ι) : Placeable lists need i := by
  obtain ⟨l, hlegal, hclosed⟩ := (Legal.nil : Legal lists need []).exists_closed
  rw [hlegal.placeable_iff hclosed]
  induction i using hwf.induction with
  | _ i ih =>
    apply hclosed
    rw [countP_eq_card hlegal.nodup]
    refine (hneed i).trans (Finset.card_le_card ?_)
    intro j hj
    have hlists : lists i j := (Finset.mem_filter.1 hj).2
    exact Finset.mem_filter.2 ⟨List.mem_toFinset.2 (ih j hlists), hlists⟩

/-- Where an element needs all it lists, they all come before it. -/
theorem Legal.idxOf_lt (h : Legal lists need l) (hneed : ∀ i, listed lists i ≤ need i) {i j : ι} (hi : i ∈ l)
    (hij : lists i j) : l.idxOf j < l.idxOf i := by
  induction h with
  | nil => exact absurd hi List.not_mem_nil
  | @concat l k hl hk hcount ih =>
    by_cases hmem : i ∈ l
    · have hlt := ih hmem
      have hj : j ∈ l := List.idxOf_lt_length_iff.1 (hlt.trans_le List.idxOf_le_length)
      rw [List.idxOf_append_of_mem hj, List.idxOf_append_of_mem hmem]
      exact hlt
    · have hik : i = k := by simpa [hmem] using hi
      subst hik
      -- the listed elements before it are all it lists
      have hall : l.toFinset.filter (lists i) = Finset.univ.filter (lists i) := by
        refine Finset.eq_of_subset_of_card_le (Finset.filter_subset_filter _ (Finset.subset_univ _)) ?_
        rw [← countP_eq_card hl.nodup]
        exact (hneed i).trans hcount
      have hj : j ∈ l := by
        have hjall : j ∈ Finset.univ.filter (lists i) := Finset.mem_filter.2 ⟨Finset.mem_univ _, hij⟩
        rw [← hall] at hjall
        exact List.mem_toFinset.1 (Finset.mem_filter.1 hjall).1
      rw [List.idxOf_append_of_mem hj, List.idxOf_append_of_notMem hmem]
      have hlt := List.idxOf_lt_length_iff.2 hj
      omega

/-- Only a well-founded listing can be ordered completely. -/
theorem Legal.wellFounded (h : Legal lists need l) (hneed : ∀ i, listed lists i ≤ need i) (hall : ∀ i, i ∈ l) :
    WellFounded fun j i => lists i j := by
  have hsub : ∀ {j i}, lists i j → InvImage (· < ·) l.idxOf j i := fun hij => h.idxOf_lt hneed (hall _) hij
  exact Subrelation.wf hsub (InvImage.wf l.idxOf Nat.lt_wfRel.wf)

end

end Takeln
