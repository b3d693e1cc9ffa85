import Takeln.Model.Builder
import Takeln.Order.Legal
import Mathlib.Data.List.FinRange

/-!
# The worklist of the cycle detection

The nodes that have been visited, followed by those in the queue, are a legal order (`Placing`): a node waits for as
many nodes as its counter starts with. When the queue is empty, the order cannot be continued. Without checks for
overflow a counter may wrap around, but no node enters the queue twice, for it would take 2 ^ 64 visits.
-/

namespace Takeln

variable {n : Nat}

/-- The nodes, by what the worklist reads of them: which nodes each one lists, and how many dependencies it has. -/
structure Describes (lists : Fin n → Fin n → Prop) (need : Fin n → Nat) (nodes : List DAGNode) : Prop where
  length : nodes.length = n
  need (i : Fin n) {node : DAGNode} : nodes[i.1]? = some node → node.dependsOn.length = need i
  lists (i j : Fin n) {node node' : DAGNode} : nodes[i.1]? = some node → nodes[j.1]? = some node' →
    (node'.id ∈ node.dependsOn ↔ lists i j)

/-- The counter of a node with `need` dependencies after `k` subtractions. -/
def counter (need k : Nat) : Nat :=
  if k ≤ need then need - k else 2 ^ 64 + need - k

theorem counter_eq_zero {need k : Nat} (hk : k < 2 ^ 64) : counter need k = 0 ↔ need = k := by
  unfold counter
  split <;> omega

theorem counter_succ {need k : Nat} (hneed : need < 2 ^ 64) (hk : k < 2 ^ 64) :
    counter need (k + 1) = if counter need k = 0 then 2 ^ 64 - 1 else counter need k - 1 := by
  unfold counter
  split <;> split <;> split <;> omega

def Touch.index? : Touch → Option Nat
  | .decremented _ _ => none
  | .enqueued i => some i

/-- Which nodes have entered the queue, in order. -/
def enqueued (log : List Touch) : List Nat :=
  log.filterMap Touch.index?

/-- Some counter was 0 when it was decremented. -/
def Underflows (log : List Touch) : Prop :=
  ∃ i, Touch.decremented i 0 ∈ log

theorem enqueued_append (log log' : List Touch) : enqueued (log ++ log') = enqueued log ++ enqueued log' :=
  List.filterMap_append

theorem underflows_append {log log' : List Touch} : Underflows (log ++ log') ↔ Underflows log ∨ Underflows log' := by
  simp only [Underflows, List.mem_append, exists_or]

section

variable (overflowChecks : Bool) (lists : Fin n → Fin n → Prop) [∀ i, DecidablePred (lists i)] (need : Fin n → Nat)

/-- The state of the worklist: `placed` has been visited, `waiting` is in the queue, and the counter of the node `i` has
been decremented `count i` times. -/
structure Placing (placed waiting : List (Fin n)) (count : Fin n → Nat) (s : Worklist) : Prop where
  queue : s.queue = waiting.map Fin.val
  visited : s.visited = placed.length
  counters (i : Fin n) : s.inDegree[i.1]? = some (counter (need i) (count i))
  count_le (i : Fin n) : count i ≤ placed.countP (lists i)
  legal : Legal lists need (placed ++ waiting)
  mem_iff (i : Fin n) : i ∈ placed ++ waiting ↔ need i ≤ count i
  entered : enqueued s.log = (placed ++ waiting).map Fin.val
  underflows_iff : Underflows s.log ↔ ∃ i, need i < count i
  checked : overflowChecks = true → ∀ i, count i ≤ need i

/-- A panic: a node is listed by more visited nodes than it has dependencies. -/
structure Panicked (s : Worklist) : Prop where
  checks : overflowChecks = true
  underflows : Underflows s.log
  nodup : (enqueued s.log).Nodup
  exceeds : ∃ placed i, Legal lists need placed ∧ need i < placed.countP (lists i)

variable {overflowChecks lists need} {placed waiting : List (Fin n)} {count : Fin n → Nat} {s : Worklist}

theorem Placing.placed_length_le (h : Placing overflowChecks lists need placed waiting count s) :
    placed.length + waiting.length ≤ n := by
  have hlength := h.legal.nodup.length_le_card
  rwa [List.length_append, Fintype.card_fin] at hlength

theorem Placing.closed (h : Placing overflowChecks lists need placed [] (fun i => placed.countP (lists i)) s) :
    Closed lists need placed := by
  intro i hi
  simpa using (h.mem_iff i).2 hi

private theorem exists_lt_update {i : Fin n} :
    (∃ j, need j < Function.update count i (count i + 1) j) ↔ (∃ j, need j < count j) ∨ need i = count i := by
  constructor
  · rintro ⟨j, hj⟩
    rw [Function.update_apply] at hj
    split at hj
    · subst j
      rcases Nat.lt_or_ge (need i) (count i) with hlt | hge
      · exact Or.inl ⟨i, hlt⟩
      · exact Or.inr (by omega)
    · exact Or.inl ⟨j, hj⟩
  · rintro (⟨j, hj⟩ | heq)
    · refine ⟨j, hj.trans_le ?_⟩
      rw [Function.update_apply]
      split
      · subst j
        omega
      · exact le_rfl
    · refine ⟨i, ?_⟩
      rw [Function.update_self]
      omega

section Updated

variable {i : Fin n}

private theorem Placing.counters_update (h : Placing overflowChecks lists need placed waiting count s) (j : Fin n) :
    (s.inDegree.set i (counter (need i) (count i + 1)))[j.1]? =
      some (counter (need j) (Function.update count i (count i + 1) j)) := by
  by_cases hj : j = i
  · subst hj
    rw [List.getElem?_set_self', h.counters j, Function.update_self]
    rfl
  · rw [List.getElem?_set_ne (by omega), Function.update_of_ne hj]
    exact h.counters j

private theorem Placing.count_le_update (h : Placing overflowChecks lists need placed waiting count s)
    (hi : count i < placed.countP (lists i)) (j : Fin n) :
    Function.update count i (count i + 1) j ≤ placed.countP (lists j) := by
  rw [Function.update_apply]
  split
  · subst j
    exact hi
  · exact h.count_le j

private theorem Placing.checked_update (h : Placing overflowChecks lists need placed waiting count s)
    (hchecks : overflowChecks = true) (hne : need i ≠ count i) (j : Fin n) :
    Function.update count i (count i + 1) j ≤ need j := by
  have hle := h.checked hchecks j
  rw [Function.update_apply]
  split
  · subst j
    omega
  · exact hle

/-- A subtraction from 0 panics if overflow is checked. -/
private theorem Placing.panicked (h : Placing overflowChecks lists need placed waiting count s)
    (hchecks : overflowChecks = true) (hzero : need i = count i) (hi : count i < placed.countP (lists i)) :
    Panicked overflowChecks lists need { s with log := s.log ++ [.decremented i 0] } where
  checks := hchecks
  underflows := ⟨i, List.mem_append_right _ List.mem_cons_self⟩
  nodup := by
    have hlog : enqueued (s.log ++ [.decremented i 0]) = (placed ++ waiting).map Fin.val := by
      rw [enqueued_append, h.entered]
      exact List.append_nil _
    rw [hlog]
    exact h.legal.nodup.map Fin.val_injective
  exceeds := by
    refine ⟨placed ++ waiting, i, h.legal, ?_⟩
    rw [List.countP_append]
    omega

end Updated

/-- One subtraction. -/
theorem Placing.decrement (h : Placing overflowChecks lists need placed waiting count s) (hn : n < 2 ^ 64) {i : Fin n}
    (hneed : need i < 2 ^ 64) (hi : count i < placed.countP (lists i)) :
    (∃ s', s.decrement overflowChecks i = .error s' ∧ Panicked overflowChecks lists need s') ∨
      ∃ s' waiting', s.decrement overflowChecks i = .ok s' ∧
        Placing overflowChecks lists need placed waiting' (Function.update count i (count i + 1)) s' := by
  have hlength : placed.countP (lists i) ≤ placed.length := List.countP_le_length
  have hplaced := h.placed_length_le
  have happend : placed.countP (lists i) ≤ (placed ++ waiting).countP (lists i) := by
    rw [List.countP_append]
    exact Nat.le_add_right _ _
  have hbefore : s.inDegree[i.1]? = some (counter (need i) (count i)) := h.counters i
  have hzero : counter (need i) (count i) = 0 ↔ need i = count i := counter_eq_zero (by omega)
  have hfull : counter (need i) (count i + 1) = 0 ↔ need i = count i + 1 := counter_eq_zero (by omega)
  have hnext := counter_succ (k := count i) hneed (by omega)
  generalize counter (need i) (count i) = before at hbefore hzero hnext
  have hlog : enqueued (s.log ++ [.decremented i before]) = (placed ++ waiting).map Fin.val := by
    rw [enqueued_append, h.entered]
    exact List.append_nil _
  unfold Worklist.decrement
  rw [hbefore]
  by_cases hpanic : before = 0 ∧ overflowChecks = true
  · refine Or.inl ⟨{ s with log := s.log ++ [.decremented i before] }, ?_, ?_⟩
    · simp only [if_pos hpanic]
    · rw [hpanic.1]
      exact h.panicked hpanic.2 (hzero.1 hpanic.1) hi
  refine Or.inr ?_
  simp only [if_neg hpanic, ← hnext]
  have hunderflows : Underflows (s.log ++ [.decremented i before]) ↔
      ∃ j, need j < Function.update count i (count i + 1) j := by
    have hlast : Underflows [.decremented i before] ↔ need i = count i := by
      rw [← hzero]
      simp [Underflows, eq_comm]
    rw [underflows_append, h.underflows_iff, hlast, exists_lt_update]
  have hchecked (hchecks : overflowChecks = true) : ∀ j, Function.update count i (count i + 1) j ≤ need j :=
    h.checked_update hchecks fun heq => hpanic ⟨hzero.2 heq, hchecks⟩
  by_cases hd : counter (need i) (count i + 1) = 0
  · -- the node enters the queue
    have hneed' := hfull.1 hd
    have hnot : i ∉ placed ++ waiting := by
      rw [h.mem_iff]
      omega
    have hlegal : Legal lists need (placed ++ (waiting ++ [i])) := by
      rw [← List.append_assoc]
      exact h.legal.concat hnot (by omega)
    refine ⟨_, waiting ++ [i], if_pos hd, ?_, h.visited, h.counters_update, h.count_le_update hi, hlegal, ?_, ?_, ?_,
      hchecked⟩
    · simp [h.queue]
    · intro j
      rw [← List.append_assoc, List.mem_append, h.mem_iff, Function.update_apply, List.mem_singleton]
      split
      · subst j
        exact iff_of_true (Or.inr rfl) hneed'.le
      · simp [*]
    · rw [enqueued_append, hlog]
      simp [enqueued, Touch.index?]
    · rw [underflows_append, hunderflows]
      simp [Underflows]
  -- the node waits for more, or has been in the queue before
  · have hne : need i ≠ count i + 1 := fun heq => hd (hfull.2 heq)
    refine ⟨_, waiting, if_neg hd, h.queue, h.visited, h.counters_update, h.count_le_update hi, h.legal, ?_, hlog,
      hunderflows, hchecked⟩
    intro j
    rw [h.mem_iff, Function.update_apply]
    split
    · subst j
      omega
    · exact Iff.rfl

variable {nodes : List DAGNode}

/-- The sweep after a visit decrements the counters of the nodes that list the visited one. -/
theorem Placing.sweep (hnodes : nodes.length = n) (hn : n < 2 ^ 64) (hneed : ∀ i, need i < 2 ^ 64) {idx : Fin n}
    {nodeId : Uuid} (hid : ∀ (i : Fin n) node, nodes[i.1]? = some node → (nodeId ∈ node.dependsOn ↔ lists i idx))
    {rest : List DAGNode} {k : Nat} (hrest : nodes.drop k = rest)
    (h : Placing overflowChecks lists need placed waiting count s)
    (hdone : ∀ i : Fin n, i.1 < k → count i = placed.countP (lists i))
    (htodo : ∀ i : Fin n, k ≤ i.1 → count i + (if lists i idx then 1 else 0) = placed.countP (lists i)) :
    (∃ s', Worklist.sweep overflowChecks nodeId rest k s = .error s' ∧ Panicked overflowChecks lists need s') ∨
      ∃ s' waiting', Worklist.sweep overflowChecks nodeId rest k s = .ok s' ∧
        Placing overflowChecks lists need placed waiting' (fun i => placed.countP (lists i)) s' := by
  induction rest generalizing k count waiting s with
  | nil =>
    have hk : n ≤ k := hnodes ▸ List.drop_eq_nil_iff.1 hrest
    have hcount : count = fun i => placed.countP (lists i) := funext fun i => hdone i (i.2.trans_le hk)
    exact Or.inr ⟨s, waiting, rfl, hcount ▸ h⟩
  | cons node rest ih =>
    have hk : k < n := by
      have hlt := congrArg List.length hrest
      rw [List.length_drop, List.length_cons] at hlt
      omega
    have hnode : nodes[k]? = some node := by
      have hhead := congrArg List.head? hrest
      rwa [List.head?_drop] at hhead
    have htail : nodes.drop (k + 1) = rest := by
      rw [← List.drop_drop, hrest]
      rfl
    have hlists := hid ⟨k, hk⟩ node hnode
    have hcount := htodo ⟨k, hk⟩ le_rfl
    unfold Worklist.sweep
    by_cases hlisted : lists ⟨k, hk⟩ idx
    -- the entry lists the node that is visited
    · rw [if_pos (List.contains_iff_mem.2 (hlists.2 hlisted))]
      rw [if_pos hlisted] at hcount
      rcases h.decrement hn (hneed ⟨k, hk⟩) (by omega) with ⟨s', hs', hpanic⟩ | ⟨s', waiting', hs', h'⟩
      · refine Or.inl ⟨s', ?_, hpanic⟩
        rw [hs']
      · rw [hs']
        refine ih htail h' ?_ ?_
        · intro i hi
          by_cases hik : i = ⟨k, hk⟩
          · rw [hik, Function.update_self]
            exact hcount
          · rw [Function.update_of_ne hik]
            have hne : i.1 ≠ k := fun heq => hik (Fin.ext heq)
            exact hdone i (by omega)
        · intro i hi
          have hik : i ≠ ⟨k, hk⟩ := by
            rintro rfl
            exact absurd hi (Nat.not_succ_le_self k)
          rw [Function.update_of_ne hik]
          exact htodo i (by omega)
    · rw [if_neg (mt List.contains_iff_mem.1 (mt hlists.1 hlisted))]
      rw [if_neg hlisted] at hcount
      refine ih htail h ?_ ?_
      · intro i hi
        by_cases hik : i = ⟨k, hk⟩
        · rw [hik]
          exact hcount
        · have hne : i.1 ≠ k := fun heq => hik (Fin.ext heq)
          exact hdone i (by omega)
      · intro i hi
        exact htodo i (by omega)

/-- One visit. -/
theorem Placing.visit (hnodes : Describes lists need nodes) (hn : n < 2 ^ 64) (hneed : ∀ i, need i < 2 ^ 64)
    {idx : Fin n} (h : Placing overflowChecks lists need placed (idx :: waiting) (fun i => placed.countP (lists i)) s) :
    (∃ s', s.visit overflowChecks nodes idx (waiting.map Fin.val) = .error s' ∧
        Panicked overflowChecks lists need s') ∨
      ∃ s' waiting', s.visit overflowChecks nodes idx (waiting.map Fin.val) = .ok s' ∧
        Placing overflowChecks lists need (placed ++ [idx]) waiting'
          (fun i => (placed ++ [idx]).countP (lists i)) s' := by
  have hidx : idx.1 < nodes.length := hnodes.length ▸ idx.2
  have hsplit : placed ++ idx :: waiting = (placed ++ [idx]) ++ waiting := by simp
  have hcount (i : Fin n) : (placed ++ [idx]).countP (lists i) =
      placed.countP (lists i) + (if lists i idx then 1 else 0) := by
    rw [List.countP_append]
    simp [List.countP_cons]
  unfold Worklist.visit
  rw [List.getElem?_eq_getElem hidx]
  have hpopped : Placing overflowChecks lists need (placed ++ [idx]) waiting (fun i => placed.countP (lists i))
      { s with queue := waiting.map Fin.val, visited := s.visited + 1 } := by
    refine ⟨rfl, ?_, h.counters, fun i => (hcount i).symm ▸ Nat.le_add_right _ _, hsplit ▸ h.legal, ?_, ?_,
      h.underflows_iff, h.checked⟩
    · simp [h.visited]
    · rw [← hsplit]
      exact h.mem_iff
    · rw [← hsplit]
      exact h.entered
  refine hpopped.sweep hnodes.length hn hneed ?_ rfl (fun i hi => absurd hi (Nat.not_lt_zero _)) fun i _ =>
    (hcount i).symm
  intro i node hnode
  exact hnodes.lists i idx hnode (List.getElem?_eq_getElem hidx)

/-- All visits. -/
theorem Placing.run (hnodes : Describes lists need nodes) (hn : n < 2 ^ 64) (hneed : ∀ i, need i < 2 ^ 64) {fuel : Nat}
    (h : Placing overflowChecks lists need placed waiting (fun i => placed.countP (lists i)) s)
    (hfuel : n ≤ placed.length + fuel) :
    (∃ s', Worklist.run overflowChecks nodes fuel s = .error s' ∧ Panicked overflowChecks lists need s') ∨
      ∃ s' placed', Worklist.run overflowChecks nodes fuel s = .ok s' ∧
        Placing overflowChecks lists need placed' [] (fun i => placed'.countP (lists i)) s' := by
  induction fuel generalizing placed waiting s with
  | zero =>
    have hempty : waiting = [] := by
      have hlength := h.placed_length_le
      exact List.length_eq_zero_iff.1 (by omega)
    subst hempty
    exact Or.inr ⟨s, placed, rfl, h⟩
  | succ fuel ih =>
    unfold Worklist.run
    rw [h.queue]
    cases waiting with
    | nil => exact Or.inr ⟨s, placed, rfl, h⟩
    | cons idx waiting =>
      simp only [List.map_cons]
      rcases h.visit hnodes hn hneed with ⟨s', hs', hpanic⟩ | ⟨s', waiting', hs', h'⟩
      · rw [hs']
        exact Or.inl ⟨s', rfl, hpanic⟩
      · rw [hs']
        refine ih h' ?_
        rw [List.length_append, List.length_singleton]
        omega

/-- At the start the nodes without dependencies wait. -/
theorem Placing.start (hnodes : Describes lists need nodes) :
    Placing overflowChecks lists need [] ((List.finRange n).filter fun i => need i = 0)
      (fun i => ([] : List (Fin n)).countP (lists i)) (.start nodes) := by
  have hneed (i : Fin n) : nodes[i.1]?.map (fun node => node.dependsOn.length) = some (need i) := by
    have hi : i.1 < nodes.length := hnodes.length ▸ i.2
    rw [List.getElem?_eq_getElem hi, Option.map_some, hnodes.need i (List.getElem?_eq_getElem hi)]
  have hzip : (nodes.map fun node => node.dependsOn.length).zipIdx = (List.finRange n).map fun i => (need i, i.1) := by
    refine List.ext_getElem (by simp [hnodes.length]) fun k hk hk' => ?_
    have hk'' : k < n := by simpa using hk'
    have hnode := hneed ⟨k, hk''⟩
    simp only [List.length_zipIdx, List.length_map] at hk
    rw [List.getElem?_eq_getElem hk, Option.map_some, Option.some_inj] at hnode
    simpa using hnode
  have hqueue : (Worklist.start nodes).queue = ((List.finRange n).filter fun i => need i = 0).map Fin.val := by
    simp only [Worklist.start, hzip, List.filter_map, List.map_map]
    rfl
  have hlog : enqueued (Worklist.start nodes).log = (Worklist.start nodes).queue := by
    have hlog' : (Worklist.start nodes).log = (Worklist.start nodes).queue.map .enqueued := rfl
    rw [hlog', enqueued, List.filterMap_map]
    exact List.filterMap_some
  have hlegal : Legal lists need ((List.finRange n).filter fun i => need i = 0) :=
    legal_of_need_eq_zero ((List.nodup_finRange n).filter _) fun i hi => by simpa using (List.mem_filter.1 hi).2
  refine ⟨hqueue, rfl, fun i => ?_, fun i => le_rfl, hlegal, fun i => ?_, hlog.trans hqueue, ?_, fun _ i =>
    Nat.zero_le _⟩
  · have hcounter : counter (need i) 0 = need i := if_pos (Nat.zero_le _)
    rw [List.countP_nil, hcounter, ← hneed i]
    exact List.getElem?_map
  · simp
  · simp [Underflows, Worklist.start]

/-- At the end all nodes are visited if all of them can be placed. -/
theorem Placing.visited_eq_length_iff
    (h : Placing overflowChecks lists need placed [] (fun i => placed.countP (lists i)) s)
    (hnodes : Describes lists need nodes) : s.visited = nodes.length ↔ ∀ i, Placeable lists need i := by
  have hlegal : Legal lists need placed := by simpa using h.legal
  have hall : s.visited = nodes.length ↔ ∀ i, i ∈ placed := by
    rw [h.visited, hnodes.length, ← List.toFinset_card_of_nodup hlegal.nodup]
    rw [← Finset.eq_univ_iff_forall.trans (forall_congr' fun i => List.mem_toFinset), ← Finset.card_eq_iff_eq_univ]
    rw [Fintype.card_fin]
  rw [hall]
  exact ⟨fun hplaced i => ⟨placed, hlegal, hplaced i⟩, fun hplaceable i => h.closed.mem_of_placeable (hplaceable i)⟩

/-- Whatever comes legally has been placed by then. -/
theorem Placing.countP_le (h : Placing overflowChecks lists need placed [] (fun i => placed.countP (lists i)) s)
    {l : List (Fin n)} (hl : Legal lists need l) (i : Fin n) : l.countP (lists i) ≤ placed.countP (lists i) :=
  countP_le_of_subset hl.nodup (hl.subset h.closed)

/-- The whole loop: it panics, or it ends with an order that cannot be continued. -/
theorem topologicalSort_spec (overflowChecks : Bool) (hnodes : Describes lists need nodes) (hn : n < 2 ^ 64)
    (hneed : ∀ i, need i < 2 ^ 64) :
    (∃ s, DAGBuilder.topologicalSort overflowChecks nodes = .error s ∧ Panicked overflowChecks lists need s) ∨
      ∃ s placed, DAGBuilder.topologicalSort overflowChecks nodes = .ok s ∧
        Placing overflowChecks lists need placed [] (fun i => placed.countP (lists i)) s :=
  (Placing.start hnodes).run hnodes hn hneed (by rw [hnodes.length]; simp)

end

end Takeln
