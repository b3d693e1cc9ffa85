import Mathlib.Data.List.Chain
import Takeln.Model.Sqlite

/-!
# The latest checkpoint of a SQLite table

`load_state`, `claim_interrupt` and `KeepLast` find the latest checkpoint by the text of the clock reading at its save.
After any saves they act on the checkpoints saved last exactly if these texts increase strictly on the thread
(`acts_on_last_iff`): with equal readings, or a clock that was set back, they may or do act on earlier ones.
-/

namespace Takeln.Sqlite

/-! ### Tables whose times increase -/

namespace Table

variable {T : Table} {threadId : String}

theorem latest_of_sorted (h : (T.thread threadId).Pairwise fun a b => a.createdAt < b.createdAt) (order : Order) :
    T.latest order threadId = (T.thread threadId).getLast? :=
  order.head_desc h

/-- Of rows with distinct keys, those whose key is one of the last keys are the last ones. -/
theorem filter_last {rows : List Row} (hids : (rows.map Row.id).Nodup) (k : Nat) :
    (rows.filter fun r => decide (r.id ∈ (rows.drop k).map Row.id)) = rows.drop k := by
  have hsplit := List.take_append_drop k rows
  rw [← hsplit, List.map_append, List.nodup_append] at hids
  conv => lhs; rw [← hsplit]
  rw [List.filter_append, List.filter_eq_nil_iff.2, List.filter_eq_self.2]
  · rfl
  · intro r hr
    rw [hsplit]
    exact decide_eq_true (List.mem_map_of_mem hr)
  · intro r hr
    rw [hsplit, decide_eq_true_eq]
    intro hmem
    exact hids.2.2 _ (List.mem_map_of_mem hr) _ hmem rfl

/-- `KeepLast` keeps the rows whose ids its query returns. -/
theorem thread_keepLast (order : Order) (n : Nat) :
    (T.delete threadId fun r => decide (r.id ∉ T.lastIds order threadId n)).2.thread threadId =
      (T.thread threadId).filter fun r => decide (r.id ∈ T.lastIds order threadId n) := by
  rw [thread_delete_self]
  apply List.filter_congr
  intro r _
  by_cases h : r.id ∈ T.lastIds order threadId n
  · simp [h]
  · simp [h]

theorem thread_keepLast_of_sorted (h : (T.thread threadId).Pairwise fun a b => a.createdAt < b.createdAt)
    (order : Order) (n : Nat) :
    (T.delete threadId fun r => decide (r.id ∉ T.lastIds order threadId n)).2.thread threadId =
      (T.thread threadId).drop ((T.thread threadId).length - n) := by
  rw [thread_keepLast]
  unfold lastIds
  rw [order.take_desc h, List.map_reverse]
  simp only [List.mem_reverse]
  exact filter_last (T.nodup_ids threadId) _

/-- A deletion removes the rows it counts. -/
theorem delete_fst_add (T : Table) (threadId : String) (p : Row → Bool) :
    (T.delete threadId p).1 + ((T.delete threadId p).2.thread threadId).length = (T.thread threadId).length := by
  rw [delete_fst, thread_delete_self, ← List.countP_eq_length_filter]
  have := List.length_eq_countP_add_countP p (l := T.thread threadId)
  simp only [Bool.not_eq_true, Bool.decide_eq_false] at this
  exact this.symm

end Table

/-! ### Saves -/

section Saves

variable {S : Type} [JsonText S] [JsonText DAG] [JsonText YieldRequest] [Chrono]

/-- A save, with the id and the clock reading it draws. -/
structure Save (S : Type) where
  id : String
  now : Int
  args : SaveArgs S

/-- The row a save inserts into a thread, if its arguments can be written. -/
def Save.rowOf (threadId : String) (s : Save S) : Option Row :=
  (newRow s.id s.now s.args).toOption.filter fun r => decide (r.threadId = threadId)

/-- The table after some saves. -/
def saveAll : Table → List (Save S) → Table
  | T, [] => T
  | T, s :: saves => saveAll (T.saveState s.id s.now s.args).2 saves

/-- The rows saved on a thread, in the order of the saves. -/
def savedRows (threadId : String) (saves : List (Save S)) : List Row := saves.filterMap (Save.rowOf threadId)

/-- The clock readings of the saves on a thread, as `created_at` holds them. -/
def savedTimes (threadId : String) (saves : List (Save S)) : List String :=
  (saves.filter fun s => (s.rowOf threadId).isSome).map fun s => Chrono.toRfc3339 s.now

theorem newRow_ok {id : String} {now : Int} {args : SaveArgs S} {row : Row} (h : newRow id now args = .ok row) :
    row.id = id ∧ row.createdAt = Chrono.toRfc3339 now := by
  unfold newRow at h
  cases hstate : JsonText.toText args.state with
  | error e =>
    rw [hstate] at h
    cases h
  | ok state =>
    cases hdag : encode args.dag with
    | error e =>
      rw [hstate, hdag] at h
      cases h
    | ok dag =>
      cases hrequest : encode args.yieldRequest with
      | error e =>
        rw [hstate, hdag, hrequest] at h
        cases h
      | ok request =>
        rw [hstate, hdag, hrequest] at h
        cases h
        exact ⟨rfl, rfl⟩

theorem Save.rowOf_of_newRow {s : Save S} {row : Row} (h : newRow s.id s.now s.args = .ok row) (threadId : String) :
    s.rowOf threadId = if row.threadId = threadId then some row else none := by
  unfold Save.rowOf
  rw [h]
  by_cases ht : row.threadId = threadId
  · simp [Except.toOption, Option.filter, ht]
  · simp [Except.toOption, Option.filter, ht]

theorem Save.newRow_of_rowOf {s : Save S} {row : Row} {threadId : String} (h : s.rowOf threadId = some row) :
    newRow s.id s.now s.args = .ok row := by
  unfold Save.rowOf at h
  obtain ⟨hrow, -⟩ := Option.filter_eq_some_iff.1 h
  cases hnew : newRow s.id s.now s.args with
  | error e =>
    rw [hnew] at hrow
    cases hrow
  | ok row' =>
    rw [hnew] at hrow
    cases hrow
    rfl

/-- A thread holds the rows saved on it, in the order of the saves. -/
theorem thread_saveAll {T : Table} {saves : List (Save S)} (hids : (saves.map Save.id).Nodup)
    (hfresh : ∀ s ∈ saves, s.id ∉ T.rows.map Row.id) (threadId : String) :
    (saveAll T saves).thread threadId = T.thread threadId ++ savedRows threadId saves := by
  induction saves generalizing T with
  | nil => simp [saveAll, savedRows]
  | cons s saves ih =>
    rw [List.map_cons, List.nodup_cons] at hids
    have hs := hfresh s List.mem_cons_self
    have hrest := fun s' hs' => hfresh s' (List.mem_cons_of_mem s hs')
    simp only [saveAll, savedRows, Table.saveState]
    cases hrow : newRow s.id s.now s.args with
    | error e =>
      have hnone : s.rowOf threadId = none := by
        unfold Save.rowOf
        rw [hrow]
        rfl
      rw [List.filterMap_cons_none hnone]
      exact ih hids.2 hrest
    | ok row =>
      have hid := (newRow_ok hrow).1
      have hnew : row.id ∉ T.rows.map Row.id := hid ▸ hs
      have hfresh' : ∀ s' ∈ saves, s'.id ∉ (T.insert row hnew).rows.map Row.id := by
        intro s' hs' hmem
        simp only [Table.insert, List.map_append, List.mem_append, List.map_cons, List.map_nil,
          List.mem_singleton] at hmem
        rcases hmem with hmem | hmem
        · exact hrest s' hs' hmem
        · exact hids.1 (List.mem_map.2 ⟨s', hs', hmem.trans hid⟩)
      have hrowOf := Save.rowOf_of_newRow hrow threadId
      simp only [dif_neg hnew]
      rw [ih hids.2 hfresh', Table.thread_insert, List.append_assoc]
      by_cases ht : row.threadId = threadId
      · rw [if_pos ht] at hrowOf ⊢
        rw [List.filterMap_cons_some hrowOf]
        rfl
      · rw [if_neg ht] at hrowOf ⊢
        rw [List.filterMap_cons_none hrowOf]
        rfl

theorem map_createdAt (threadId : String) (saves : List (Save S)) :
    (savedRows threadId saves).map Row.createdAt = savedTimes threadId saves := by
  induction saves with
  | nil => rfl
  | cons s saves ih =>
    unfold savedRows savedTimes at ih ⊢
    cases hrow : s.rowOf threadId with
    | none => rw [List.filterMap_cons_none hrow, List.filter_cons_of_neg (by simp [hrow]), ih]
    | some row =>
      rw [List.filterMap_cons_some hrow, List.filter_cons_of_pos (by simp [hrow]), List.map_cons, List.map_cons, ih,
        (newRow_ok (Save.newRow_of_rowOf hrow)).2]

/-! ### Acting on the checkpoints saved last -/

/-- The last row of a list as a claim leaves it. -/
def claimedLast (rows : List Row) (interruptId : String) : List Row :=
  rows.dropLast ++ (rows.getLast?.map fun r =>
    { r with status := "Running", claimedInterrupt := some interruptId }).toList

variable (S) in
/-- `load_state`, `claim_interrupt` and `KeepLast` act on the last of the rows saved on a thread, however ties are
settled. -/
structure ActsOnLast (T : Table) (threadId : String) (rows : List Row) : Prop where
  load (order : Order) (now : Int) :
    (T.loadState order now threadId : Except TakelnError (Option (Loaded S))) = loadFound now threadId rows.getLast?
  claim (select update : Order) (interruptId : String) (last : Row) : rows.getLast? = some last →
    (∀ r ∈ rows, r.resolvedInterrupt ≠ some interruptId) →
    T.claimInterrupt select update threadId interruptId = T.claimLatest update threadId interruptId last
  claimed (select update : Order) (interruptId : String) :
    (T.claimInterrupt select update threadId interruptId).1 = .ok .claimed →
    (T.claimInterrupt select update threadId interruptId).2.thread threadId = claimedLast rows interruptId
  keepLast (order : Order) (n : Nat) (now : Int) : n < 2 ^ 63 →
    (T.deleteCheckpoints order threadId (.keepLast n) now).1 = .ok (rows.length - n) ∧
      (T.deleteCheckpoints order threadId (.keepLast n) now).2.thread threadId = rows.drop (rows.length - n)

theorem actsOnLast_of_sorted {T : Table} {threadId : String}
    (h : (T.thread threadId).Pairwise fun a b => a.createdAt < b.createdAt) :
    ActsOnLast S T threadId (T.thread threadId) where
  load order now := by
    unfold Table.loadState
    rw [Table.latest_of_sorted h]
  claim select update interruptId last hlast hres := by
    have hany : ((T.thread threadId).any fun r => r.resolvedInterrupt == some interruptId) = false := by
      simpa using hres
    unfold Table.claimInterrupt
    rw [hany, Table.latest_of_sorted h, hlast]
    rfl
  claimed select update interruptId hclaimed := by
    obtain ⟨last, hlast, hstatus, hstore⟩ := Table.claimInterrupt_claimed hclaimed
    rw [Table.latest_of_sorted h] at hlast
    obtain ⟨rows, hrows⟩ := List.getLast?_eq_some_iff.1 hlast
    have hupdate := (Table.latest_of_sorted h update).trans hlast
    rw [hstore, Table.thread_claim_self hupdate hrows (Postgres.parseCheckpointStatus_eq_yielded.1 hstatus), hrows]
    simp [claimedLast]
  keepLast order n now hn := by
    have hthread := Table.thread_keepLast_of_sorted h order n
    have hcount := T.delete_fst_add threadId fun r => decide (r.id ∉ T.lastIds order threadId n)
    rw [Table.deleteCheckpoints_keepLast hn]
    rw [hthread, List.length_drop] at hcount
    exact ⟨congrArg Except.ok (by omega), hthread⟩

/-- With a later row that does not have a later time, `KeepLast(1)` may keep another one. -/
theorem not_actsOnLast {T : Table} {threadId : String} {p : List Row} {a b : Row}
    (hthread : T.thread threadId = p ++ [a, b]) (htime : b.createdAt ≤ a.createdAt) :
    ¬ ActsOnLast S T threadId (p ++ [a, b]) := by
  intro hacts
  have hids := T.nodup_ids threadId
  rw [hthread] at hids
  obtain ⟨order, horder⟩ := Sql.Arrangement.exists_limit hids.of_map htime
  have hkept := (hacts.keepLast order 1 0 (by decide)).2
  have hlast : (p ++ [a, b]).drop ((p ++ [a, b]).length - 1) = [b] := by simp
  rw [Table.deleteCheckpoints_keepLast (by decide), Table.thread_keepLast, hthread, hlast] at hkept
  unfold Table.lastIds at hkept
  rw [hthread] at hkept
  rcases horder with ha | hb
  · have ha' : a ∈ [b] := by
      rw [← hkept, List.mem_filter]
      exact ⟨by simp, decide_eq_true (List.mem_map_of_mem ha)⟩
    rw [List.mem_singleton.1 ha', List.map_append, List.nodup_append] at hids
    exact absurd hids.2.1 (by simp)
  · have hb' : b ∈ [b] := List.mem_singleton.2 rfl
    rw [← hkept, List.mem_filter, decide_eq_true_eq] at hb'
    obtain ⟨r, hr, hid⟩ := List.mem_map.1 hb'.2
    have hr' : r ∈ p ++ [a, b] := (order.perm _).mem_iff.1 (List.mem_of_mem_take hr)
    exact hb (List.inj_on_of_nodup_map hids hr' hb'.1 hid ▸ hr)

/-- After any saves the checkpoints saved last on a thread are acted on, if and only if the texts of their clock
readings increase strictly. -/
theorem acts_on_last_iff (saves : List (Save S)) (hids : (saves.map Save.id).Nodup) (threadId : String) :
    (∀ done, done <+: saves → ActsOnLast S (saveAll .empty done) threadId (savedRows threadId done)) ↔
      (savedTimes threadId saves).Pairwise (· < ·) := by
  have hthread : ∀ done, done <+: saves → (saveAll .empty done).thread threadId = savedRows threadId done := by
    intro done hdone
    have hids' : (done.map Save.id).Nodup := hids.sublist (hdone.sublist.map _)
    rw [thread_saveAll hids' fun _ _ h => absurd h List.not_mem_nil]
    rfl
  rw [← map_createdAt, List.pairwise_map]
  constructor
  · intro hacts
    have htrans : IsTrans Row fun a b => a.createdAt < b.createdAt := ⟨fun _ _ _ => lt_trans⟩
    rw [← List.isChain_iff_pairwise, List.isChain_iff_forall_rel_of_append_cons_cons]
    intro a b p s hrows
    by_contra htime
    -- the saves up to the one of `b`
    have hsplit : savedRows threadId saves = (p ++ [a, b]) ++ s := by rw [hrows]; simp
    obtain ⟨done, rest, hsaves, hdone, -⟩ := List.filterMap_eq_append_iff.1 hsplit
    have hprefix : done <+: saves := ⟨rest, hsaves.symm⟩
    have hrowsDone : savedRows threadId done = p ++ [a, b] := hdone
    have hlast := hacts done hprefix
    rw [hrowsDone] at hlast
    exact not_actsOnLast ((hthread done hprefix).trans hrowsDone) (not_lt.1 htime) hlast
  · intro hsorted done hdone
    have hrows : (savedRows threadId done).Sublist (savedRows threadId saves) := hdone.sublist.filterMap _
    have hsorted' := hsorted.sublist hrows
    rw [← hthread done hdone] at hsorted' ⊢
    exact actsOnLast_of_sorted hsorted'

end Saves

section Examples

attribute [local instance] utcTimes noDags askRequests

/-- A save on the thread `t`. -/
def saveAt (id : String) (now : Int) (state : Bool) : Save Bool where
  id := id
  now := now
  args :=
    { threadId := "t", state := state, nextNode := "A", dag := none, status := .complete, yieldRequest := none,
      claimedInterrupt := none, resolvedInterrupt := none, proof := checkpointProof none }

def ticking : List (Save Bool) := [saveAt "c0" 0 false, saveAt "c1" 1 true]

theorem acts_on_last_ticking : ActsOnLast Bool (saveAll .empty ticking) "t" (savedRows "t" ticking) :=
  (acts_on_last_iff ticking (by decide) "t").2 (by decide +kernel) ticking List.prefix_rfl

/-- Two saves in one tick of the clock. -/
def tied : List (Save Bool) := [saveAt "c0" 0 false, saveAt "c1" 0 true]

/-- The clock is set back between two saves. -/
def setBack : List (Save Bool) := [saveAt "c0" 1000000000 false, saveAt "c1" 0 true]

theorem acts_on_last_false :
    ¬ ActsOnLast Bool (saveAll .empty tied) "t" (savedRows "t" tied) ∧
      ¬ ActsOnLast Bool (saveAll .empty setBack) "t" (savedRows "t" setBack) := by
  -- the state that is loaded: of the first save, not of the last
  let state (x : Except TakelnError (Option (Loaded Bool))) : Option Bool := x.toOption.bind fun l => l.map Loaded.state
  constructor
  · intro h
    have hload := congrArg state (h.load (.stable _) 0)
    exact absurd hload (by decide +kernel)
  · intro h
    have hload := congrArg state (h.load (.stable _) 0)
    exact absurd hload (by decide +kernel)

end Examples

end Takeln.Sqlite
