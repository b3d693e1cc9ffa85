import Takeln.Builder.Repeats

/-!
# Why a build fails

`build` checks in this order: that all step types are allowed, that every dependency is a step type, and that all
entries can be placed.  It reports the first check that fails: the first one with all offenders, the second one with the
first missing dependency of the first entry that has one (`build_eq_error_iff`).  The counters of the last check may
underflow before it is through.
-/

namespace Takeln

namespace DAGBuilder

variable {b : DAGBuilder} {newId : Nat → Uuid} {overflowChecks : Bool} {nodes : List DAGNode}

/-- Some entry has the step type. -/
def Occurs (b : DAGBuilder) (name : String) : Prop := ∃ e ∈ b.entries, e.1 = name

/-- The step types that are not allowed, in the order of the entries. -/
def offenders (b : DAGBuilder) (allowed : BTreeSet) : List String :=
  (b.entries.map Prod.fst).filter fun stepType => stepType ∉ allowed.1

/-- The complaint about them, with what is allowed. -/
def complaint (b : DAGBuilder) (allowed : BTreeSet) : String :=
  let declared := if allowed.1 = [] then "none declared" else ", ".intercalate allowed.1
  let named := ", ".intercalate (b.offenders allowed)
  s!"step type(s) not allowed: {named} (allowed: {declared})"

/-- The first dependency of an entry that is no step type. -/
structure Misses (b : DAGBuilder) (entry : String × List String) (dep : String) : Prop where
  first : ∃ deps deps', entry.2 = deps ++ dep :: deps' ∧ ∀ d ∈ deps, b.Occurs d
  missing : ¬ b.Occurs dep

/-- Why a build fails. -/
inductive Fails (overflowChecks : Bool) (b : DAGBuilder) : BuildFailure → Prop
  | notAllowed {allowed : BTreeSet} (hallowed : b.allowedStepTypes = some allowed) (hsome : b.offenders allowed ≠ []) :
    Fails overflowChecks b (.error (b.complaint allowed))
  | missing {before after : List (String × List String)} {stepType dep : String} {deps : List String}
    (hallowed : ∀ allowed, b.allowedStepTypes = some allowed → b.offenders allowed = [])
    (hentries : b.entries = before ++ (stepType, deps) :: after) (hbefore : ∀ e ∈ before, ∀ d ∈ e.2, b.Occurs d)
    (hmisses : b.Misses (stepType, deps) dep) :
    Fails overflowChecks b (.error s!"Dependency '{dep}' not found for node '{stepType}'")
  | cyclic (hb : b.Resolvable) (hfits : overflowChecks = true → b.NeverExceeds)
    (hleft : ∃ i, ¬ Placeable b.lists b.need i) : Fails overflowChecks b (.error "Cycle detected in DAG")
  | panicked (hb : b.Resolvable) (hchecks : overflowChecks = true) (hexceeds : ¬ b.NeverExceeds) :
    Fails overflowChecks b .panicked

/-! ### The names -/

theorem offenders_eq_nil_iff {allowed : BTreeSet} :
    b.offenders allowed = [] ↔ ∀ e ∈ b.entries, e.1 ∈ allowed.1 := by
  simp [offenders, List.filter_eq_nil_iff]

theorem checkStepTypes_eq_error_iff {e : BuildFailure} : b.checkStepTypes = .error e ↔
    ∃ allowed, b.allowedStepTypes = some allowed ∧ b.offenders allowed ≠ [] ∧ e = .error (b.complaint allowed) := by
  unfold checkStepTypes
  cases b.allowedStepTypes with
  | none => simp
  | some allowed =>
    change (if b.offenders allowed = [] then (Except.ok () : Except BuildFailure Unit)
      else .error (.error (b.complaint allowed))) = .error e ↔ _
    by_cases hnone : b.offenders allowed = []
    · rw [if_pos hnone]
      simp [hnone]
    · rw [if_neg hnone]
      constructor
      · intro h
        cases h
        exact ⟨allowed, rfl, hnone, rfl⟩
      · rintro ⟨_, hsome, -, rfl⟩
        cases hsome
        rfl

theorem resolveDep_eq_error_iff {ids : String → Option Uuid} {stepType dep : String} {e : BuildFailure} :
    resolveDep ids stepType dep = .error e ↔
      ids dep = none ∧ e = .error s!"Dependency '{dep}' not found for node '{stepType}'" := by
  unfold resolveDep
  cases ids dep with
  | none => simp [eq_comm]
  | some id => simp

theorem nameToId_eq_none_iff {name : String} : b.nameToId newId name = none ↔ ¬ b.Occurs name := by
  have hsome : (∃ id, b.nameToId newId name = some id) ↔ ∃ e ∈ b.entries, e.1 = name := nameToId_isSome
  unfold Occurs
  rw [← hsome]
  simp [Option.eq_none_iff_forall_ne_some]

/-- An entry of the builder fails as its first missing dependency. -/
theorem resolveEntry_eq_error_iff {entry : String × List String} (hentry : entry ∈ b.entries) {e : BuildFailure} :
    resolveEntry (b.nameToId newId) entry = .error e ↔
      ∃ dep, b.Misses entry dep ∧ e = .error s!"Dependency '{dep}' not found for node '{entry.1}'" := by
  obtain ⟨id, hid⟩ : ∃ id, b.nameToId newId entry.1 = some id := nameToId_isSome.2 ⟨entry, hentry, rfl⟩
  have hdeps : resolveEntry (b.nameToId newId) entry = .error e ↔
      entry.2.mapM (resolveDep (b.nameToId newId) entry.1) = .error e := by
    unfold resolveEntry
    cases entry.2.mapM (resolveDep (b.nameToId newId) entry.1) with
    | error e' => simp [bind, Except.bind]
    | ok deps => simp [bind, Except.bind, hid]
  have hoccurs {d : String} : (∃ id, resolveDep (b.nameToId newId) entry.1 d = .ok id) ↔ b.Occurs d := by
    simp only [resolveDep_eq_ok, nameToId_isSome]
    rfl
  rw [hdeps, mapM_eq_error_iff]
  simp only [hoccurs, resolveDep_eq_error_iff, nameToId_eq_none_iff]
  constructor
  · rintro ⟨deps, dep, deps', hsplit, hfirst, hmissing, rfl⟩
    exact ⟨dep, ⟨⟨deps, deps', hsplit, hfirst⟩, hmissing⟩, rfl⟩
  · rintro ⟨dep, ⟨⟨deps, deps', hsplit, hfirst⟩, hmissing⟩, rfl⟩
    exact ⟨deps, dep, deps', hsplit, hfirst, hmissing, rfl⟩

/-- The second pass fails at the first entry with a missing dependency. -/
theorem mapM_resolveEntry_eq_error_iff {e : BuildFailure} :
    b.entries.mapM (resolveEntry (b.nameToId newId)) = .error e ↔
      ∃ before entry after dep, b.entries = before ++ entry :: after ∧ (∀ e ∈ before, ∀ d ∈ e.2, b.Occurs d) ∧
        b.Misses entry dep ∧ e = .error s!"Dependency '{dep}' not found for node '{entry.1}'" := by
  rw [mapM_eq_error_iff]
  constructor
  · rintro ⟨before, entry, after, hentries, hbefore, herror⟩
    have hentry : entry ∈ b.entries := by simp [hentries]
    obtain ⟨dep, hmisses, he⟩ := (resolveEntry_eq_error_iff hentry).1 herror
    refine ⟨before, entry, after, dep, hentries, fun e' he' d hd => ?_, hmisses, he⟩
    exact nameToId_isSome.1 ((resolveEntry_ok_iff.1 (hbefore e' he')).2 d hd)
  · rintro ⟨before, entry, after, dep, hentries, hbefore, hmisses, he⟩
    have hentry : entry ∈ b.entries := by simp [hentries]
    refine ⟨before, entry, after, hentries, fun e' he' => ?_, (resolveEntry_eq_error_iff hentry).2 ⟨dep, hmisses, he⟩⟩
    have hmem : e' ∈ b.entries := by simp [hentries, he']
    have hname : ∃ id, b.nameToId newId e'.1 = some id := nameToId_isSome.2 ⟨e', hmem, rfl⟩
    exact resolveEntry_ok_iff.2 ⟨hname, fun d hd => nameToId_isSome.2 (hbefore e' he' d hd)⟩

/-- The names are resolved, or the first failure is reported. -/
theorem resolve_eq_error_iff {e : BuildFailure} : b.resolve newId = .error e ↔
    (∃ allowed, b.allowedStepTypes = some allowed ∧ b.offenders allowed ≠ [] ∧ e = .error (b.complaint allowed)) ∨
      (∀ allowed, b.allowedStepTypes = some allowed → b.offenders allowed = []) ∧
        ∃ before entry after dep, b.entries = before ++ entry :: after ∧
          (∀ e ∈ before, ∀ d ∈ e.2, b.Occurs d) ∧ b.Misses entry dep ∧
          e = .error s!"Dependency '{dep}' not found for node '{entry.1}'" := by
  have hallowed : b.checkStepTypes = .ok () ↔
      ∀ allowed, b.allowedStepTypes = some allowed → b.offenders allowed = [] := by
    simp only [checkStepTypes_eq_ok, offenders_eq_nil_iff]
  rw [← checkStepTypes_eq_error_iff, ← hallowed, ← @mapM_resolveEntry_eq_error_iff b newId]
  unfold resolve
  cases b.checkStepTypes with
  | error e' => simp [bind, Except.bind]
  | ok _ => simp [bind, Except.bind]

/-! ### The worklist -/

/-- With its names resolved a build panics if some entry lists too many entries that can be placed, and else finds a
cycle if some entry cannot be placed. -/
theorem build_of_resolved (hfresh : Function.Injective newId) (h : b.resolve newId = .ok nodes) {e : BuildFailure} :
    b.build newId overflowChecks = .error e ↔
      (overflowChecks = true ∧ ¬ b.NeverExceeds ∧ e = .panicked) ∨
        ((overflowChecks = true → b.NeverExceeds) ∧ (∃ i, ¬ Placeable b.lists b.need i) ∧
          e = .error "Cycle detected in DAG") := by
  obtain ⟨hdesc, -⟩ := resolve_spec hfresh h
  rw [build_of_resolve h]
  rcases topologicalSort_spec overflowChecks hdesc b.fits need_lt with ⟨s, hs, hpanic⟩ | ⟨s, placed, hs, hplacing⟩
  · rw [hs]
    obtain ⟨l, i, hlegal, hi⟩ := hpanic.exceeds
    have hexceeds : ¬ b.NeverExceeds := fun h => absurd (h l hlegal i) (Nat.not_le.2 hi)
    simp [verdict, hpanic.checks, hexceeds, eq_comm]
  · have hfits (hchecks : overflowChecks = true) : b.NeverExceeds := fun l hlegal i =>
      (hplacing.countP_le hlegal i).trans (hplacing.checked hchecks i)
    have hvisited := hplacing.visited_eq_length_iff hdesc
    rw [hs]
    by_cases hall : s.visited = nodes.length
    · have hverdict : verdict nodes (.ok s) = .ok ⟨nodes⟩ := if_pos hall
      rw [hverdict]
      refine iff_of_false (by simp) ?_
      rintro (⟨hchecks, hexceeds, -⟩ | ⟨-, ⟨i, hi⟩, -⟩)
      · exact hexceeds (hfits hchecks)
      · exact hi (hvisited.1 hall i)
    · have hverdict : verdict nodes (.ok s) = .error (.error "Cycle detected in DAG") := if_neg hall
      have hleft : ∃ i, ¬ Placeable b.lists b.need i := not_forall.1 fun hplaceable => hall (hvisited.2 hplaceable)
      rw [hverdict]
      constructor
      · intro he
        cases he
        exact Or.inr ⟨hfits, hleft, rfl⟩
      · rintro (⟨hchecks, hexceeds, -⟩ | ⟨-, -, rfl⟩)
        · exact absurd (hfits hchecks) hexceeds
        · rfl

/-- A build that fails reports the first of its checks that fails.  It panics only with checks for overflow, where some
entry lists more entries of a legal order than its list is long. -/
theorem build_eq_error_iff (hfresh : Function.Injective newId) {e : BuildFailure} :
    b.build newId overflowChecks = .error e ↔ b.Fails overflowChecks e := by
  have hresolvable : b.Resolvable ↔
      (∀ allowed, b.allowedStepTypes = some allowed → b.offenders allowed = []) ∧
        ∀ entry ∈ b.entries, ∀ d ∈ entry.2, b.Occurs d := by
    simp only [offenders_eq_nil_iff]
    exact ⟨fun h => ⟨h.allowed, h.occurs⟩, fun h => ⟨h.1, h.2⟩⟩
  cases hnames : b.resolve newId with
  | error e' =>
    have hnot : ¬ b.Resolvable := by
      intro hb
      obtain ⟨nodes, hnodes⟩ := resolve_ok_iff.2 hb
      rw [hnames] at hnodes
      cases hnodes
    have hbuild : b.build newId overflowChecks = .error e' := by
      unfold build
      rw [hnames]
      rfl
    have hsame : b.build newId overflowChecks = .error e ↔ b.resolve newId = .error e := by
      rw [hbuild, hnames]
      simp
    rw [hsame, resolve_eq_error_iff]
    constructor
    · rintro (⟨allowed, hallowed, hsome, rfl⟩ |
        ⟨hallowed, before, ⟨stepType, deps⟩, after, dep, hentries, hbefore, hmisses, rfl⟩)
      · exact .notAllowed hallowed hsome
      · exact .missing hallowed hentries hbefore hmisses
    · intro h
      cases h with
      | notAllowed hallowed hsome => exact Or.inl ⟨_, hallowed, hsome, rfl⟩
      | missing hallowed hentries hbefore hmisses =>
        exact Or.inr ⟨hallowed, _, _, _, _, hentries, hbefore, hmisses, rfl⟩
      | cyclic hb => exact absurd hb hnot
      | panicked hb => exact absurd hb hnot
  | ok nodes =>
    have hb : b.Resolvable := resolve_ok_iff.1 ⟨nodes, hnames⟩
    obtain ⟨hnone, hoccurs⟩ := hresolvable.1 hb
    rw [build_of_resolved hfresh hnames]
    constructor
    · rintro (⟨hchecks, hexceeds, rfl⟩ | ⟨hfits, hleft, rfl⟩)
      · exact .panicked hb hchecks hexceeds
      · exact .cyclic hb hfits hleft
    · intro h
      cases h with
      | notAllowed hallowed hsome => exact absurd (hnone _ hallowed) hsome
      | missing _ hentries _ hmisses =>
        obtain ⟨_, _, hsplit, -⟩ := hmisses.first
        have hentry := hentries ▸ List.mem_append_right _ List.mem_cons_self
        have hdep := hsplit ▸ List.mem_append_right _ List.mem_cons_self
        exact absurd (hoccurs _ hentry _ hdep) hmisses.missing
      | cyclic _ hfits hleft => exact Or.inr ⟨hfits, hleft, rfl⟩
      | panicked _ hchecks hexceeds => exact Or.inl ⟨hchecks, hexceeds, rfl⟩

/-- Two typos, and a dependency that is missing, too. -/
def misspelt : DAGBuilder :=
  ⟨[("fetsh", []), ("parse", ["fetch"]), ("parze", [])], some ⟨["fetch", "parse"], by decide⟩, by decide, by decide⟩

theorem build_eq_error_misspelt :
    misspelt.Fails true (.error "step type(s) not allowed: fetsh, parze (allowed: fetch, parse)") :=
  (build_eq_error_iff Function.injective_id).1 (by decide +kernel)

end DAGBuilder

end Takeln
