import Takeln.Model.Postgres

/-!
# Claims on PostgreSQL

`claim_interrupt` reads, reads and writes in three statements.  Other clients may claim and save in between, and the
last statement looks only at the status of the latest row, which need not be the one that was read.  So a client that is
told `Claimed` may have set a row to `Running` that asks something else, or whose interrupt is already resolved
(`claimed_on_open_row_false`); `claimed_on_open_row_iff` says when.
-/

namespace Takeln.Postgres

open Effect Prog

/-- The interrupt a `yield_request` column asks for. -/
def askedInterrupt [Serde YieldRequest] (column : Option Value) : Option String :=
  column.bind fun v => ((Serde.fromValue v : Except String YieldRequest).toOption).map YieldRequest.interruptId

/-- The row asks for the interrupt, and no row of the thread resolves it. -/
def Table.Open [Serde YieldRequest] (T : Table) (threadId interruptId : String) (row : Row) : Prop :=
  askedInterrupt row.yieldRequest = some interruptId ∧
    ∀ r ∈ T.thread threadId, r.resolvedInterrupt ≠ some interruptId

/-- The second read of a claim has found this row. -/
def readLatest (threadId : String) (row : Row) : Event sql :=
  ⟨.selectLatest threadId, (.ok (some (row.status, row.yieldRequest, row.claimedInterrupt)) :
    Except String (Option (String × Option Value × Option String)))⟩

/-- A claim turns the row, the latest one of the thread, from `Yielded` to `Running`. -/
def Turns (threadId interruptId : String) (T T' : Table) (row : Row) : Prop :=
  ∃ order, T.latest order threadId = some row ∧ row.status = "Yielded" ∧ T' = T.claim order threadId interruptId

/-- The row a statement inserted into a thread. -/
def inserted (threadId : String) : Event sql → Option Columns
  | ⟨.insert c, (.ok _ : Except String Unit)⟩ => if c.threadId = threadId then some c else none
  | _ => none

/-- The rows some statements inserted into a thread. -/
def insertedInto {ι : Type} (threadId : String) (l : List (Entry sql ι Table)) : List Columns :=
  l.filterMap fun e => inserted threadId e.event

/-! ### What others do to a thread -/

/-- What no claim changes in a row. -/
def Columns.requests (c : Columns) : String × Option Value × Option String :=
  (c.id, c.yieldRequest, c.resolvedInterrupt)

theorem Table.requests_claim (T : Table) (order : Order) (threadId claimed interruptId : String) :
    ((T.claim order claimed interruptId).thread threadId).map (fun r => r.requests) =
      (T.thread threadId).map fun r => r.requests := by
  have hrow (latestId : String) (r : Row) : (claimRow latestId interruptId r).requests = r.requests := by
    unfold claimRow
    split <;> rfl
  cases hlast : T.latest order claimed with
  | none =>
    unfold claim
    rw [hlast]
  | some last =>
    rw [thread_claim hlast, List.map_map]
    simp only [Function.comp_def, hrow]

/-- A statement changes no more than the claims of a thread, and appends what it inserts. -/
theorem requests_of_answers {T T' : Table} {o : Statement} {r : Except String o.Result} (h : Answers T o r T')
    (threadId : String) :
    (T'.thread threadId).map (fun r => r.requests) = (T.thread threadId).map (fun r => r.requests) ++
      (inserted threadId ⟨o, r⟩).toList.map Columns.requests := by
  cases h with
  | failed T o msg =>
    cases o <;> exact (List.append_nil _).symm
  | inserted T c time hid =>
    by_cases hc : c.threadId = threadId <;>
      simp [Table.thread, Table.insert, inserted, List.filter_append, hc]
  | selectedResolved => exact (List.append_nil _).symm
  | selectedLatest => exact (List.append_nil _).symm
  | selectedRow => exact (List.append_nil _).symm
  | updatedClaimed T order claimed interruptId =>
    rw [Table.requests_claim]
    exact (List.append_nil _).symm

theorem requests_of_trail {ι : Type} {T T' : Table} {l : List (Entry sql ι Table)} (h : Trail Answers T l T')
    (threadId : String) :
    (T'.thread threadId).map (fun r => r.requests) =
      (T.thread threadId).map (fun r => r.requests) ++ (insertedInto threadId l).map Columns.requests := by
  induction h with
  | nil T => exact (List.append_nil _).symm
  | @cons T T₁ T' who o r l hsem _ ih =>
    have hcons : insertedInto threadId (⟨who, T, o, r⟩ :: l) =
        (inserted threadId ⟨o, r⟩).toList ++ insertedInto threadId l := by
      cases hin : inserted threadId ⟨o, r⟩ with
      | none => exact List.filterMap_cons_none hin
      | some c => exact List.filterMap_cons_some hin
    rw [ih, requests_of_answers hsem, hcons, List.map_append, List.append_assoc]

/-! ### The statements of a claim -/

/-- The statements of a claim that succeeds. -/
def claimStatements (threadId interruptId : String) (yieldRequest : Option Value) (claimed : Option String) :
    List (Event sql) :=
  [⟨.selectResolved threadId interruptId, (.ok false : Except String Bool)⟩,
    ⟨.selectLatest threadId,
      (.ok (some ("Yielded", yieldRequest, claimed)) : Except String (Option (String × Option Value × Option String)))⟩,
    ⟨.updateClaimed threadId interruptId, (.ok 1 : Except String Nat)⟩]

theorem follows_execute {Q : Type} {π : Protocol sql Q} {q : Q} (o : Statement) (failure : String)
    (Φ : Q → Except TakelnError o.Result → Prop) :
    Follows π (execute o failure) q Φ ↔
      π.allow q o ∧ ∀ r : Except String o.Result,
        Φ (π.next q o r) (r.mapError fun e => .checkpointError s!"{failure}: {e}") := by
  unfold execute
  rw [follows_perform]
  simp only [follows_ofExcept]

section Claimed

variable {threadId interruptId : String}

theorem follows_updateClaim (q : List (Event sql)) :
    Follows (recorder sql) (updateClaim threadId interruptId) q fun q' x =>
      x = .ok .claimed → q' = q ++ [⟨.updateClaimed threadId interruptId, (.ok 1 : Except String Nat)⟩] := by
  unfold updateClaim
  rw [bind_eq, follows_bind, follows_execute]
  refine ⟨trivial, fun r => ?_⟩
  cases r with
  | error e =>
    intro h
    cases h
  | ok n =>
    show Follows _ (if (n : Nat) = 1 then _ else _) _ _
    split
    · rename_i hn
      subst hn
      exact fun _ => rfl
    · intro h
      cases h

theorem follows_claimLatest [Serde YieldRequest] {statusStr : String} {yieldReqVal : Option Value}
    {claimed : Option String} (q : List (Event sql)) :
    Follows (recorder sql) (claimLatest threadId interruptId statusStr yieldReqVal claimed) q fun q' x =>
      x = .ok .claimed → statusStr = "Yielded" ∧ askedInterrupt yieldReqVal = some interruptId ∧
        q' = q ++ [⟨.updateClaimed threadId interruptId, (.ok 1 : Except String Nat)⟩] := by
  unfold claimLatest
  dsimp only
  split
  · intro h
    cases h
  · split
    · split
      · intro h
        cases h
      · intro h
        cases h
    · rename_i hyielded
      have hstatus := parseCheckpointStatus_eq_yielded.1 (not_not.1 hyielded)
      cases yieldReqVal with
      | none =>
        intro h
        cases h
      | some v =>
        show Follows _ (Prog.bind (decode v) _) _ _
        unfold decode
        rw [follows_bind, follows_ofExcept]
        cases hdec : (Serde.fromValue v : Except String YieldRequest) with
        | error e =>
          intro h
          cases h
        | ok request =>
          show Follows _ (if request.interruptId ≠ interruptId then _ else _) _ _
          by_cases hid : request.interruptId = interruptId
          · rw [if_neg (not_not.2 hid)]
            refine (follows_updateClaim q).mono fun q' x h hx => ⟨hstatus, ?_, h hx⟩
            rw [askedInterrupt, Option.bind_some, hdec, ← hid]
            rfl
          · rw [if_pos hid]
            intro h
            cases h

/-- A claim that succeeds found no resolution of the interrupt, then a row that waits for it, and updated a row. -/
theorem follows_claimInterrupt [Serde YieldRequest] :
    Follows (recorder sql) (claimInterrupt threadId interruptId) [] fun q x =>
      x = .ok .claimed → ∃ yieldRequest claimed, q = claimStatements threadId interruptId yieldRequest claimed ∧
        askedInterrupt yieldRequest = some interruptId := by
  unfold claimInterrupt
  rw [bind_eq, follows_bind, follows_execute]
  refine ⟨trivial, fun r => ?_⟩
  cases r with
  | error e =>
    intro h
    cases h
  | ok resolved =>
    cases (resolved : Bool) with
    | true =>
      intro h
      cases h
    | false =>
      show Follows _ (Prog.bind (execute _ _) _) _ _
      rw [follows_bind, follows_execute]
      refine ⟨trivial, fun r => ?_⟩
      cases r with
      | error e =>
        intro h
        cases h
      | ok latest =>
        cases (latest : Option (String × Option Value × Option String)) with
        | none =>
          intro h
          cases h
        | some row =>
          obtain ⟨statusStr, yieldReqVal, claimed⟩ := row
          refine (follows_claimLatest _).mono fun q' x h hx => ?_
          obtain ⟨rfl, hasks, rfl⟩ := h hx
          exact ⟨yieldReqVal, claimed, rfl, hasks⟩

end Claimed

/-! ### The claim -/

section Main

variable {ι : Type} [DecidableEq ι] {P₀ P : ι → Prog sql TakelnError ClaimResult} {T₀ T : Table}
  {tr : List (Entry sql ι Table)} {me : ι} {threadId interruptId : String}

theorem answers_selectResolved {T T' : Table} (h : Answers T (.selectResolved threadId interruptId)
    (.ok false : Except String Bool) T') :
    T' = T ∧ ∀ row ∈ T.thread threadId, row.resolvedInterrupt ≠ some interruptId := by
  generalize hr : (.ok false : Except String Bool) = r at h
  cases h with
  | failed => cases hr
  | selectedResolved =>
    refine ⟨rfl, fun row hrow heq => ?_⟩
    have hany := List.any_eq_false.1 (Except.ok.inj hr).symm row hrow
    exact hany (beq_iff_eq.2 heq)

theorem answers_selectLatest {T T' : Table} {x : Option (String × Option Value × Option String)}
    (h : Answers T (.selectLatest threadId) (.ok x : Except String
      (Option (String × Option Value × Option String))) T') :
    T' = T ∧ ∃ order, x = (T.latest order threadId).map fun r => (r.status, r.yieldRequest, r.claimedInterrupt) := by
  generalize hr : (.ok x : Except String (Option (String × Option Value × Option String))) = r at h
  cases h with
  | failed => cases hr
  | selectedLatest T order => exact ⟨rfl, order, Except.ok.inj hr⟩

theorem answers_updateClaimed {T T' : Table} {n : Nat}
    (h : Answers T (.updateClaimed threadId interruptId) (.ok n : Except String Nat) T') :
    ∃ order, n = T.claimable order threadId ∧ T' = T.claim order threadId interruptId := by
  generalize hr : (.ok n : Except String Nat) = r at h
  cases h with
  | failed => cases hr
  | updatedClaimed T order => exact ⟨order, Except.ok.inj hr, rfl⟩

/-- An update that changed a row has turned one. -/
theorem turns_of_answers {T T' : Table}
    (h : Answers T (.updateClaimed threadId interruptId) (.ok 1 : Except String Nat) T') :
    ∃ row, Turns threadId interruptId T T' row := by
  obtain ⟨order, hone, hT'⟩ := answers_updateClaimed h
  obtain ⟨row, hrow, hstatus⟩ := Table.latest_of_claimable hone.symm
  exact ⟨row, order, hrow, hstatus, hT'⟩

/-- A row of the thread asks what it asked before. -/
theorem asked_eq {T T' : Table} {cs : List Columns} {row row' : Row}
    (hrequests : (T'.thread threadId).map (fun r => r.requests) =
      (T.thread threadId).map (fun r => r.requests) ++ cs.map Columns.requests)
    (hrow : row ∈ T.thread threadId) (hrow' : row' ∈ T'.thread threadId) (hid : row'.id = row.id) :
    row'.yieldRequest = row.yieldRequest := by
  have hmem : row.requests ∈ (T'.thread threadId).map fun r => r.requests := by
    rw [hrequests]
    exact List.mem_append_left _ (List.mem_map_of_mem (f := fun r : Row => r.requests) hrow)
  obtain ⟨r, hr, heq⟩ := List.mem_map.1 hmem
  have hsame : r.id = row'.id := (congrArg Prod.fst heq).trans hid.symm
  rw [← Table.eq_of_id_eq (Table.mem_thread.1 hr).1 (Table.mem_thread.1 hrow').1 hsame]
  exact congrArg (fun x => x.2.1) heq

theorem unresolved_iff {T T' : Table} {cs : List Columns}
    (hrequests : (T'.thread threadId).map (fun r => r.requests) =
      (T.thread threadId).map (fun r => r.requests) ++ cs.map Columns.requests)
    (hbefore : ∀ row ∈ T.thread threadId, row.resolvedInterrupt ≠ some interruptId) :
    (∀ row ∈ T'.thread threadId, row.resolvedInterrupt ≠ some interruptId) ↔
      ∀ c ∈ cs, c.resolvedInterrupt ≠ some interruptId := by
  have hres : ∀ c c' : Columns, c.requests = c'.requests → c.resolvedInterrupt = c'.resolvedInterrupt :=
    fun _ _ h => congrArg (fun x => x.2.2) h
  constructor
  · intro h c hc
    have hmem : c.requests ∈ (T'.thread threadId).map fun r => r.requests := by
      rw [hrequests]
      exact List.mem_append_right _ (List.mem_map_of_mem hc)
    obtain ⟨row, hrow, heq⟩ := List.mem_map.1 hmem
    rw [← hres _ _ heq]
    exact h row hrow
  · intro h row hrow
    have hmem : row.requests ∈ (T'.thread threadId).map fun r => r.requests :=
      List.mem_map_of_mem (f := fun r : Row => r.requests) hrow
    rw [hrequests] at hmem
    rcases List.mem_append.1 hmem with hold | hnew
    · obtain ⟨row', hrow', heq⟩ := List.mem_map.1 hold
      rw [← hres _ _ heq]
      exact hbefore row' hrow'
    · obtain ⟨c, hc, heq⟩ := List.mem_map.1 hnew
      rw [← hres _ _ heq]
      exact h c hc

/-- A client is told `Claimed` after a check, a read that finds a row, and an update that turns a row.  The row it turns
asks for the interrupt, and nothing resolves it, exactly if no row saved since the check resolves the interrupt and, if
the update turns another row than the read has found, this one asks for it, too. -/
theorem claimed_on_open_row_iff [Serde YieldRequest] (hI : Interleaving Answers P₀ T₀ tr P T)
    (hme : P₀ me = claimInterrupt threadId interruptId) (hret : P me = .ret .claimed) :
    ∃ l₁ check l₂ read l₃ update l₄, tr = l₁ ++ check :: (l₂ ++ read :: (l₃ ++ update :: l₄)) ∧
      (check.who = me ∧ check.op = .selectResolved threadId interruptId) ∧
      (update.who = me ∧ update.op = .updateClaimed threadId interruptId) ∧
      ∃ found order turned T₁,
        (read.who = me ∧ read.event = readLatest threadId found ∧ read.world.latest order threadId = some found) ∧
        Turns threadId interruptId update.world T₁ turned ∧ Trail Answers T₁ l₄ T ∧
        (update.world.Open threadId interruptId turned ↔
          (∀ c ∈ insertedInto threadId (l₂ ++ read :: l₃), c.resolvedInterrupt ≠ some interruptId) ∧
            (turned.id ≠ found.id → askedInterrupt turned.yieldRequest = some interruptId)) := by
  have hfol := (hI.allow_own (hme ▸ follows_claimInterrupt)).1
  rw [hret, follows_ret, after_recorder] at hfol
  obtain ⟨yieldRequest, claimed, hown, hasked⟩ := hfol rfl
  -- its three statements, with what the others do in between
  obtain ⟨l₁, check, l', rfl, hcheck, hcev, hown'⟩ := exists_of_own_eq_cons hown
  obtain ⟨l₂, read, l'', rfl, hread, hrev, hown''⟩ := exists_of_own_eq_cons hown'
  obtain ⟨l₃, update, l₄, rfl, hupdate, huev, _⟩ := exists_of_own_eq_cons hown''
  obtain ⟨_, T₁, hchecked, htrail₁⟩ := hI.trail.split
  obtain ⟨htrail₂, T₂, hreadsem, htrail₃⟩ := htrail₁.split
  obtain ⟨htrail₄, T₃, hupdated, htrail₅⟩ := htrail₃.split
  obtain ⟨who₁, check, o₁, r₁⟩ := check
  obtain ⟨who₂, read, o₂, r₂⟩ := read
  obtain ⟨who₃, update, o₃, r₃⟩ := update
  cases hcev
  cases hrev
  cases huev
  refine ⟨l₁, _, l₂, _, l₃, _, l₄, rfl, ⟨hcheck, rfl⟩, ⟨hupdate, rfl⟩, ?_⟩
  obtain ⟨rfl, hunresolved⟩ := answers_selectResolved hchecked
  obtain ⟨rfl, order, hfound⟩ := answers_selectLatest hreadsem
  obtain ⟨found, hlatest, hcols⟩ := Option.map_eq_some_iff.1 hfound.symm
  obtain ⟨turned, hturns⟩ := turns_of_answers hupdated
  have hasks : askedInterrupt found.yieldRequest = some interruptId := by
    rw [← hasked]
    exact congrArg (fun x => askedInterrupt x.2.1) hcols
  have hevent : (⟨.selectLatest threadId, (.ok (some ("Yielded", yieldRequest, claimed)) :
      Except String (Option (String × Option Value × Option String)))⟩ : Event sql) = readLatest threadId found := by
    unfold readLatest
    rw [hcols]
  refine ⟨found, order, turned, T₃, ⟨hread, hevent, hlatest⟩, hturns, htrail₅, ?_⟩
  unfold Table.Open
  rw [unresolved_iff (requests_of_trail (htrail₂.append (.cons hreadsem htrail₄)) threadId) hunresolved, and_comm]
  refine and_congr_right fun _ => ⟨fun h _ => h, fun h => ?_⟩
  by_cases hid : turned.id = found.id
  · obtain ⟨_, hturned, -⟩ := hturns
    rw [asked_eq (requests_of_trail htrail₄ threadId) (Table.mem_thread.2 (Table.mem_of_latest hlatest))
      (Table.mem_thread.2 (Table.mem_of_latest hturned)) hid]
    exact hasks
  · exact h hid

end Main

/-! ### Another client in between -/

section Examples

/-- A field of an object that holds a text. -/
def required (v : Value) (field : String) : Except String String :=
  match v.get field with
  | some (.string s) => .ok s
  | some _ => .error "invalid type, expected a string"
  | none => .error s!"missing field `{field}`"

/-- The encoding `serde` derives for a yield request. -/
local instance : Serde YieldRequest where
  toValue r := .ok (.object
    [("interrupt_id", .string r.interruptId), ("message", .string r.message),
      ("payload_ref", match r.payloadRef with | some p => .string p | none => .null),
      ("resume_mode", .string (match r.resumeMode with | .reEntry => "ReEntry" | .handoff => "Handoff")),
      ("schema", r.schema.getD .null)])
  fromValue v := do
    let interruptId ← required v "interrupt_id"
    let message ← required v "message"
    let mode ← required v "resume_mode"
    let resumeMode ← if mode = "ReEntry" then .ok .reEntry else if mode = "Handoff" then .ok .handoff
      else .error s!"unknown variant `{mode}`, expected `ReEntry` or `Handoff`"
    let payloadRef ← match v.get "payload_ref" with
      | some (.string p) => .ok (some p)
      | some .null => .ok none
      | none => .ok none
      | some _ => .error "invalid type, expected a string"
    let schema := match v.get "schema" with
      | some .null => none
      | schema => schema
    .ok { interruptId, message, schema, resumeMode, payloadRef }

/-- No snapshot is saved here. -/
local instance : Serde DAG where
  toValue _ := .error "no snapshot"
  fromValue _ := .error "no snapshot"

/-- A checkpoint of the thread `t`. -/
def save (state : Nat) (nextNode : String) (status : CheckpointStatus) (yieldRequest : Option YieldRequest)
    (resolvedInterrupt : Option String) : SaveArgs Nat where
  threadId := "t"
  state := state
  nextNode := nextNode
  dag := none
  status := status
  yieldRequest := yieldRequest
  claimedInterrupt := none
  resolvedInterrupt := resolvedInterrupt
  proof := checkpointProof none

/-- Two clients resume the thread with an answer to `q`: one has only claimed it, the other one claims it, loads the
state, saves the node that asked as done, and then the next node asks `r`. -/
def rivals : Bool → Prog sql TakelnError ClaimResult
  | false => claimInterrupt "t" "q"
  | true => do
    let claim ← claimInterrupt "t" "q"
    let _ ← loadState (S := Nat) "t"
    let _ ← saveState "c1" (save 1 "B" .complete none (some "q"))
    let _ ← saveState "c2" (save 1 "B" .yielded (some (.simple "r")) none)
    return claim

/-- The thread waits at `A` for `q`. -/
def asking : Table :=
  ((Prog.exec database (saveState "c0" (save 0 "A" .yielded (some (.simple "q")) none)) .empty).map Run.world).getD
    .empty

/-- The first client checks and reads, then the other one goes all the way, then the first one updates. -/
def raced : List (Entry sql Bool Table) × (Bool → Prog sql TakelnError ClaimResult) × Table :=
  (schedule database ([false, false] ++ List.replicate 6 true ++ [false]) [] rivals asking).get (by decide +kernel)

theorem schedule_raced :
    schedule database ([false, false] ++ List.replicate 6 true ++ [false]) [] rivals asking = some raced :=
  (Option.some_get _).symm

theorem raced_interleaving : Interleaving Answers rivals asking raced.1 raced.2.1 raced.2.2 :=
  (Interleaving.start.schedule schedule_raced).mono database_answers

def isClaimed : Prog sql TakelnError ClaimResult → Bool
  | .ret .claimed => true
  | _ => false

theorem eq_of_isClaimed {p : Prog sql TakelnError ClaimResult} (h : isClaimed p = true) : p = .ret .claimed := by
  unfold isClaimed at h
  split at h
  · rfl
  · cases h

theorem raced_claimed : raced.2.1 false = .ret .claimed := eq_of_isClaimed (by decide +kernel)

/-- When the first client updates, the latest row asks `r`. -/
theorem raced_steps :
    ∃ check read l₃ update l₄, raced.1 = [] ++ check :: ([] ++ read :: (l₃ ++ update :: l₄)) ∧
      (check.who = false ∧ check.op = .selectResolved "t" "q") ∧ (read.who = false ∧ read.op = .selectLatest "t") ∧
      (update.who = false ∧ update.event = ⟨.updateClaimed "t" "q", (.ok 1 : Except String Nat)⟩) ∧
      update.world.InOrder ∧
      ((update.world.thread "t").getLast?.bind fun row => askedInterrupt row.yieldRequest) = some "r" := by
  refine ⟨raced.1.head (List.ne_nil_of_length_pos (by decide +kernel)),
    raced.1.tail.head (List.ne_nil_of_length_pos (by decide +kernel)), raced.1.tail.tail.take 6,
    (raced.1.tail.tail.drop 6).head (List.ne_nil_of_length_pos (by decide +kernel)), (raced.1.tail.tail.drop 6).tail,
    ?_, ⟨by decide +kernel, rfl⟩, ⟨by decide +kernel, rfl⟩, ⟨by decide +kernel, rfl⟩, ?_, by decide +kernel⟩
  · rw [List.cons_head_tail, List.take_append_drop, List.nil_append, List.cons_head_tail, List.nil_append,
      List.cons_head_tail]
  · unfold Table.InOrder
    decide +kernel

theorem claimed_on_open_row_false :
    ∃ l₁ check l₂ read l₃ update l₄ turned T₁,
      Interleaving Answers rivals asking (l₁ ++ check :: (l₂ ++ read :: (l₃ ++ update :: l₄))) raced.2.1 raced.2.2 ∧
      rivals false = claimInterrupt "t" "q" ∧ raced.2.1 false = .ret .claimed ∧
      (check.who = false ∧ check.op = .selectResolved "t" "q") ∧ (read.who = false ∧ read.op = .selectLatest "t") ∧
      (update.who = false ∧ update.op = .updateClaimed "t" "q") ∧
      Turns "t" "q" update.world T₁ turned ∧ Trail Answers T₁ l₄ raced.2.2 ∧ ¬ update.world.Open "t" "q" turned := by
  obtain ⟨check, read, l₃, ⟨who, world, o, r⟩, l₄, htr, hcheck, hread, ⟨hwho, hev⟩, hinOrder, hlatest⟩ := raced_steps
  have hI := raced_interleaving
  rw [htr] at hI
  cases hev
  have htrail := hI.trail
  rw [List.nil_append, List.nil_append, ← List.cons_append, ← List.cons_append] at htrail
  obtain ⟨-, T₁, hupdated, hrest⟩ := htrail.split
  obtain ⟨turned, hturns⟩ := turns_of_answers hupdated
  refine ⟨[], check, [], read, l₃, _, l₄, turned, T₁, hI, rfl, raced_claimed, hcheck, hread, ⟨hwho, rfl⟩, hturns, hrest,
    ?_⟩
  obtain ⟨order, hturned, -⟩ := hturns
  rintro ⟨hasked, -⟩
  rw [hinOrder.latest_eq] at hturned
  rw [hturned, Option.bind_some, hasked] at hlatest
  exact absurd hlatest (by decide)

theorem claimed_on_open_row_raced :
    ∃ l₁ check l₂ read l₃ update l₄, raced.1 = l₁ ++ check :: (l₂ ++ read :: (l₃ ++ update :: l₄)) ∧
      (check.who = false ∧ check.op = .selectResolved "t" "q") ∧
      (update.who = false ∧ update.op = .updateClaimed "t" "q") ∧
      ∃ found order turned T₁,
        (read.who = false ∧ read.event = readLatest "t" found ∧ read.world.latest order "t" = some found) ∧
        Turns "t" "q" update.world T₁ turned ∧ Trail Answers T₁ l₄ raced.2.2 ∧
        (update.world.Open "t" "q" turned ↔
          (∀ c ∈ insertedInto "t" (l₂ ++ read :: l₃), c.resolvedInterrupt ≠ some "q") ∧
            (turned.id ≠ found.id → askedInterrupt turned.yieldRequest = some "q")) :=
  claimed_on_open_row_iff raced_interleaving rfl raced_claimed

end Examples

end Takeln.Postgres
