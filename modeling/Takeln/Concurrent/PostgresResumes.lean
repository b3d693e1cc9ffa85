import Takeln.Concurrent.PostgresWinner
import Takeln.Model.PostgresService
import Takeln.Stores.Checkpointers
import Takeln.Threads.Continuity

/-!
# Resumes on PostgreSQL

Any number of calls run on one PostgreSQL checkpointer, and others may execute statements in the middle of each of their
operations.  A `resume_with_input` that calls a node or saves has turned a row to `Running` before, and no two of them
have turned the same one (`resumes_exclusive`).
-/

namespace Takeln.Postgres

open Effect Prog

variable {S : Type}

/-! ### The course of a resume -/

/-- How far a resume with input has come: it claims its interrupt, then loads. -/
inductive Course (A : Type)
  | idle
  | claimed
  | loaded (a : A)

/-- After something was loaded. -/
def Course.load {A : Type} (a : A) : Course A → Course A
  | idle => idle
  | _ => loaded a

/-- A resume with input claims its interrupt, loads a checkpoint that asks for it, and only then calls nodes and
saves. -/
def answering (threadId interruptId : String) : Protocol (ops S) (Course (Loaded S)) where
  allow
    | q, .claimInterrupt t n => q = .idle ∧ t = threadId ∧ n = interruptId
    | q, .loadState t => t = threadId ∧ ∀ l, q ≠ .loaded l
    | q, .callNode _ _ _ _ =>
      ∃ l, q = .loaded l ∧ l.info.yieldRequest.map YieldRequest.interruptId = some interruptId
    | q, .saveStateBound _ => ∃ l, q = .loaded l
    | _, _ => True
  next
    | _, .claimInterrupt _ _, .ok .claimed => .claimed
    | q, .loadState _, .ok (some l) => q.load l
    | q, _, _ => q

section Answering

variable [External] [State S] {g : Graph S} {threadId interruptId : String} {cancellation : Bool} {input : Value}
  {context : ResumeContext}

theorem resumeWithInput_answering :
    Follows (answering threadId interruptId) (g.resumeWithInput threadId cancellation interruptId input context) .idle
      fun _ _ => True := by
  refine ⟨⟨rfl, rfl, rfl⟩, fun r => ?_⟩
  rcases r with e | claim
  · trivial
  refine ⟨⟨rfl, fun l => by cases claim <;> simp [answering]⟩, fun r => ?_⟩
  rcases r with e | _ | l
  · trivial
  · trivial
  cases claim with
  | inProgress => trivial
  | alreadyCompleted => trivial
  | claimed =>
    change Follows (answering threadId interruptId)
      ((Prog.ofExcept (Graph.checkResume threadId interruptId input l)).bind _) (.loaded l) _
    rw [follows_bind, follows_ofExcept]
    cases hcheck : Graph.checkResume threadId interruptId input l with
    | error e => trivial
    | ok request =>
      dsimp only
      obtain ⟨hrequest, hasks, -⟩ := checkResume_eq_ok_iff.1 hcheck
      have hasked : l.info.yieldRequest.map YieldRequest.interruptId = some interruptId := by
        rw [hrequest, Option.map_some, hasks]
      -- from here on nothing changes
      have hsilent (max : Nat) : Silent (answering (S := S) threadId interruptId) (.loaded l) max :=
        ⟨⟨trivial, fun _ => rfl⟩, fun _ => ⟨trivial, rfl⟩, fun _ => ⟨trivial, rfl⟩⟩
      have hsave {args : SaveArgs S} {Φ : Course (Loaded S) → Except TakelnError String → Prop}
          (h : ∀ x, Φ (.loaded l) x) : SaveFollows (answering threadId interruptId) (.loaded l) args Φ :=
        ⟨⟨l, rfl⟩, fun _ => h _⟩
      have hrun : Follows (answering threadId interruptId) (g.runInner threadId cancellation (some interruptId) l.state
          (g.resumeStart l request) (Graph.resumeInput request input)) (.loaded l) fun q _ => q = .loaded l := by
        refine follows_runInner (I := fun q _ => q = .loaded l) trivial (fun _ => rfl) (fun _ => rfl) ?_
          fun _ _ _ hq => hq
        rintro q v rfl
        refine follows_loopBody (hsilent _) (fun _ _ _ => ⟨⟨l, rfl, hasked⟩, fun _ => rfl⟩) rfl (fun _ => rfl)
          fun args flow _ => hsave fun x => ?_
        cases x with
        | error e => rfl
        | ok id =>
          dsimp only
          cases flow id <;> rfl
      unfold Graph.resumeClaimed
      rw [bind_eq, follows_bind]
      refine follows_runClaimed (hrun.mono fun q x hq => ?_)
      subst hq
      rcases x with ⟨e, lastHead⟩ | final
      · refine (follows_revertToYielded (fun head _ => hsave fun _ => trivial) fun _ => ⟨trivial, fun _ => trivial,
          fun head => hsave fun _ => trivial⟩).mono (Φ := fun _ _ => True) fun q y _ => ?_
        cases y <;> simp
      · dsimp only
        rw [bind_eq, follows_bind]
        exact follows_record (hsilent _).nodes _ trivial

end Answering

/-! ### Statement by statement -/

/-- What a resume has done to the table: the row it has loaded after its claim, and whether it has saved. -/
structure Progress where
  course : Course Row := .idle
  saved : Bool := false

/-- The same in statements: before its first save a resume hands its first node the state in the row it has loaded. -/
def serving [State S] [Serde DAG] [Serde YieldRequest] (threadId interruptId : String) (call : Call S) :
    Protocol (service S) Progress where
  allow
    | q, .statement (.updateClaimed t n) => q.course = .idle ∧ t = threadId ∧ n = interruptId
    | _, .statement (.selectRow t) => t = threadId
    | q, .statement (.insert c) => c.threadId = threadId ∧ ∃ row, q.course = .loaded row
    | q, .other (.callNode ctx state _ _) => ∃ row l, q.course = .loaded row ∧ readRow threadId row = .ok l ∧
        l.info.yieldRequest.map YieldRequest.interruptId = some interruptId ∧
        (q.saved = false → call.startNode (some l) = some ctx.nodeName ∧ call.startState (some l) = some state)
    | _, _ => True
  next
    | q, .statement (.updateClaimed _ _), .ok n => if (n : Nat) = 1 then { q with course := .claimed } else q
    | q, .statement (.selectRow _), .ok (some row) => { q with course := q.course.load row }
    | q, .statement (.insert _), .ok _ => { q with saved := true }
    | q, _, _ => q

section Serving

variable [State S] [Serde DAG] [Serde YieldRequest] {Q : Type} {threadId interruptId : String} {call : Call S}

/-- What a protocol says of statements. -/
def onStatements (ρ : Protocol (service S) Q) : Protocol sql Q where
  allow q o := ρ.allow q (.statement o)
  next q o r := ρ.next q (.statement o) r

omit [State S] [Serde DAG] [Serde YieldRequest] in
theorem follows_statements {E α : Type} {ρ : Protocol (service S) Q} {p : Prog sql E α} {q : Q}
    {Φ : Q → Except E α → Prop} (hp : Follows (onStatements ρ) p q Φ) : Follows ρ (p.lower statements) q Φ := by
  refine (follows_lower (R := Eq) (fun q q' o hq hallow => ?_) hp rfl).mono fun q' x ⟨q, hq, hx⟩ => hq ▸ hx
  subst hq
  refine ⟨hallow, fun r => ?_⟩
  rintro r' ⟨⟩
  rfl

/-- A save inserts a row of its thread under its id, or nothing. -/
theorem follows_saveState {π : Protocol sql Q} {q : Q} {id : String} {args : SaveArgs S}
    {Φ : Q → Except TakelnError String → Prop} (herr : ∀ e, Φ q (.error e))
    (hinsert : ∀ c : Columns, c.threadId = args.threadId → π.allow q (.insert c) ∧
      (∀ msg e, Φ (π.next q (.insert c) (.error msg : Except String Unit)) (.error e)) ∧
      Φ (π.next q (.insert c) (.ok () : Except String Unit)) (.ok id)) :
    Follows π (saveState id args) q Φ := by
  have hencode {α β : Type} [Serde α] (x : Option α) {f : Option Value → Prog sql TakelnError β}
      {Ψ : Q → Except TakelnError β → Prop} (he : ∀ e, Ψ q (.error e)) (hf : ∀ v, Follows π (f v) q Ψ) :
      Follows π ((encode x).bind f) q Ψ := by
    unfold encode
    cases x with
    | none => exact hf none
    | some a =>
      dsimp only
      cases (Serde.toValue a : Except String Value) with
      | error e => exact he _
      | ok v => exact hf (some v)
  unfold saveState
  rw [bind_eq, follows_bind, follows_ofExcept]
  cases (State.toValue args.state : Except String Value) with
  | error e => exact herr _
  | ok state =>
    refine hencode args.dag herr fun dag => hencode args.yieldRequest herr fun request => ?_
    rw [bind_eq, follows_bind, follows_execute]
    obtain ⟨hallow, hfail, hok⟩ := hinsert
      { id := id, threadId := args.threadId, state := state, nextNode := args.nextNode, dag := dag,
        status := args.status.debug, yieldRequest := request, claimedInterrupt := args.claimedInterrupt,
        resolvedInterrupt := args.resolvedInterrupt } rfl
    refine ⟨hallow, fun r => ?_⟩
    cases r with
    | error msg => exact hfail msg _
    | ok _ => exact hok

/-- A load reads a row, if it finds one. -/
theorem follows_loadState {π : Protocol sql Q} {q : Q} {Φ : Q → Except TakelnError (Option (Loaded S)) → Prop}
    (hallow : π.allow q (.selectRow threadId))
    (hfail : ∀ msg e, Φ (π.next q (.selectRow threadId) (.error msg : Except String (Option Row))) (.error e))
    (hfound : ∀ found, Φ (π.next q (.selectRow threadId) (.ok found : Except String (Option Row)))
      (readFound threadId found)) :
    Follows π (loadState threadId) q Φ := by
  rw [loadState_eq, follows_bind, follows_execute]
  refine ⟨hallow, fun r => ?_⟩
  cases r with
  | error msg => exact hfail msg _
  | ok found =>
    show Follows π (Prog.ofExcept (readFound threadId found)) _ Φ
    rw [follows_ofExcept]
    exact hfound found

/-- The update of a claim succeeds, or changes nothing. -/
theorem updateClaim_serving {q : Progress} (hidle : q.course = .idle) :
    Follows (onStatements (serving threadId interruptId call)) (updateClaim threadId interruptId) q fun q' x =>
      (x = .ok .claimed → q' = { q with course := .claimed }) ∧ (x ≠ .ok .claimed → q' = q) := by
  unfold updateClaim
  rw [bind_eq, follows_bind, follows_execute]
  refine ⟨⟨hidle, rfl, rfl⟩, fun r => ?_⟩
  cases r with
  | error msg => exact ⟨fun h => (by cases h), fun _ => rfl⟩
  | ok n =>
    show Follows _ (if (n : Nat) = 1 then _ else _) (if (n : Nat) = 1 then _ else _) _
    by_cases hn : (n : Nat) = 1
    · rw [if_pos hn, if_pos hn]
      exact ⟨fun _ => rfl, fun h => absurd rfl h⟩
    · rw [if_neg hn, if_neg hn]
      exact ⟨fun h => (by cases h), fun _ => rfl⟩

/-- A claim that is not told `Claimed` changes nothing. -/
theorem claimInterrupt_serving {q : Progress} (hidle : q.course = .idle) :
    Follows (onStatements (serving threadId interruptId call)) (claimInterrupt threadId interruptId) q fun q' x =>
      (x = .ok .claimed → q' = { q with course := .claimed }) ∧ (x ≠ .ok .claimed → q' = q) := by
  have hrefused {x : Except TakelnError ClaimResult} (hx : x ≠ .ok .claimed) :
      (x = .ok .claimed → q = { q with course := .claimed }) ∧ (x ≠ .ok .claimed → q = q) :=
    ⟨fun h => absurd h hx, fun _ => rfl⟩
  unfold claimInterrupt
  rw [bind_eq, follows_bind, follows_execute]
  refine ⟨trivial, fun r => ?_⟩
  cases r with
  | error msg => exact hrefused (by simp)
  | ok resolved =>
    cases (resolved : Bool) with
    | true => exact hrefused (by simp)
    | false =>
      show Follows _ (Prog.bind (execute _ _) _) _ _
      rw [follows_bind, follows_execute]
      refine ⟨trivial, fun r => ?_⟩
      cases r with
      | error msg => exact hrefused (by simp)
      | ok latest =>
        cases (latest : Option (String × Option Value × Option String)) with
        | none => exact hrefused (by simp)
        | some columns =>
          obtain ⟨statusStr, column, claimedInterrupt⟩ := columns
          show Follows _ (claimLatest threadId interruptId statusStr column claimedInterrupt) q _
          unfold claimLatest
          dsimp only
          split
          · exact hrefused (by simp)
          · split
            · split <;> exact hrefused (by simp)
            · cases column with
              | none => exact hrefused (by simp)
              | some v =>
                show Follows _ (Prog.bind (decode v) _) q _
                unfold decode
                rw [follows_bind, follows_ofExcept]
                cases (Serde.fromValue v : Except String YieldRequest) with
                | error e => exact hrefused (by simp)
                | ok request =>
                  show Follows _ (if request.interruptId ≠ interruptId then _ else _) q _
                  by_cases hid : request.interruptId = interruptId
                  · rw [if_neg (not_not.2 hid)]
                    exact updateClaim_serving hidle
                  · rw [if_pos hid]
                    exact hrefused (by simp)

/-! ### From operations to statements -/

/-- The same course, told by the checkpoint that was loaded or by its row. -/
inductive SameCourse (threadId : String) : Course (Loaded S) → Course Row → Prop
  | idle : SameCourse threadId .idle .idle
  | claimed : SameCourse threadId .claimed .claimed
  /-- The row could not be read. -/
  | unread (row : Row) : SameCourse threadId .claimed (.loaded row)
  | loaded {row : Row} {l : Loaded S} (h : readRow threadId row = .ok l) :
      SameCourse threadId (.loaded l) (.loaded row)

/-- What is known of a resume above the checkpointer is what its statements have done. -/
structure Tracks (threadId : String) (q : Course (Loaded S) × Ledger S) (p : Progress) : Prop where
  course : SameCourse threadId q.1 p.course
  loaded {l : Loaded S} : q.1 = .loaded l → q.2.loaded = some l
  saved : p.saved = false → q.2.saved = none

theorem Tracks.checkpointing (q : Course (Loaded S) × Ledger S) (p : Progress) (o : Op S)
    (h : Tracks threadId q p)
    (hallow : ((answering threadId interruptId).prod (bookkeeping threadId call)).allow q o) :
    Follows (serving threadId interruptId call) (checkpointing o) p fun p' x => ∀ r, x = .ok r →
      Tracks threadId (((answering threadId interruptId).prod (bookkeeping threadId call)).next q o r) p' := by
  obtain ⟨course, ledger⟩ := q
  obtain ⟨row, saved⟩ := p
  obtain ⟨hsame, hloaded, hsaved⟩ := h
  obtain ⟨hcourse, hledger⟩ := hallow
  cases o with
  | currentHead t =>
    rintro r ⟨⟩
    exact ⟨hsame, hloaded, hsaved⟩
  | saveStateBound args =>
    obtain ⟨l, rfl⟩ : ∃ l, course = .loaded l := hcourse
    have ht : args.threadId = threadId := hledger
    cases hsame with
    | @loaded row _ hread =>
      refine ⟨trivial, fun id => ?_⟩
      rw [follows_bind, follows_attempt]
      refine follows_statements (follows_saveState (fun e => ?_) fun c hc => ⟨⟨hc.trans ht, row, rfl⟩,
        fun msg e => ?_, ?_⟩)
      · rintro r ⟨⟩
        exact ⟨.loaded hread, hloaded, hsaved⟩
      · rintro r ⟨⟩
        exact ⟨.loaded hread, hloaded, hsaved⟩
      · rintro r ⟨⟩
        exact ⟨.loaded hread, hloaded, nofun⟩
  | loadState t =>
    obtain ⟨rfl, hfirst⟩ : t = threadId ∧ ∀ l, course ≠ .loaded l := hcourse
    refine (follows_attempt ((loadState t).lower statements) _).2
      (follows_statements (follows_loadState rfl (fun msg e => ?_) fun found => ?_))
    · rintro r ⟨⟩
      exact ⟨hsame, hloaded, hsaved⟩
    rintro r ⟨⟩
    cases found with
    | none => exact ⟨hsame, hloaded, hsaved⟩
    | some row =>
      show Tracks t (Protocol.next (F := ops S) _ _ (Op.loadState t)
        ((readRow t row).map some : Except TakelnError (Option (Loaded S)))) _
      cases hread : (readRow t row : Except TakelnError (Loaded S)) with
      | error e =>
        cases hsame with
        | idle => exact ⟨.idle, hloaded, hsaved⟩
        | claimed => exact ⟨.unread row, hloaded, hsaved⟩
        | unread _ => exact ⟨.unread row, hloaded, hsaved⟩
        | loaded _ => exact absurd rfl (hfirst _)
      | ok l =>
        cases hsame with
        | idle => exact ⟨.idle, nofun, hsaved⟩
        | claimed => exact ⟨.loaded hread, fun h => by cases h; rfl, hsaved⟩
        | unread _ => exact ⟨.loaded hread, fun h => by cases h; rfl, hsaved⟩
        | loaded _ => exact absurd rfl (hfirst _)
  | claimInterrupt t n =>
    obtain ⟨rfl, rfl, rfl⟩ : course = .idle ∧ t = threadId ∧ n = interruptId := hcourse
    cases hsame with
    | idle =>
      refine (follows_attempt ((claimInterrupt t n).lower statements) _).2
        (follows_statements ((claimInterrupt_serving rfl).mono fun p' x hx => ?_))
      rintro r ⟨⟩
      by_cases hclaimed : x = .ok .claimed
      · rw [hx.1 hclaimed, hclaimed]
        exact ⟨.claimed, nofun, hsaved⟩
      · rw [hx.2 hclaimed]
        rcases x with e | claim
        · exact ⟨.idle, nofun, hsaved⟩
        · cases claim with
          | claimed => exact absurd rfl hclaimed
          | inProgress => exact ⟨.idle, nofun, hsaved⟩
          | alreadyCompleted => exact ⟨.idle, nofun, hsaved⟩
  | callNode ctx state timeout token =>
    obtain ⟨l, rfl, hasked⟩ : ∃ l, course = .loaded l ∧ l.info.yieldRequest.map YieldRequest.interruptId =
      some interruptId := hcourse
    have hnames : ledger.Names call ctx.nodeName state ctx.lastCheckpointId := hledger
    cases hsame with
    | @loaded row _ hread =>
      refine ⟨⟨row, l, rfl, hread, hasked, fun hnone => ?_⟩, fun r => ?_⟩
      · unfold Ledger.Names at hnames
        rw [hsaved hnone, hloaded rfl] at hnames
        exact ⟨hnames.1, hnames.2.1⟩
      · rintro r' ⟨⟩
        exact ⟨.loaded hread, hloaded, hsaved⟩
  | joinWave tasks =>
    refine ⟨trivial, fun r => ?_⟩
    rintro r' ⟨⟩
    exact ⟨hsame, hloaded, hsaved⟩
  | nextSeq =>
    refine ⟨trivial, fun r => ?_⟩
    rintro r' ⟨⟩
    exact ⟨hsame, hloaded, hsaved⟩
  | send event =>
    refine ⟨trivial, fun r => ?_⟩
    rintro r' ⟨⟩
    exact ⟨hsame, hloaded, hsaved⟩
  | record max r =>
    refine ⟨trivial, fun r => ?_⟩
    rintro r' ⟨⟩
    exact ⟨hsame, hloaded, hsaved⟩

/-- A resume with input keeps to this. -/
theorem follows_serving [External] [Merge S] {g : Graph S} {cancellation : Bool} {input : Value}
    {context : ResumeContext} (hcall : call = .resumeWithInput g cancellation interruptId input context) :
    Follows (serving threadId interruptId call) ((call.answer threadId).lower checkpointing) {} fun _ _ => True := by
  have hanswering : Follows (answering threadId interruptId) (call.answer threadId) .idle fun _ _ => True := by
    rw [hcall]
    exact resumeWithInput_answering
  exact (follows_lower Tracks.checkpointing (hanswering.prod (answer_bookkeeping call))
    ⟨.idle, nofun, fun _ => rfl⟩).mono fun _ _ _ => trivial

/-! ### What a resume has done -/

/-- The update that claims a row. -/
def updated (threadId interruptId : String) : Event (service S) :=
  ⟨.statement (.updateClaimed threadId interruptId), (.ok 1 : Except String Nat)⟩

/-- The statement that loads a row. -/
def selected (threadId : String) (row : Row) : Event (service S) :=
  ⟨.statement (.selectRow threadId), (.ok (some row) : Except String (Option Row))⟩

/-- An insert that succeeds. -/
def insertedRow (c : Columns) : Event (service S) := ⟨.statement (.insert c), (.ok () : Except String Unit)⟩

/-- How far a resume has come shows in its statements. -/
structure Shown (threadId interruptId : String) (p : Progress) (evs : List (Event (service S))) : Prop where
  claimed : p.course ≠ .idle → ∃ a b, evs = a ++ updated threadId interruptId :: b
  loaded {row : Row} : p.course = .loaded row →
    ∃ a b c, evs = a ++ updated threadId interruptId :: (b ++ selected threadId row :: c)
  saved : p.saved = true → ∃ c, insertedRow c ∈ evs

omit [State S] [Serde DAG] [Serde YieldRequest] in
theorem Shown.append {p : Progress} {evs : List (Event (service S))} (h : Shown threadId interruptId p evs)
    (l : List (Event (service S))) : Shown threadId interruptId p (evs ++ l) where
  claimed hp := by
    obtain ⟨a, b, rfl⟩ := h.claimed hp
    exact ⟨a, b ++ l, by simp⟩
  loaded hp := by
    obtain ⟨a, b, c, rfl⟩ := h.loaded hp
    exact ⟨a, b, c ++ l, by simp⟩
  saved hp := by
    obtain ⟨c, hc⟩ := h.saved hp
    exact ⟨c, List.mem_append_left _ hc⟩

theorem Shown.step {p : Progress} {evs : List (Event (service S))} {o : ServiceOp S} {r : o.Answer}
    (hallow : (serving threadId interruptId call).allow p o) (h : Shown threadId interruptId p evs) :
    Shown threadId interruptId ((serving threadId interruptId call).next p o r)
      (evs ++ [(⟨o, r⟩ : Event (service S))]) := by
  have hkept := h.append [(⟨o, r⟩ : Event (service S))]
  cases o with
  | newId => exact hkept
  | other o => exact hkept
  | statement o =>
    cases o with
    | selectResolved t n => exact hkept
    | selectLatest t => exact hkept
    | insert c =>
      rcases r with msg | ⟨⟩
      · exact hkept
      · exact ⟨hkept.claimed, hkept.loaded, fun _ => ⟨c, by simp [insertedRow]⟩⟩
    | selectRow t =>
      obtain rfl : t = threadId := hallow
      rcases r with msg | _ | row
      · exact hkept
      · exact hkept
      obtain ⟨course, saved⟩ := p
      cases course with
      | idle => exact ⟨fun hp => absurd rfl hp, nofun, hkept.saved⟩
      | claimed =>
        refine ⟨fun _ => hkept.claimed nofun, fun hp => ?_, hkept.saved⟩
        cases hp
        obtain ⟨a, b, rfl⟩ := h.claimed nofun
        exact ⟨a, b, [], by simp [selected]⟩
      | loaded row' =>
        refine ⟨fun _ => hkept.claimed nofun, fun hp => ?_, hkept.saved⟩
        cases hp
        obtain ⟨a, b, rfl⟩ := h.claimed nofun
        exact ⟨a, b, [], by simp [selected]⟩
    | updateClaimed t n =>
      obtain ⟨-, rfl, rfl⟩ : p.course = .idle ∧ t = threadId ∧ n = interruptId := hallow
      rcases r with msg | changed
      · exact hkept
      show Shown t n (if (changed : Nat) = 1 then _ else _) _
      split
      · rename_i hone
        subst hone
        exact ⟨fun _ => ⟨evs, [], rfl⟩, nofun, hkept.saved⟩
      · exact hkept

end Serving

/-! ### The rows of a thread -/

section Ids

variable {T T' : Table} {threadId : String}

theorem answers_selectRow {found : Option Row}
    (h : Answers T (.selectRow threadId) (.ok found : Except String (Option Row)) T') :
    ∃ order, found = T.latest order threadId := by
  generalize hr : (.ok found : Except String (Option Row)) = r at h
  cases h with
  | failed => cases hr
  | selectedRow _ order => exact ⟨order, Except.ok.inj hr⟩

/-- Statements append the rows they insert into a thread. -/
theorem ids_of_trail {ι : Type} {l : List (Entry sql ι Table)} (h : Trail Answers T l T') (threadId : String) :
    (T'.thread threadId).map (fun r => r.id) =
      (T.thread threadId).map (fun r => r.id) ++ (insertedInto threadId l).map fun c => c.id := by
  have hrequests := congrArg (List.map Prod.fst) (requests_of_trail h threadId)
  rw [List.map_append, List.map_map, List.map_map, List.map_map] at hrequests
  exact hrequests

/-- Rows keep their times. -/
theorem Table.InOrder.of_answers {o : Statement} {r : Except String o.Result} (hT' : T'.InOrder)
    (h : Answers T o r T') : T.InOrder := by
  cases h with
  | inserted T c time hid =>
    unfold InOrder Table.insert at hT'
    rw [List.map_append] at hT'
    exact (List.pairwise_append.1 hT').1
  | updatedClaimed T order threadId interruptId =>
    unfold InOrder at hT'
    rw [Table.times_claim] at hT'
    exact hT'
  | _ => exact hT'

theorem Table.InOrder.of_trail {ι : Type} {l : List (Entry sql ι Table)} (hT' : T'.InOrder)
    (h : Trail Answers T l T') : T.InOrder := by
  induction h with
  | nil => exact hT'
  | cons hsem _ ih => exact (ih hT').of_answers hsem

/-- If later rows have later times, the latest row is still the same exactly if no row was inserted into the thread. -/
theorem latest_id_eq_iff {ι : Type} {l : List (Entry sql ι Table)} (h : Trail Answers T l T') (hT' : T'.InOrder)
    {order order' : Order} {row row' : Row} (hrow : T.latest order threadId = some row)
    (hrow' : T'.latest order' threadId = some row') : row'.id = row.id ↔ insertedInto threadId l = [] := by
  have hids := ids_of_trail h threadId
  rw [(hT'.of_trail h).latest_eq] at hrow
  rw [hT'.latest_eq] at hrow'
  have hlast := congrArg List.getLast? hids
  rw [List.getLast?_append, List.getLast?_map, List.getLast?_map, List.getLast?_map, hrow, hrow'] at hlast
  constructor
  · intro hsame
    by_contra hne
    obtain ⟨cs, c, hcs⟩ := List.eq_nil_or_concat (insertedInto threadId l) |>.resolve_left hne
    -- the last row that was inserted would have the id of an older one
    have hnodup := T'.nodup_ids threadId
    rw [hids, List.nodup_append'] at hnodup
    have hold : row.id ∈ (T.thread threadId).map fun r => r.id :=
      List.mem_map_of_mem (List.mem_of_getLast? hrow)
    rw [hcs, List.concat_eq_append, List.getLast?_concat] at hlast
    have hid : row'.id = c.id := Option.some.inj hlast
    refine hnodup.2.2 hold ?_
    rw [← hsame, hid, hcs]
    simp
  · intro hnil
    rw [hnil] at hlast
    exact Option.some.inj hlast

end Ids

/-! ### Interleavings of calls -/

theorem answers_of_serves {ι : Type} {T T' : Table} {tr : List (Entry (service S) ι Table)}
    (h : Trail Serves T tr T') : Trail Answers T (project statementOf tr) T' := by
  refine h.project (fun w o r w' ev hsem hev => ?_) fun w o r w' hsem hev => ?_
  · cases hsem with
    | newId => cases hev
    | other => cases hev
    | statement hans =>
      cases hev
      exact hans
  · cases hsem with
    | newId => rfl
    | other => rfl
    | statement hans => cases hev

/-- The node calls and the inserts of a resume. -/
def Acts {ι : Type} (e : Entry (service S) ι Table) : Prop :=
  (∃ ctx state timeout token, e.op = .other (.callNode ctx state timeout token)) ∨ ∃ c, e.op = .statement (.insert c)

/-- A participant has called a node, or tried to save. -/
def Acted {ι : Type} (tr : List (Entry (service S) ι Table)) (i : ι) : Prop := ∃ e ∈ tr, e.who = i ∧ Acts e

section Runs

/-- The call is a resume with input for the interrupt. -/
def Resumes (call : Call S) (interruptId : String) : Prop :=
  ∃ g cancellation input context, call = .resumeWithInput g cancellation interruptId input context

variable [External] [State S] [Merge S] [Serde DAG] [Serde YieldRequest] {ι : Type} [DecidableEq ι]
  {threadId : ι → String} {call : ι → Call S} {T₀ T : Table} {tr : List (Entry (service S) ι Table)}
  {P : ι → Prog (service S) TakelnError (Option S)} {g : Graph S} {cancellation : Bool} {interruptId : String}
  {input : Value} {context : ResumeContext}

theorem shown_of_interleaving
    (hI : Interleaving Serves (fun i => ((call i).answer (threadId i)).lower checkpointing) T₀ tr P T) {i : ι}
    (hcall : call i = .resumeWithInput g cancellation interruptId input context) :
    Shown (threadId i) interruptId ((serving (threadId i) interruptId (call i)).after {} (own i tr)) (own i tr) :=
  hI.own_invariant (follows_serving hcall) ⟨fun h => absurd rfl h, nofun, nofun⟩ fun _ _ _ _ hallow h => h.step hallow

/-- Before it acts a resume has claimed, and then loaded. -/
theorem exists_claim (hI : Interleaving Serves (fun i => ((call i).answer (threadId i)).lower checkpointing) T₀ tr P T)
    {i : ι} (hcall : call i = .resumeWithInput g cancellation interruptId input context) {row : Row}
    (hcourse : ((serving (threadId i) interruptId (call i)).after {} (own i tr)).course = .loaded row) :
    ∃ l₁ u l₂ ld l₃, tr = l₁ ++ u :: (l₂ ++ ld :: l₃) ∧
      u.who = i ∧ u.event = updated (threadId i) interruptId ∧ ld.who = i ∧ ld.event = selected (threadId i) row := by
  obtain ⟨a, b, c, hown⟩ := (shown_of_interleaving hI hcall).loaded hcourse
  obtain ⟨l₁, u, l, rfl, huwho, hu, -, hl⟩ := exists_of_own_eq_append hown
  obtain ⟨l₂, ld, l₃, rfl, hwho, hld, -, -⟩ := exists_of_own_eq_append hl
  exact ⟨l₁, u, l₂, ld, l₃, rfl, huwho, hu, hwho, hld⟩

/-- The entry in which a resume that has acted has claimed a row. -/
theorem exists_claimed
    (hI : Interleaving Serves (fun i => ((call i).answer (threadId i)).lower checkpointing) T₀ tr P T) {i : ι}
    (hcall : call i = .resumeWithInput g cancellation interruptId input context) (hacted : Acted tr i) :
    ∃ e, e.who = i ∧ ∃ row ∈ T.rows, Claims T (project statementOf tr) e row.id ∧
      row.threadId = threadId i ∧ row.status = "Running" ∧ row.claimedInterrupt = some interruptId ∧
      SavedYielded T₀ (project statementOf tr) row.id (threadId i) := by
  obtain ⟨e, he, rfl, hacts⟩ := hacted
  obtain ⟨before, later, rfl⟩ := List.append_of_mem he
  have hallow := hI.allow_at rfl (follows_serving hcall)
  obtain ⟨row, hcourse⟩ : ∃ row, ((serving (threadId e.who) interruptId (call e.who)).after {}
      (own e.who before)).course = .loaded row := by
    rcases hacts with ⟨ctx, state, timeout, token, hop⟩ | ⟨c, hop⟩
    · rw [hop] at hallow
      obtain ⟨row, -, hrow, -⟩ := hallow
      exact ⟨row, hrow⟩
    · rw [hop] at hallow
      exact hallow.2
  obtain ⟨P', T', hbefore⟩ := hI.of_append
  obtain ⟨l₁, u, l₂, ld, l₃, rfl, huwho, hu, -⟩ := exists_claim hbefore hcall hcourse
  have htrail := answers_of_serves hI.trail
  have hstatement : statementOf u.event =
      some ⟨.updateClaimed (threadId e.who) interruptId, (.ok 1 : Except String Nat)⟩ := by
    rw [hu]
    rfl
  rw [List.append_assoc, project_append, List.cons_append, project_cons hstatement] at htrail ⊢
  exact ⟨_, huwho, claimed_of_trail htrail rfl⟩

/-- Whatever the calls do, and whatever statements of others come in between: the resumes with input that have called a
node or have saved have turned different rows, each of its thread, saved as `Yielded` and now `Running` for its
interrupt. -/
theorem resumes_exclusive
    (hI : Interleaving Serves (fun i => ((call i).answer (threadId i)).lower checkpointing) T₀ tr P T) :
    ∃ claimed : ι → String,
      (∀ i interruptId, Resumes (call i) interruptId → Acted tr i →
        ∃ row ∈ T.rows, row.id = claimed i ∧ row.threadId = threadId i ∧ row.status = "Running" ∧
          row.claimedInterrupt = some interruptId ∧ SavedYielded T₀ (project statementOf tr) row.id (threadId i)) ∧
      ∀ i j interruptId interruptId', Resumes (call i) interruptId → Resumes (call j) interruptId' →
        Acted tr i → Acted tr j → claimed i = claimed j → i = j := by
  have hrow : ∀ i, ∃ id, ∀ interruptId, Resumes (call i) interruptId → Acted tr i →
      ∃ e, e.who = i ∧ Claims T (project statementOf tr) e id ∧ ∃ row ∈ T.rows, row.id = id ∧
        row.threadId = threadId i ∧ row.status = "Running" ∧ row.claimedInterrupt = some interruptId ∧
        SavedYielded T₀ (project statementOf tr) row.id (threadId i) := by
    intro i
    by_cases hi : (∃ n, Resumes (call i) n) ∧ Acted tr i
    · obtain ⟨⟨n, g, c, input, context, hcall⟩, hacted⟩ := hi
      obtain ⟨e, hwho, row, hrow, hclaims, hrest⟩ := exists_claimed hI hcall hacted
      refine ⟨row.id, fun n' hn' _ => ?_⟩
      obtain ⟨_, _, _, _, hcall'⟩ := hn'
      cases hcall.symm.trans hcall'
      exact ⟨e, hwho, hclaims, row, hrow, rfl, hrest⟩
    · exact ⟨"", fun n hn hacted => absurd ⟨⟨n, hn⟩, hacted⟩ hi⟩
  choose claimed hclaimed using hrow
  refine ⟨claimed, fun i n hn hacted => ?_, ?_⟩
  · obtain ⟨-, -, -, hrow⟩ := hclaimed i n hn hacted
    exact hrow
  · rintro i j n n' hi hj hacti hactj hsame
    obtain ⟨e, rfl, hclaims, -⟩ := hclaimed i n hi hacti
    obtain ⟨e', rfl, hclaims', -⟩ := hclaimed j n' hj hactj
    exact congrArg Entry.who (hclaims.eq (hsame ▸ hclaims'))

/-- How a node call of a resume comes about: the entry `u` has claimed the latest row, `claimed`, and the entry `ld` has
loaded the latest row, `row`, which holds the checkpoint `l`. -/
structure Handed (threadId interruptId : String) (call : Call S) (ctx : NodeContext) (state : S)
    (u ld : Entry (service S) ι Table) (claimed row : Row) (l : Loaded S) : Prop where
  claims : u.event = updated threadId interruptId
  waited : (∃ order, u.world.latest order threadId = some claimed) ∧ claimed.status = "Yielded"
  loads : ld.event = selected threadId row
  latest : ∃ order, ld.world.latest order threadId = some row
  reads : readRow threadId row = .ok l
  asks : l.info.yieldRequest.map YieldRequest.interruptId = some interruptId
  node : call.startNode (some l) = some ctx.nodeName
  state : state = l.state

end Runs

section Examples

attribute [local instance] instSerdeYieldRequest instSerdeDAG shortRuns

/-- A database, and nodes that answer as those of `telling`. -/
def answered : Handler (service Bool) Table
  | T, .newId => some (s!"c{T.rows.length}", T)
  | T, .statement o => database T o
  | T, .other o => (memory telling World.empty o).map fun x => (x.1, T)

theorem answered_serves (T : Table) (o : ServiceOp Bool) (r : o.Answer) (T' : Table)
    (h : answered T o = some (r, T')) : Serves T o r T' := by
  cases o with
  | newId =>
    cases h
    exact .newId T _
  | statement o => exact .statement (database_answers T o r T' h)
  | other o =>
    obtain ⟨x, -, hx⟩ := Option.map_eq_some_iff.1 h
    cases hx
    exact .other T o _

/-- The run asks, then the resumes take turns, statement by statement. -/
def served : List (Entry (service Bool) (Fin 3) Table) ×
    (Fin 3 → Prog (service Bool) TakelnError (Option Bool)) × Table :=
  (schedule answered turns [] (fun i => ((contest i).answer "t").lower checkpointing) Table.empty).get
    (by decide +kernel)

theorem served_interleaving :
    Interleaving Serves (fun i => ((contest i).answer "t").lower checkpointing) Table.empty served.1 served.2.1
      served.2.2 :=
  (Interleaving.start.schedule (Option.some_get _).symm).mono answered_serves

/-- A resume calls a node. -/
def callsNode (e : Entry (service Bool) (Fin 3) Table) : Bool :=
  match e.who, e.op with
  | 1, .other (.callNode _ _ _ _) => true
  | _, _ => false

theorem op_of_callsNode {e : Entry (service Bool) (Fin 3) Table} (h : callsNode e = true) :
    e.who = 1 ∧ ∃ ctx state timeout token, e.op = .other (.callNode ctx state timeout token) := by
  obtain ⟨who, world, o, r⟩ := e
  unfold callsNode at h
  split at h
  · rename_i hwho hop
    exact ⟨hwho, _, _, _, _, hop⟩
  · cases h

/-- A statement that inserts. -/
def inserts : ServiceOp Bool → Bool
  | .statement (.insert _) => true
  | _ => false

theorem served_inOrder : served.2.2.InOrder := by
  unfold Table.InOrder
  decide +kernel

theorem served_calls : ∃ before e later, served.1 = before ++ e :: later ∧ callsNode e = true ∧
    ∀ c, insertedRow c ∉ own 1 before := by
  have hcalls : (served.1.dropWhile fun e => !callsNode e).head?.any callsNode = true := by decide +kernel
  have hbefore : (served.1.takeWhile fun e => !callsNode e).all (fun e => e.who != 1 || !inserts e.op) = true := by
    decide +kernel
  obtain ⟨e, he, hcall⟩ := (Option.any_eq_true _ _).1 hcalls
  obtain ⟨later, hlater⟩ : ∃ later, (served.1.dropWhile fun e => !callsNode e) = e :: later := by
    cases hdrop : served.1.dropWhile fun e => !callsNode e with
    | nil =>
      rw [hdrop] at he
      cases he
    | cons e' later =>
      rw [hdrop] at he
      cases he
      exact ⟨later, rfl⟩
  refine ⟨_, e, later, by rw [← hlater, List.takeWhile_append_dropWhile], hcall, fun c hc => ?_⟩
  obtain ⟨e', he', hev⟩ := List.mem_map.1 hc
  obtain ⟨hmem, hwho⟩ := List.mem_filter.1 he'
  have hnone := List.all_eq_true.1 hbefore e' hmem
  have hop : e'.op = .statement (.insert c) := congrArg Event.op hev
  rw [of_decide_eq_true hwho, hop] at hnone
  cases hnone

theorem contest_resumes : Resumes (contest 1) "q" := ⟨questioning, false, .null, {}, rfl⟩

theorem resumes_exclusive_served :
    Acted served.1 1 ∧ ∃ claimed : Fin 3 → String,
      (∀ i interruptId, Resumes (contest i) interruptId → Acted served.1 i →
        ∃ row ∈ served.2.2.rows, row.id = claimed i ∧ row.threadId = "t" ∧ row.status = "Running" ∧
          row.claimedInterrupt = some interruptId ∧ SavedYielded .empty (project statementOf served.1) row.id "t") ∧
      ∀ i j interruptId interruptId', Resumes (contest i) interruptId → Resumes (contest j) interruptId' →
        Acted served.1 i → Acted served.1 j → claimed i = claimed j → i = j := by
  refine ⟨?_, resumes_exclusive served_interleaving⟩
  obtain ⟨before, e, later, htr, hcall, -⟩ := served_calls
  rw [htr]
  exact ⟨e, by simp, (op_of_callsNode hcall).1, Or.inl (op_of_callsNode hcall).2⟩

end Examples

end Takeln.Postgres
