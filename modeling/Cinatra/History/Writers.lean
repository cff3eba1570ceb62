import Cinatra.History.MergeProposals
import Cinatra.History.RestoreEngine
import Cinatra.History.Writes

/-! # Writers — who writes objects, at once

    Seven operations write objects or decide on proposals, in any number and any
    interleaving of their calls.  What each has read is its view, and a write says no
    more than that: the row before is the one that was read, the sequence is one more
    than the maximum that was read, and a restore builds its inverses from the events
    it has read. -/

namespace History

open Process

inductive Writer where
  | upsert (minted : Minted) (projectId : Option String) (input : HistoryAwareUpsertInput)
      (options : HistoryWriteOptions)
  | softDelete (minted : Minted) (objectId : String) (orgId : Option String)
      (options : HistoryWriteOptions)
  | undelete (minted : Minted) (objectId : String) (orgId : Option String) (restoredData : Data)
      (options : HistoryWriteOptions)
  | restoreChangeSet (ids : RestoreIds) (input : RestoreChangeSetInput)
  | restoreVersion (minted : Minted) (projectId : Option String) (objectId : String)
      (targetVersion : Nat) (actor : HistoryActor) (freshness : FreshnessState)
  | approve (minted : Minted) (projectId : Option String) (input : ApproveMergeProposalInput)
  | reject (input : RejectMergeProposalInput)

/-- The task of an operation, given the view it starts with. -/
def Writer.task {ν : Type} (view : Writer → ν) (w : Writer) :
    Task HistoryCall HistoryCall.Reply HistoryError ν :=
  match w with
  | .upsert minted projectId input options =>
    Task.of (historyAwareUpsert minted projectId input options) (view w)
  | .softDelete minted objectId orgId options =>
    Task.of (historyAwareSoftDelete minted objectId orgId options) (view w)
  | .undelete minted objectId orgId restoredData options =>
    Task.of (historyAwareUndelete minted objectId orgId restoredData options) (view w)
  | .restoreChangeSet ids input => Task.of (History.restoreChangeSet ids input) (view w)
  | .restoreVersion minted projectId objectId targetVersion actor freshness =>
    Task.of (restoreObjectToVersion minted projectId objectId targetVersion actor freshness)
      (view w)
  | .approve minted projectId input =>
    Task.of (approveMergeProposal minted projectId input) (view w)
  | .reject input => Task.of (rejectMergeProposal input) (view w)

/-- Every call may go ahead, and a task's end changes nothing. -/
def historyHost : Host HistoryCall HistoryCall.Reply HistoryError Db Fault where
  ready _ _ _ := true
  answer fault _ c db := history.answer fault c db
  leave _ db := db

/-! ## What a writer has read -/

structure Seen where
  writer : Writer
  /-- The row that was read last, and of which object. -/
  row : String × Option ObjectRow := ("", none)
  /-- The next sequence, and of which change set. -/
  next : String × Nat := ("", 1)
  /-- The events of the change set to be restored. -/
  events : List ObjectChangeEvent := []
  /-- The proposal that it has claimed, and not released. -/
  claimed : Option MergeProposal := none
  /-- Its transaction has been answered. -/
  wrote : Bool := false
  /-- It has tried to mark its proposal applied. -/
  marked : Bool := false

def seeHistory : Seen → (c : HistoryCall) → Except HistoryError c.Reply → Seen
  | v, .readObject id, .ok row => { v with row := (id, row) }
  | v, .maxSequence id, .ok max => { v with next := (id, max + 1) }
  | v, .readChangeSetEvents _ _, .ok events => { v with events := events }
  | v, .claimProposal _ _ _, .ok claimed => { v with claimed := claimed }
  | v, .transaction _, .ok _ => { v with wrote := true }
  | v, .markApplied _ _, _ => { v with marked := true }
  | v, .releaseClaim _, _ => { v with claimed := none }
  | v, _, _ => v

abbrev WriterPool := Pool HistoryCall HistoryCall.Reply HistoryError Seen Db

abbrev WriterEvent := Event Writer Fault

def newSeen (w : Writer) : Seen := { writer := w }

def writerStep : WriterPool → WriterEvent → WriterPool :=
  step historyHost seeHistory (Writer.task newSeen)

@[simp] theorem seeHistory_writer (v : Seen) (c : HistoryCall) (r : Except HistoryError c.Reply) :
    (seeHistory v c r).writer = v.writer := by
  unfold seeHistory
  split <;> rfl

/-! ## What a writer may write -/

def Statement.event : Statement → EventArgs
  | .create args => args.event
  | .update args _ _ => args.event
  | .softDelete _ _ event _ _ => event
  | .undelete _ _ event _ _ _ => event

/-- The row before, as a statement says it. -/
def Statement.before : Statement → Option ObjectRow
  | .create _ => none
  | .update _ _ before => before
  | .softDelete _ _ _ _ before => before
  | .undelete _ _ _ _ _ before => before

/-- The version a change asks for. -/
def Statement.asks : Statement → Option Nat
  | .create _ => none
  | .update _ version _ => some version
  | .softDelete _ _ _ version _ => some version
  | .undelete _ _ _ version _ _ => some version

/-- A statement that says what its writer has read. -/
structure Reports (v : Seen) (s : Statement) : Prop where
  objectId : v.row.1 = s.objectId
  before : s.asks ≠ none → s.before = v.row.2
  changeSetId : s.event.changeSetId = v.next.1
  sequence : s.event.sequence = v.next.2

/-- What a writer may make a transaction of. -/
def Makes (v : Seen) (statements : List Statement) : Prop :=
  match v.writer with
  | .restoreChangeSet ids input => ∃ trackers, buildInverses ids input.actor v.events.reverse 0
      trackers = .statements statements
  | _ => ∃ s, statements = [s] ∧ Reports v s

/-- Only transactions write. -/
def MayCall (v : Seen) (c : HistoryCall) : Prop :=
  ∀ statements, c = .transaction statements → Makes v statements

/-! ### Each operation keeps to it -/

def NoTransaction (c : HistoryCall) : Prop := ∀ statements, c ≠ .transaction statements

theorem mayCall_of_noTransaction (v : Seen) (c : HistoryCall) (h : NoTransaction c) :
    MayCall v c := fun statements hc => absurd hc (h statements)

variable {α β : Type} {v : Seen}

abbrev Checks (p : HistoryProg α) (v : Seen) : Prop := Checked seeHistory MayCall p v

/-- Its events are not those of a change set to be restored. -/
def Plain (v : Seen) : Prop := ∀ ids input, v.writer ≠ .restoreChangeSet ids input

variable {s : Statement}

theorem makes_of_reports (hplain : Plain v) (h : Reports v s) : Makes v [s] := by
  unfold Makes
  split
  · rename_i ids input hwriter
    exact absurd hwriter (hplain ids input)
  · exact ⟨s, rfl, h⟩

theorem closeChangeSet_only (id : String) (reason : Option String) :
    Only NoTransaction (closeChangeSet id reason) := by
  refine Only.bind (only_perform nofun) fun agg =>
    Only.bind (only_perform nofun) fun row => ?_
  cases row with
  | none => exact only_throwErr _
  | some row => exact only_pure row

theorem maybeAutoClose_only (options : HistoryWriteOptions) (id reason : String) :
    Only NoTransaction (maybeAutoClose options id reason) := by
  rw [maybeAutoClose]
  split
  · exact only_pure ()
  · exact Only.swallow (closeChangeSet_only id _)

variable {f : Unit → HistoryProg β}

/-- A statement that says what has been read, and then no other. -/
theorem write_checks {id : String} {expected : Option Nat} {reason : Option ObjectRow → String}
    (hplain : Plain v) (h : Reports v s)
    (hf : Only NoTransaction (f ())) : Checks (write id expected reason s >>= f) v := by
  refine checked_try ?_ (fun _ => checked_only hf mayCall_of_noTransaction _) fun err => ?_
  · intro statements hc
    cases hc
    exact makes_of_reports hplain h
  · refine checked_only ?_ mayCall_of_noTransaction _
    refine Only.bind ?_ fun _ => hf
    split
    · exact Only.bind (only_perform nofun) fun _ => only_throwErr _
    · exact only_throwErr err

variable {minted : Minted} {actor : HistoryActor}

/-- The change set of a write is given, or opened; its sequence is then read. -/
theorem sequence_checks {changeSet : Option String}
    {f : String → Nat → HistoryProg β}
    (hf : ∀ id max, Checks (f id (max + 1)) { v with next := (id, max + 1) }) :
    Checks (autoChangeSet minted actor changeSet >>= fun id =>
      getNextEventSequence id >>= f id) v := by
  have hnext : ∀ id, Checks (getNextEventSequence id >>= f id) v := by
    intro id
    rw [getNextEventSequence, bind_assoc]
    refine checked_call nofun fun max => ?_
    rw [pure_bind]
    exact hf id max
  cases changeSet with
  | some id => exact hnext id
  | none =>
    rw [autoChangeSet, openChangeSet, bind_assoc]
    refine checked_call nofun fun _ => ?_
    rw [pure_bind]
    exact hnext minted.changeSetId

variable {options : HistoryWriteOptions}

theorem ensure_checks (hf : Checks (f ()) v) : Checks (lift (ensureEffect options) >>= f) v := by
  cases ensureEffect options with
  | error err => exact checked_throw err v
  | ok u => exact hf

variable {projectId : Option String}

theorem project_checks (hf : Checks (f ()) v) :
    Checks (assertProjectWritable projectId >>= f) v := by
  cases projectId with
  | none => exact hf
  | some id =>
    rw [assertProjectWritable, bind_assoc]
    refine checked_call nofun fun row => ?_
    cases row with
    | none => exact checked_throw _ _
    | some row =>
      dsimp only
      split
      · exact checked_throw _ _
      · exact hf

theorem upsert_checks {input : HistoryAwareUpsertInput} (hplain : Plain v) :
    Checks (historyAwareUpsert minted projectId input options) v := by
  refine ensure_checks (project_checks (sequence_checks fun id max => ?_))
  refine checked_call nofun fun row => ?_
  refine write_checks hplain ?_ (Only.bind (maybeAutoClose_only _ _ _) fun _ => only_pure _)
  cases hexpected : options.expectedBaseVersion with
  | none => exact ⟨rfl, fun h => absurd rfl h, rfl, rfl⟩
  | some version => exact ⟨rfl, fun _ => rfl, rfl, rfl⟩

variable {orgId : Option String} {objectId : String}

theorem softDelete_checks (hplain : Plain v) :
    Checks (historyAwareSoftDelete minted objectId orgId options) v := by
  refine ensure_checks ?_
  split
  · exact checked_throw _ v
  refine checked_call nofun fun row => ?_
  cases row with
  | none => exact checked_throw _ _
  | some before =>
    refine sequence_checks fun id max => ?_
    refine write_checks hplain ?_ (Only.bind (maybeAutoClose_only _ _ _) fun _ => only_pure _)
    exact ⟨rfl, fun _ => rfl, rfl, rfl⟩

theorem undelete_checks {restoredData : Data} (hplain : Plain v) :
    Checks (historyAwareUndelete minted objectId orgId restoredData options) v := by
  rw [historyAwareUndelete]
  split
  · exact checked_throw _ v
  refine checked_call nofun fun row => ?_
  cases row with
  | none => exact checked_throw _ _
  | some before =>
    dsimp only
    split
    · exact checked_throw _ _
    · refine sequence_checks fun id max => ?_
      refine write_checks hplain ?_
        (Only.bind (maybeAutoClose_only _ _ _) fun _ => only_pure _)
      exact ⟨rfl, fun _ => rfl, rfl, rfl⟩

theorem restoreVersion_checks
    {targetVersion : Nat} {freshness : FreshnessState} (hplain : Plain v) :
    Checks (restoreObjectToVersion minted projectId objectId targetVersion actor freshness) v := by
  rw [restoreObjectToVersion]
  refine checked_call nofun fun current => ?_
  cases current with
  | none => exact checked_throw _ _
  | some current =>
    dsimp only
    split
    · exact checked_throw _ _
    refine checked_call nofun fun events => ?_
    cases checkTarget objectId targetVersion freshness events with
    | error err => exact checked_throw _ _
    | ok target =>
      obtain ⟨event, target⟩ := target
      show Checks (restoreVersion _ _ _ _ _ _ _ _) _
      rw [restoreVersion]
      split
      · exact Checked.bind (upsert_checks hplain) fun _ _ => checked_pure _ _
      · exact Checked.bind (softDelete_checks hplain) fun _ _ => checked_pure _ _
      · exact Checked.bind (undelete_checks hplain) fun _ _ => checked_pure _ _
      · exact checked_pure _ _

theorem approve_checks {input : ApproveMergeProposalInput} (hplain : Plain v) :
    Checks (approveMergeProposal minted projectId input) v := by
  rw [approveMergeProposal]
  refine checked_call nofun fun claimed => ?_
  cases claimed with
  | none => exact checked_throw _ _
  | some proposal =>
    refine Checked.tryCatch ?_ fun err v' => ?_
    · refine Checked.bind (upsert_checks hplain) fun result v' => ?_
      exact checked_call nofun fun _ => checked_pure _ _
    · exact checked_call nofun fun _ => checked_throw _ _

theorem reject_checks {input : RejectMergeProposalInput} (v : Seen) :
    Checks (rejectMergeProposal input) v := by
  rw [rejectMergeProposal]
  refine checked_call nofun fun proposal => ?_
  cases proposal with
  | none => exact checked_throw _ _
  | some proposal =>
    refine checked_call nofun fun row => ?_
    cases row with
    | none => exact checked_throw _ _
    | some row => exact checked_pure _ _

theorem readVersions_checks {ids : List String}
    {f : Trackers → HistoryProg β} (hf : ∀ trackers, Checks (f trackers) v) :
    Checks (readVersions orgId ids >>= f) v := by
  induction ids generalizing f with
  | nil => exact hf _
  | cons id ids ih =>
    rw [readVersions, bind_assoc]
    refine checked_call nofun fun scope => ?_
    rw [bind_assoc]
    exact ih fun trackers => hf _

variable {input : RestoreChangeSetInput} {ids : RestoreIds}

theorem applyInverses_checks {container : String} {trackers : Trackers}
    (hwriter : v.writer = .restoreChangeSet ids input) :
    Checks (applyInverses input container v.events
      (buildInverses ids input.actor v.events.reverse 0 trackers)) v := by
  cases hbuilt : buildInverses ids input.actor v.events.reverse 0 trackers with
  | missing objectId =>
    exact checked_only (Only.bind (closeChangeSet_only _ _) fun _ => only_throwErr _)
      mayCall_of_noTransaction v
  | thrown err => exact checked_throw err v
  | statements statements =>
    cases statements with
    | nil =>
      exact checked_only (Only.bind (closeChangeSet_only _ _) fun _ => only_pure _)
        mayCall_of_noTransaction v
    | cons s rest =>
      refine checked_try ?_ (fun _ => ?_) fun err => ?_
      · intro statements hc
        cases hc
        unfold Makes
        rw [hwriter]
        exact ⟨trackers, hbuilt⟩
      · exact checked_only (Only.bind (closeChangeSet_only _ _) fun _ => only_pure _)
          mayCall_of_noTransaction _
      · refine checked_only (Only.bind ?_ fun _ => ?_) mayCall_of_noTransaction _
        · exact Only.bind (closeChangeSet_only _ _) fun _ => only_throwErr _
        · exact Only.bind (closeChangeSet_only _ _) fun _ => only_pure _

theorem restoreChangeSet_checks (hwriter : v.writer = .restoreChangeSet ids input) :
    Checks (restoreChangeSet ids input) v := by
  rw [restoreChangeSet, loadChangeSet]
  simp only [bind_assoc]
  refine checked_call nofun fun row => ?_
  refine checked_call nofun fun events => ?_
  rw [pure_bind]
  cases row with
  | none => exact checked_throw _ _
  | some changeSet =>
    show Checks (restoreLoaded ids input changeSet events) _
    rw [restoreLoaded]
    cases checkRestorable input changeSet events with
    | error err => exact checked_throw _ _
    | ok u =>
      show Checks (openChangeSet _ _ _ >>= _) _
      rw [openChangeSet, bind_assoc]
      refine checked_call nofun fun _ => ?_
      rw [pure_bind]
      exact readVersions_checks fun trackers =>
        applyInverses_checks (v := { v with events := events }) hwriter

/-- **Every operation writes no more than it has read.** -/
theorem writer_keeps (w : Writer) : (w.task newSeen).Keeps seeHistory MayCall := by
  cases w with
  | upsert minted projectId input options =>
    exact Checked.task (upsert_checks nofun)
  | softDelete minted objectId orgId options =>
    exact Checked.task (softDelete_checks nofun)
  | undelete minted objectId orgId restoredData options =>
    exact Checked.task (undelete_checks nofun)
  | restoreChangeSet ids input => exact Checked.task (restoreChangeSet_checks rfl)
  | restoreVersion minted projectId objectId targetVersion actor freshness =>
    exact Checked.task (restoreVersion_checks nofun)
  | approve minted projectId input =>
    exact Checked.task (approve_checks nofun)
  | reject input => exact Checked.task (reject_checks _)

/-! ## What a step writes -/

/-- A call that has taken effect, though its reply may be lost. -/
def Taken (fault : Fault) : Prop := ∀ message, fault ≠ .failed message

/-- Only a transaction that succeeds, and is taken, writes rows and events. -/
theorem answer_writes (fault : Fault) (c : HistoryCall) (db : Db) :
    ((history.answer fault c db).2.objects = db.objects ∧
        (history.answer fault c db).2.events = db.events) ∨
      ∃ statements, c = .transaction statements ∧ Taken fault ∧
        transaction db statements = .ok (history.answer fault c db).2 := by
  have hanswer : ((answerHistory db c).2.objects = db.objects ∧
      (answerHistory db c).2.events = db.events) ∨
      ∃ statements, c = .transaction statements ∧
        transaction db statements = .ok (answerHistory db c).2 := by
    cases c with
    | transaction statements =>
      cases htransaction : transaction db statements with
      | ok db' =>
        refine .inr ⟨statements, rfl, ?_⟩
        simp only [answerHistory, htransaction]
      | error e =>
        refine .inl ?_
        simp only [answerHistory, htransaction, and_self]
    | insertChangeSet row =>
      refine .inl ?_
      simp only [answerHistory]
      split
      · exact ⟨rfl, rfl⟩
      · exact ⟨rfl, rfl⟩
    | readChangeSet | readChangeSetEvents | rollupEvents | closeChangeSet | readObject
    | readObjectScope | readProject | maxSequence | listEventsForObject | claimProposal | markApplied
    | releaseClaim | readProposal | rejectProposal => exact .inl ⟨rfl, rfl⟩
  cases fault with
  | failed message => exact .inl ⟨rfl, rfl⟩
  | answered =>
    refine hanswer.imp_right ?_
    rintro ⟨statements, hc, h⟩
    exact ⟨statements, hc, nofun, h⟩
  | lost message =>
    refine hanswer.imp_right ?_
    rintro ⟨statements, hc, h⟩
    exact ⟨statements, hc, nofun, h⟩

section Steps

variable {ν : Type} {see : ν → (c : HistoryCall) → Except HistoryError c.Reply → ν}
  {job : Writer → Task HistoryCall HistoryCall.Reply HistoryError ν}
  {s : Pool HistoryCall HistoryCall.Reply HistoryError ν Db}

variable (see job s) in
/-- The rows and the log change by a writer's transaction only. -/
theorem step_writes (e : WriterEvent) :
    ((step historyHost see job s e).world.objects = s.world.objects ∧
        (step historyHost see job s e).world.events = s.world.events) ∨
      ∃ i fault v statements, e = .turn i fault ∧ NextCall s i (.transaction statements) v ∧
        Taken fault ∧
        transaction s.world statements = .ok (step historyHost see job s e).world := by
  by_cases hsame : (step historyHost see job s e).world = s.world
  · rw [hsame]
    exact .inl ⟨rfl, rfl⟩
  obtain ⟨i, fault, c, v, rfl, hcall, _, hworld⟩ := step_world (fun _ _ => rfl) hsame
  rw [hworld]
  rcases answer_writes fault c s.world with hkept | ⟨statements, rfl, htaken, htransaction⟩
  · exact .inl hkept
  · exact .inr ⟨i, fault, v, statements, rfl, hcall, htaken, htransaction⟩

theorem turn_transaction {i : Nat} {fault : Fault} {v : ν} {statements : List Statement}
    (hcall : NextCall s i (.transaction statements) v) (htaken : Taken fault) {db' : Db}
    (h : transaction s.world statements = .ok db') :
    (step historyHost see job s (.turn i fault)).world = db' := by
  have hworld : (step historyHost see job s (.turn i fault)).world =
      (history.answer fault (.transaction statements) s.world).2 :=
    turn_world (fun _ _ => rfl) hcall rfl
  rw [hworld]
  cases fault with
  | answered => simp only [history, answerHistory, h]
  | failed message => exact absurd rfl (htaken message)
  | lost message => simp only [history, answerHistory, h]

theorem step_keyed (e : WriterEvent) (h : s.world.Keyed) :
    (step historyHost see job s e).world.Keyed := by
  rcases step_writes see job s e with ⟨hobjects, _⟩ |
    ⟨_, _, _, _, _, _, _, htransaction⟩
  · rw [Db.Keyed, hobjects]
    exact h
  · exact transaction_keyed htransaction h

end Steps

/-- A database, and nobody at work on it. -/
def started {ν : Type} (db : Db) : Pool HistoryCall HistoryCall.Reply HistoryError ν Db :=
  ⟨db, fun _ => none⟩

end History
