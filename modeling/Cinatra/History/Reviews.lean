import Cinatra.History.Writers

/-! # Reviews — what a writer does to a proposal

    Only an approval claims a proposal, writes for it and marks or releases it, and it
    does so in one order: it writes once, what it has claimed, and what it has written
    it does not release before it has tried to mark it (`MayReview`).  At its end it
    holds no proposal that it has not tried to mark (`Released`). -/

namespace History

open Process

/-- No call on a proposal's status. -/
def NoReview : HistoryCall → Prop
  | .claimProposal _ _ _ | .markApplied _ _ | .releaseClaim _ | .rejectProposal _ _ _ => False
  | _ => True

/-- Nor a transaction. -/
def Quiet : HistoryCall → Prop
  | .transaction _ => False
  | c => NoReview c

variable {c : HistoryCall}

theorem Quiet.noReview (h : Quiet c) : NoReview c := by
  cases c <;> trivial

variable {α : Type}

theorem closeChangeSet_quiet (id : String) (reason : Option String) :
    Only Quiet (closeChangeSet id reason) := by
  refine Only.bind (only_perform trivial) fun agg => Only.bind (only_perform trivial) fun row => ?_
  cases row with
  | none => exact only_throwErr _
  | some row => exact only_pure row

theorem openChangeSet_quiet (id : String) (actor : HistoryActor) (restoreOf : Option String) :
    Only Quiet (openChangeSet id actor restoreOf) :=
  Only.bind (only_perform trivial) fun _ => only_pure id

theorem autoChangeSet_quiet (minted : Minted) (actor : HistoryActor) (changeSet : Option String) :
    Only Quiet (autoChangeSet minted actor changeSet) := by
  cases changeSet with
  | none => exact openChangeSet_quiet _ _ _
  | some id => exact only_pure id

theorem assertProjectWritable_quiet (projectId : Option String) :
    Only Quiet (assertProjectWritable projectId) := by
  cases projectId with
  | none => exact only_pure ()
  | some id =>
    refine Only.bind (only_perform trivial) fun row => ?_
    cases row with
    | none => exact only_throwErr _
    | some row =>
      dsimp only
      split
      · exact only_throwErr _
      · exact only_pure ()

theorem getNextEventSequence_quiet (id : String) : Only Quiet (getNextEventSequence id) :=
  Only.bind (only_perform trivial) fun _ => only_pure _

theorem maybeAutoClose_quiet (options : HistoryWriteOptions) (id reason : String) :
    Only Quiet (maybeAutoClose options id reason) := by
  rw [maybeAutoClose]
  split
  · exact only_pure ()
  · exact Only.swallow (closeChangeSet_quiet id _)

/-- What a write does when its statement fails. -/
def conflict (id : String) (expected : Option Nat) (reason : Option ObjectRow → String)
    (err : HistoryError) : HistoryProg Unit :=
  if err = .sql .divisionByZero then do
    let current : Option ObjectRow ← perform (HistoryCall.readObject id)
    throwErr (.versionConflict id (current.map ObjectRow.version) expected (reason current))
  else throwErr err

theorem conflict_quiet (id : String) (expected : Option Nat) (reason : Option ObjectRow → String)
    (err : HistoryError) : Only Quiet (conflict id expected reason err) := by
  rw [conflict]
  split
  · exact Only.bind (only_perform trivial) fun _ => only_throwErr _
  · exact only_throwErr err

/-! ## Writers that review nothing -/

theorem write_unreviewed (id : String) (expected : Option Nat)
    (reason : Option ObjectRow → String) (s : Statement) :
    Only NoReview (write id expected reason s) :=
  Only.tryCatch (only_perform trivial) fun err =>
    (conflict_quiet id expected reason err).mono fun _ => Quiet.noReview

theorem upsert_unreviewed (minted : Minted) (projectId : Option String)
    (input : HistoryAwareUpsertInput) (options : HistoryWriteOptions) :
    Only NoReview (historyAwareUpsert minted projectId input options) :=
  Only.bind (only_lift _) fun _ =>
    Only.bind ((assertProjectWritable_quiet _).mono fun _ => Quiet.noReview) fun _ =>
    Only.bind ((autoChangeSet_quiet _ _ _).mono fun _ => Quiet.noReview) fun _ =>
    Only.bind ((getNextEventSequence_quiet _).mono fun _ => Quiet.noReview) fun _ =>
    Only.bind (only_perform trivial) fun _ =>
    Only.bind (write_unreviewed _ _ _ _) fun _ =>
    Only.bind ((maybeAutoClose_quiet _ _ _).mono fun _ => Quiet.noReview) fun _ => only_pure _

theorem softDelete_unreviewed (minted : Minted) (objectId : String) (orgId : Option String)
    (options : HistoryWriteOptions) :
    Only NoReview (historyAwareSoftDelete minted objectId orgId options) := by
  refine Only.bind (only_lift _) fun _ => ?_
  split
  · exact only_throwErr _
  refine Only.bind (only_perform trivial) fun before => ?_
  cases before with
  | none => exact only_throwErr _
  | some before =>
    exact Only.bind ((autoChangeSet_quiet _ _ _).mono fun _ => Quiet.noReview) fun _ =>
      Only.bind ((getNextEventSequence_quiet _).mono fun _ => Quiet.noReview) fun _ =>
      Only.bind (write_unreviewed _ _ _ _) fun _ =>
      Only.bind ((maybeAutoClose_quiet _ _ _).mono fun _ => Quiet.noReview) fun _ =>
        only_pure _

theorem undelete_unreviewed (minted : Minted) (objectId : String) (orgId : Option String)
    (restoredData : Data) (options : HistoryWriteOptions) :
    Only NoReview (historyAwareUndelete minted objectId orgId restoredData options) := by
  rw [historyAwareUndelete]
  split
  · exact only_throwErr _
  refine Only.bind (only_perform trivial) fun before => ?_
  cases before with
  | none => exact only_throwErr _
  | some before =>
    dsimp only
    split
    · exact only_throwErr _
    exact Only.bind ((autoChangeSet_quiet _ _ _).mono fun _ => Quiet.noReview) fun _ =>
      Only.bind ((getNextEventSequence_quiet _).mono fun _ => Quiet.noReview) fun _ =>
      Only.bind (write_unreviewed _ _ _ _) fun _ =>
      Only.bind ((maybeAutoClose_quiet _ _ _).mono fun _ => Quiet.noReview) fun _ =>
        only_pure _

theorem restoreVersion_unreviewed (minted : Minted) (projectId : Option String)
    (objectId : String) (targetVersion : Nat) (actor : HistoryActor)
    (freshness : FreshnessState) : Only NoReview
      (restoreObjectToVersion minted projectId objectId targetVersion actor freshness) := by
  rw [restoreObjectToVersion]
  refine Only.bind (only_perform trivial) fun current => ?_
  cases current with
  | none => exact only_throwErr _
  | some current =>
    dsimp only
    split
    · exact only_throwErr _
    refine Only.bind (only_perform trivial) fun events => ?_
    cases checkTarget objectId targetVersion freshness events with
    | error err => exact only_throwErr err
    | ok target =>
      obtain ⟨event, target⟩ := target
      show Only NoReview (restoreVersion _ _ _ _ _ _ _ _)
      rw [restoreVersion]
      split
      · exact Only.bind (upsert_unreviewed _ _ _ _) fun _ => only_pure _
      · exact Only.bind (softDelete_unreviewed _ _ _ _) fun _ => only_pure _
      · exact Only.bind (undelete_unreviewed _ _ _ _ _) fun _ => only_pure _
      · exact only_pure _

theorem readVersions_quiet (orgId : Option String) (ids : List String) :
    Only Quiet (readVersions orgId ids) := by
  induction ids with
  | nil => exact only_pure _
  | cons id ids ih =>
    exact Only.bind (only_perform trivial) fun _ => Only.bind ih fun _ => only_pure _

theorem applyInverses_unreviewed (input : RestoreChangeSetInput) (container : String)
    (events : List ObjectChangeEvent) (built : Built) :
    Only NoReview (applyInverses input container events built) := by
  have hclose : ∀ reason, Only NoReview (closeChangeSet container reason) := fun reason =>
    (closeChangeSet_quiet _ reason).mono fun _ => Quiet.noReview
  cases built with
  | missing objectId => exact Only.bind (hclose _) fun _ => only_throwErr _
  | thrown err => exact only_throwErr err
  | statements statements =>
    cases statements with
    | nil => exact Only.bind (hclose _) fun _ => only_pure _
    | cons s rest =>
      refine Only.bind (Only.tryCatch (only_perform trivial) fun err => ?_) fun _ => ?_
      · exact Only.bind (hclose _) fun _ => only_throwErr _
      · exact Only.bind (hclose _) fun _ => only_pure _

theorem restoreChangeSet_unreviewed (ids : RestoreIds) (input : RestoreChangeSetInput) :
    Only NoReview (restoreChangeSet ids input) := by
  refine Only.bind (Only.bind (only_perform trivial) fun _ =>
    Only.bind (only_perform trivial) fun _ => only_pure _) fun loaded => ?_
  cases loaded with
  | none => exact only_throwErr _
  | some loaded =>
    obtain ⟨changeSet, events⟩ := loaded
    show Only NoReview (restoreLoaded ids input changeSet events)
    rw [restoreLoaded]
    cases checkRestorable input changeSet events with
    | error err => exact only_throwErr err
    | ok u =>
      exact Only.bind (only_lift _) fun _ =>
        Only.bind ((openChangeSet_quiet _ _ _).mono fun _ => Quiet.noReview) fun _ =>
        Only.bind ((readVersions_quiet _ _).mono fun _ => Quiet.noReview) fun _ =>
        applyInverses_unreviewed _ _ _ _

/-! ## The order of a review -/

/-- What the update of an approval writes. -/
def approvedUpdate (projectId : Option String) (input : ApproveMergeProposalInput)
    (p : MergeProposal) (event : EventArgs) (before : Option ObjectRow) : Statement :=
  .update (writeArgs (approvedInput input p) input.actor projectId event) p.baseVersion before

/-- An approval that has claimed a proposal, and has not tried to mark it. -/
structure Holding (w : Writer) (p : MergeProposal) (wrote : Bool) (v : Seen) : Prop where
  writer : v.writer = w
  claimed : v.claimed = some p
  wrote : v.wrote = wrote
  marked : v.marked = false

/-- An approval that has claimed nothing yet. -/
structure Unclaimed (minted : Minted) (projectId : Option String)
    (input : ApproveMergeProposalInput) (v : Seen) : Prop where
  writer : v.writer = .approve minted projectId input
  claimed : v.claimed = none
  wrote : v.wrote = false
  marked : v.marked = false

def MayReview (v : Seen) : HistoryCall → Prop
  | .transaction statements => ∀ minted projectId input,
      v.writer = .approve minted projectId input → ∃ p event before, Holding v.writer p false v ∧
        event.eventId = minted.eventId ∧
        statements = [approvedUpdate projectId input p event before]
  | .claimProposal id _ _ => ∃ minted projectId input, Unclaimed minted projectId input v ∧
      id = input.proposalId
  | .markApplied id eventId => ∃ minted projectId input p,
      Holding (.approve minted projectId input) p true v ∧ id = p.id ∧ eventId = minted.eventId
  | .releaseClaim id => ∃ minted projectId input p,
      v.writer = .approve minted projectId input ∧ v.claimed = some p ∧ id = p.id ∧
        (v.wrote = true → v.marked = true)
  | _ => True

/-- No proposal is held that has not been tried to be marked. -/
def Released (v : Seen) : Prop := v.claimed = none ∨ v.marked = true

abbrev Reviews (p : HistoryProg α) (Q : Except HistoryError α → Seen → Prop) (v : Seen) : Prop :=
  Spec (observed seeHistory) MayReview p Q v

theorem mayReview_of_quiet (v : Seen) (h : Quiet c) : MayReview v c := by
  cases c <;> trivial

variable {v : Seen} {p : MergeProposal} {wrote : Bool} {w : Writer}

theorem see_quiet (r : Except HistoryError c.Reply) (h : Holding w p wrote v) (hc : Quiet c) :
    Holding w p wrote (seeHistory v c r) := by
  unfold seeHistory
  split <;> first | exact ⟨h.writer, h.claimed, h.wrote, h.marked⟩ | exact hc.elim

variable {prog : HistoryProg α}

theorem Holding.bind {β : Type} {f : α → HistoryProg β} {Q : Except HistoryError β → Seen → Prop}
    (h : Holding w p wrote v) (hprog : Only Quiet prog)
    (hf : ∀ a v', Holding w p wrote v' → Reviews (f a) Q v')
    (herr : ∀ err v', Holding w p wrote v' → Q (.error err) v') : Reviews (prog >>= f) Q v := by
  refine Spec.bind (Spec.mono (hprog.observed (I := Holding w p wrote)
    (fun v c _ hc => mayReview_of_quiet v hc) (fun v c r hv hc => see_quiet r hv hc) h) ?_)
  intro r v' hv'
  cases r with
  | ok a => exact hf a v' hv'
  | error err => exact herr err v' hv'

section Approve

variable {minted : Minted} {projectId : Option String} {input : ApproveMergeProposalInput}
  {p : MergeProposal} {w : Writer} {wrote : Bool} {v : Seen}

theorem Holding.conflict (h : Holding w p wrote v) (id : String) (expected : Option Nat)
    (reason : Option ObjectRow → String) (err : HistoryError) :
    Reviews (History.conflict id expected reason err)
      (fun r v => (∃ err', r = .error err') ∧ Holding w p wrote v) v := by
  rw [History.conflict]
  split
  · refine h.bind (only_perform trivial) (fun current v h => ?_) fun err' _ h => ⟨⟨err', rfl⟩, h⟩
    exact ⟨⟨_, rfl⟩, h⟩
  · exact ⟨⟨err, rfl⟩, h⟩

theorem Holding.autoClose (h : Holding w p wrote v) (options : HistoryWriteOptions)
    (id reason : String) : Reviews (maybeAutoClose options id reason)
      (fun r v => r = .ok () ∧ Holding w p wrote v) v := by
  rw [maybeAutoClose]
  split
  · exact ⟨rfl, h⟩
  · refine Spec.swallow (Spec.mono ((closeChangeSet_quiet id _).observed
      (I := Holding w p wrote) (fun v c _ hc => mayReview_of_quiet v hc)
      (fun v c r hv hc => see_quiet r hv hc) h) ?_)
    exact fun r v hv => ⟨rfl, hv⟩

/-- What the upsert of an approval leaves: it has written, or it has failed and has not. -/
def Written (minted : Minted) (projectId : Option String) (input : ApproveMergeProposalInput)
    (p : MergeProposal) : Except HistoryError WriteResult → Seen → Prop
  | .ok result, v => Holding (.approve minted projectId input) p true v ∧
      result.eventId = minted.eventId
  | .error _, v => Holding (.approve minted projectId input) p false v

theorem approved_upsert (h : Holding (.approve minted projectId input) p false v) :
    Reviews (historyAwareUpsert minted projectId (approvedInput input p) (approvedOptions input p))
      (Written minted projectId input p) v := by
  refine h.bind (only_lift _) (fun _ v h => ?_) fun _ _ h => h
  refine h.bind (assertProjectWritable_quiet _) (fun _ v h => ?_) fun _ _ h => h
  refine h.bind (autoChangeSet_quiet _ _ _) (fun id v h => ?_) fun _ _ h => h
  refine h.bind (getNextEventSequence_quiet _) (fun sequence v h => ?_) fun _ _ h => h
  refine h.bind (only_perform trivial) (fun before v h => ?_) fun _ _ h => h
  refine Spec.bind (Spec.tryCatch (observe_spec ?_ fun r => ?_))
  · rintro minted' projectId' input' hwriter
    cases h.writer.symm.trans hwriter
    exact ⟨p, _, before, h.writer ▸ h, rfl, rfl⟩
  · cases r with
    | ok u =>
      have hwrote : Holding (.approve minted projectId input) p true { v with wrote := true } :=
        ⟨h.writer, h.claimed, rfl, h.marked⟩
      refine Spec.bind (Spec.mono (hwrote.autoClose _ _ _) ?_)
      rintro r v' ⟨rfl, h⟩
      exact ⟨h, rfl⟩
    | error err =>
      refine Spec.mono (h.conflict _ _ _ err) ?_
      rintro r v' ⟨⟨err', rfl⟩, h⟩
      exact h

theorem release_ends (hwriter : v.writer = .approve minted projectId input)
    (hclaimed : v.claimed = some p) (hmarked : v.wrote = true → v.marked = true)
    (err : HistoryError) :
    Reviews (do perform (HistoryCall.releaseClaim p.id); throwErr err : HistoryProg ApproveResult)
      (fun _ v => Released v) v := by
  refine Spec.bind (observe_spec ⟨minted, projectId, input, p, hwriter, hclaimed, rfl, hmarked⟩
    fun r => ?_)
  cases r with
  | ok | error => exact .inl rfl

theorem applyClaimed_ends (h : Holding (.approve minted projectId input) p false v) :
    Reviews (applyClaimed minted projectId input p) (fun _ v => Released v) v := by
  refine Spec.tryCatch (Spec.bind (Spec.mono (approved_upsert h) ?_))
  intro r v h
  cases r with
  | error err =>
    have hheld : Holding (.approve minted projectId input) p false v := h
    refine release_ends hheld.writer hheld.claimed (fun hwrote => ?_) err
    rw [hheld.wrote] at hwrote
    cases hwrote
  | ok result =>
    obtain ⟨hheld, hevent⟩ := h
    refine Spec.bind (observe_spec ⟨minted, projectId, input, p, hheld, rfl, hevent⟩ fun r => ?_)
    cases r with
    | ok u => exact .inr rfl
    | error err =>
      have hmarked : ({ v with marked := true } : Seen).writer =
          .approve minted projectId input := hheld.writer
      exact release_ends hmarked hheld.claimed (fun _ => rfl) err

theorem approve_ends (h : Unclaimed minted projectId input v) :
    Reviews (approveMergeProposal minted projectId input) (fun _ v => Released v) v := by
  refine Spec.bind (observe_spec ⟨minted, projectId, input, h, rfl⟩ fun r => ?_)
  cases r with
  | error err => exact .inl h.claimed
  | ok claimed =>
    cases claimed with
    | none => exact .inl rfl
    | some p => exact applyClaimed_ends ⟨h.writer, rfl, h.wrote, h.marked⟩

end Approve

/-- Some writer that reviews nothing, or only rejects. -/
def Unreviewing (v : Seen) : Prop :=
  v.claimed = none ∧ ∀ minted projectId input, v.writer ≠ .approve minted projectId input

theorem unreviewing_ends (hprog : Only NoReview prog)
    (h : Unreviewing v) : (Task.of prog v).Ends seeHistory MayReview Released := by
  refine Task.ends_of (Spec.mono (hprog.observed (I := Unreviewing) ?_ ?_ h) ?_)
  · intro v c hv hc
    cases c <;> first | trivial | exact hc.elim | skip
    intro minted projectId input hwriter
    exact absurd hwriter (hv.2 minted projectId input)
  · intro v c r hv hc
    refine ⟨?_, fun minted projectId input => ?_⟩
    · unfold seeHistory
      split <;> first | exact hv.1 | exact hc.elim
    · rw [seeHistory_writer]
      exact hv.2 minted projectId input
  · exact fun r v hv => .inl hv.1

theorem reject_ends (input : RejectMergeProposalInput) (h : v.claimed = none) :
    Reviews (rejectMergeProposal input) (fun _ v => Released v) v := by
  refine Spec.bind (observe_spec trivial fun r => ?_)
  cases r with
  | error err => exact .inl h
  | ok proposal =>
    cases proposal with
    | none => exact .inl h
    | some proposal =>
      refine Spec.bind (observe_spec trivial fun r => ?_)
      cases r with
      | error err => exact .inl h
      | ok row =>
        cases row with
        | none | some => exact .inl h

/-- **Every operation keeps to the order of a review, and ends with nothing held.** -/
theorem writer_ends (w : Writer) : (w.task newSeen).Ends seeHistory MayReview Released := by
  cases w with
  | upsert minted projectId input options =>
    exact unreviewing_ends (upsert_unreviewed _ _ _ _) ⟨rfl, nofun⟩
  | softDelete minted objectId orgId options =>
    exact unreviewing_ends (softDelete_unreviewed _ _ _ _) ⟨rfl, nofun⟩
  | undelete minted objectId orgId restoredData options =>
    exact unreviewing_ends (undelete_unreviewed _ _ _ _ _)
      ⟨rfl, nofun⟩
  | restoreChangeSet ids input =>
    exact unreviewing_ends (restoreChangeSet_unreviewed _ _)
      ⟨rfl, nofun⟩
  | restoreVersion minted projectId objectId targetVersion actor freshness =>
    exact unreviewing_ends (restoreVersion_unreviewed _ _ _ _ _ _)
      ⟨rfl, nofun⟩
  | approve minted projectId input =>
    exact Task.ends_of (approve_ends ⟨rfl, rfl, rfl, rfl⟩)
  | reject input => exact Task.ends_of (reject_ends input rfl)

end History
