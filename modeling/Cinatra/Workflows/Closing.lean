import Cinatra.Workflows.Settling

/-! # Closing — approvals as acts, and the three ways a workflow ends

    Staleness, solicitation and decisions write approval rows alone.  The
    roll-up, a rejection with the cancel policy, and a cancellation close the
    workflow: each is a path of acts and then one write of the workflow row, at
    the version it was read at (`Close`). -/

namespace WfClosing

open WfTransitions WfSpec WfRows WfHost WfState WfApprovals
open WfLifecycle WfActs WfInvariant WfPaths

variable {e e' cur : Engine} {now : Instant} {host : Host}

theorem invalidateStaleApprovals_path (hpath : Path e cur) :
    Path e (invalidateStaleApprovals host now e cur) :=
  invalidateStaleApprovals_rec hpath fun _ _ _ hm =>
    hm.tail (Act.approvals _ _ (fun _ => ⟨rfl, rfl, rfl⟩))

theorem solicitApprovals_path (hpath : Path e cur) : Path e (solicitApprovals host now e cur) := by
  refine solicitApprovals_rec hpath fun _ _ _ _ hm => ?_
  refine (hm.tail (Act.approvals _ _ ?_)).tail (Act.solicited _)
  exact fun _ => ⟨rfl, rfl, rfl⟩

theorem decideWorkflowApproval_path (approvalId : RowId) (decidedBy : String)
    (decision : ApprovalDecision) (rp : Option RejectionPolicy) (reason : Option String) :
    Path e (decideWorkflowApproval approvalId decidedBy decision rp reason e) :=
  Relation.ReflTransGen.single (Act.approvals _ _ (fun _ => ⟨rfl, rfl, rfl⟩))

/-! ## Closing a workflow -/

/-- The write that closes a live workflow. -/
structure Close (e e' : Engine) : Prop where
  live : Live e.db.workflow.status
  bare : e.db.leases = []
  row : e' = { e with db := { e.db with workflow := e'.db.workflow } }
  id : e'.db.workflow.id = e.db.workflow.id
  move : canTransition workflowTransitions e.db.workflow.status e'.db.workflow.status = true
  terminal : isTerminalWorkflowStatus e'.db.workflow.status = true

/-- What a closing operation does: row acts only, or a path and the close. -/
def Closes (e e' : Engine) : Prop := RowPath e e' ∨ ∃ m, Path e m ∧ Close m e'

theorem Close.tasks (h : Close e e') : e'.db.tasks = e.db.tasks := by rw [h.row]

theorem Close.dispatched (h : Close e e') : e'.dispatched = e.dispatched := by rw [h.row]

/-- A terminal workflow is no draft, so the invariant survives the close. -/
theorem Inv.close (h : Inv e) (hc : Close e e') : Inv e' := by
  have hnd : e'.db.workflow.status = .draft → Untouched e' := by
    intro hs
    have ht := hc.terminal
    rw [hs] at ht
    cases ht
  have hid := hc.id
  rw [hc.row] at hnd ⊢
  refine ⟨⟨h.keyed.ids, h.keyed.keys, h.keyed.old⟩,
    ⟨h.ledger.ids, h.ledger.old, h.ledger.numbered, ?_, h.ledger.highest, h.ledger.waiting,
      h.ledger.untouched, h.ledger.task⟩,
    ⟨h.leased.one, h.leased.held, h.leased.running, h.leased.backed⟩,
    ⟨h.carried.tokens, h.carried.old, h.carried.dispatched, h.carried.polled, h.carried.manual⟩,
    ⟨h.linked.deps, h.linked.approvals, h.linked.approval_ids, h.linked.artifacts⟩, hnd,
    fun _ => hc.bare⟩
  intro a ha
  rw [h.ledger.keyed a ha, ← hid]

theorem deleteLeases_all (e : Engine) : (e.deleteLeases (fun _ => true)).db.leases = [] :=
  List.filter_eq_nil_iff.mpr (fun _ _ h => absurd h Bool.false_ne_true)

theorem cancelTasks_act (hl : Live e.db.workflow.status) : RowAct e (cancelTasks e) := by
  refine RowAct.tasks _ _ ?_
  intro t _ hp
  have hopen := (mem_nonTerminalTaskStatuses t.status).mp (List.contains_iff_mem.mp hp)
  exact ⟨rfl, rfl, rfl, Nat.lt_succ_self _, StatusMove.finish hopen rfl rfl (.inr hl)⟩

/-! ### Rejection -/

private theorem applySkipPolicy_path (hinv : Inv e) (hlive : Live e.db.workflow.status)
    (hpath : RowPath e cur) (ap : ApprovalRow) : RowPath e (applySkipPolicy e cur ap) := by
  rw [applySkipPolicy]
  by_cases hskip : ap.status = .rejected ∧ ap.rejectionPolicy = some .skip
  swap
  · rw [if_neg hskip]
    exact hpath
  rw [if_pos hskip]
  cases htask : taskById e.db.tasks ap.taskId with
  | none => exact hpath
  | some s =>
    by_cases hterm : isTerminalTaskStatus s.status = true
    · simp only [hterm, if_true]
      exact hpath
    simp only [hterm, Bool.false_eq_true, if_false]
    rw [Bool.not_eq_true] at hterm
    refine hpath.tail (((loaded_self e).path hinv hpath.path).cas (hinv.path hpath.path).keyed
      (mem_of_taskById htask).1 ?_)
    intro t _ _ hv hcopy
    refine ⟨rfl, rfl, rfl, ?_, StatusMove.finish ?_ rfl rfl (.inr (Path.live hpath.path hlive))⟩
    · show t.lockVersion < s.lockVersion + 1
      omega
    · rw [hcopy.status]
      exact hterm

/-- The skips of the rejected approvals. -/
def skipRejected (snap cur : Engine) : Engine := snap.db.approvals.foldl (applySkipPolicy snap) cur

theorem skipRejected_path (hinv : Inv e) (hlive : Live e.db.workflow.status)
    (hpath : RowPath e cur) : RowPath e (skipRejected e cur) := by
  refine List.foldlRecOn e.db.approvals (applySkipPolicy e) (motive := fun m => RowPath e m) hpath
    ?_
  exact fun m hm ap _ => applySkipPolicy_path hinv hlive hm ap

/-- A rejected approval asks for the workflow's cancellation. -/
def rejectionCancels (snap : Engine) : Bool :=
  snap.db.approvals.any (fun ap => ap.status = .rejected && ap.rejectionPolicy = some .cancel)

theorem applyRejectedApprovalPolicies_eq (snap cur : Engine) :
    applyRejectedApprovalPolicies snap cur = if snap.db.workflow.status ≠ .active then cur
      else if rejectionCancels snap = true ∧ (skipRejected snap cur).db.workflow.lockVersion =
          snap.db.workflow.lockVersion then
        (cancelTasks ((skipRejected snap cur).setWorkflowStatus snap.db.workflow.lockVersion
          .cancelled)).deleteLeases (fun _ => true) else skipRejected snap cur := rfl

/-- Cancelled: every open task cancelled, every lease gone, the row closed. -/
private theorem closes_cancelled {m m' : Engine} (hpath : Path e m)
    (hv : m.db.workflow.lockVersion = e.db.workflow.lockVersion)
    (hs : Live e.db.workflow.status) (happ : Act (cancelTasks m) m' ∨ m' = cancelTasks m) :
    Closes e ((m'.deleteLeases (fun _ => true)).setWorkflowStatus
      e.db.workflow.lockVersion .cancelled) := by
  have hrow := Path.workflow_eq hpath hv
  have hlive : Live m.db.workflow.status := by rw [hrow]; exact hs
  have hcancel : Path e (cancelTasks m) := hpath.tail (Act.row (cancelTasks_act hlive))
  have hm' : Path e m' := by
    rcases happ with hact | heq
    · exact hcancel.tail hact
    · rw [heq]
      exact hcancel
  have hend : Path e (m'.deleteLeases (fun _ => true)) :=
    hm'.tail (Act.row (RowAct.drop _))
  have hlive' : Live m'.db.workflow.status := Path.live hm' hs
  have hbare : (m'.deleteLeases (fun _ => true)).db.leases = [] := deleteLeases_all m'
  refine .inr ⟨_, hend, hlive', hbare, rfl, rfl, ?_, rfl⟩
  show canTransition workflowTransitions m'.db.workflow.status .cancelled = true
  rcases hlive' with h | h
  · rw [h]; rfl
  · rw [h]; rfl

theorem applyRejectedApprovalPolicies_closes (hinv : Inv e) (hpath : RowPath e cur) :
    Closes e (applyRejectedApprovalPolicies e cur) := by
  rw [applyRejectedApprovalPolicies_eq]
  by_cases hactive : e.db.workflow.status ≠ .active
  · rw [if_pos hactive]
    exact .inl hpath
  rw [if_neg hactive]
  have hlive : Live e.db.workflow.status := .inl (not_not.mp hactive)
  have hskip : RowPath e (skipRejected e cur) := skipRejected_path hinv hlive hpath
  by_cases hcancel : rejectionCancels e = true ∧
      (skipRejected e cur).db.workflow.lockVersion = e.db.workflow.lockVersion
  · rw [if_pos hcancel]
    exact closes_cancelled hskip.path hcancel.2 hlive (.inr rfl)
  · rw [if_neg hcancel]
    exact .inl hskip

theorem cancelWorkflow_closes (hpath : RowPath e cur) : Closes e (cancelWorkflow e cur) := by
  rw [cancelWorkflow]
  by_cases hidle : e.db.workflow.status ≠ .active ∧ e.db.workflow.status ≠ .paused
  · rw [if_pos hidle]
    exact .inl hpath
  rw [if_neg hidle]
  by_cases hcas : cur.db.workflow.lockVersion = e.db.workflow.lockVersion ∧
      (cur.db.workflow.status = .active ∨ cur.db.workflow.status = .paused)
  · rw [if_pos hcas]
    have hlive : Live e.db.workflow.status := by
      rw [← Path.workflow_eq hpath.path hcas.1]
      exact hcas.2
    have hstamp : Act (cancelTasks cur) ((cancelTasks cur).updateApprovals
        (fun a => a.status = .pending) (fun a =>
          { a with invalidatedAt := some cur.clock, updatedAt := cur.clock })) :=
      Act.approvals _ _ (fun _ => ⟨rfl, rfl, rfl⟩)
    exact closes_cancelled hpath.path hcas.1 hlive (.inl hstamp)
  · rw [if_neg hcas]
    exact .inl hpath

end WfClosing
