import Cinatra.Workflows.Runs

/-! # Attempt ledger — numbering, keys, and one live attempt

    A claim derives the attempt number from a row count, and every operation that
    writes task or attempt rows keeps the count, the keys and the one running
    attempt in step.  All of it is the `Ledger` of the invariant, read off a
    reachable state. -/

namespace WfAttemptLedger

open WfTransitions WfSpec WfRows WfHost WfState WfReconciler WfLifecycle WfEngine WfInvariant WfRuns

variable {host : Host} {e : Engine}

theorem runningAttempts_length (hinv : Inv e) (taskId : RowId) :
    (runningAttempts e.db.attempts taskId).length ≤ 1 := by
  have hnd : (runningAttempts e.db.attempts taskId).Nodup :=
    (List.Nodup.of_map AttemptRow.id hinv.ledger.ids).filter _
  cases hr : runningAttempts e.db.attempts taskId with
  | nil => exact Nat.zero_le 1
  | cons a rest =>
    cases rest with
    | nil => exact Nat.le_refl 1
    | cons b rest =>
      -- two running attempts of one task are one row, which the table has once
      have ha := mem_runningAttempts.mp (hr ▸ List.mem_cons_self ..)
      have hb := mem_runningAttempts.mp
        (hr ▸ List.mem_cons_of_mem a (List.mem_cons_self (a := b) (l := rest)))
      have hab : a = b := hinv.running_unique ha.1 hb.1 (ha.2.1.trans hb.2.1.symm) ha.2.2 hb.2.2
      rw [hr, hab] at hnd
      exact absurd (List.mem_cons_self ..) (List.nodup_cons.mp hnd).1

theorem running_highest (hinv : Inv e) {a b : AttemptRow} (ha : a ∈ e.db.attempts)
    (hrun : a.status = .running) (hb : b ∈ e.db.attempts) (hid : b.taskId = a.taskId) :
    b.attemptNo ≤ a.attemptNo := by
  have hmem : b.attemptNo ∈ attemptNumbers e.db.attempts a.taskId :=
    List.mem_map_of_mem (List.mem_filter.mpr ⟨hb, decide_eq_true hid⟩)
  rw [hinv.ledger.numbered, List.mem_range'_1] at hmem
  rw [hinv.ledger.highest a ha hrun]
  omega

/-- **The attempt ledger**, in every reachable state: attempts are numbered from 1
    without gaps, carry their own key, at most the highest-numbered one runs, and
    a waiting task has none that does; so the next claim leaves at most one. -/
theorem attempt_ledger (h : Reachable host e) : (∀ taskId, attemptNumbers e.db.attempts taskId =
      List.range' 1 (attemptCount e.db.attempts taskId)) ∧
    (∀ a ∈ e.db.attempts, a.idempotencyKey = ⟨e.db.workflow.id, a.taskId, a.attemptNo⟩) ∧
    (∀ taskId, (runningAttempts e.db.attempts taskId).length ≤ 1) ∧
    (∀ a ∈ e.db.attempts, a.status = .running →
      ∀ b ∈ e.db.attempts, b.taskId = a.taskId → b.attemptNo ≤ a.attemptNo) ∧
    (∀ t ∈ e.db.tasks, t.status = .idle ∨ t.status = .scheduled →
      runningAttempts e.db.attempts t.id = []) ∧ (∀ now between taskId,
      (runningAttempts (step host e (.claim now between)).db.attempts taskId).length ≤ 1) := by
  have hinv := inv_reachable h
  refine ⟨hinv.ledger.numbered, hinv.ledger.keyed, runningAttempts_length hinv,
    fun a ha hrun b hb hid => running_highest hinv ha hrun hb hid, ?_, ?_⟩
  · intro t ht hw
    refine List.eq_nil_iff_forall_not_mem.mpr ?_
    intro a ha
    obtain ⟨ham, hid, hrun⟩ := mem_runningAttempts.mp ha
    exact hinv.ledger.waiting t ht hw a ham hid hrun
  · intro now between taskId
    have hnext : Reachable host (step host e (.claim now between)) :=
      Machine.Reaches.next h (show Validated host e (.claim now between) from trivial)
    exact runningAttempts_length (inv_reachable hnext) taskId

/-- **No row dangles**, in every reachable state: attempts, edges, approvals and
    artifacts are of tasks that exist; a lease is the only one of its task, and of the
    task's latest attempt, which runs without a child run.  A draft has run nothing,
    and a workflow that has ended holds no lease. -/
theorem rows_linked (h : Reachable host e) : Linked e ∧
    (∀ a ∈ e.db.attempts, ∃ t ∈ e.db.tasks, t.id = a.taskId) ∧
    (e.db.leases.map LeaseRow.taskId).Nodup ∧
    (∀ l ∈ e.db.leases, ∃ a ∈ e.db.attempts, a.id = l.attemptId ∧ a.taskId = l.taskId ∧
      a.attemptNo = attemptCount e.db.attempts l.taskId ∧ a.status = .running ∧
      a.childRunId = none) ∧ (e.db.workflow.status = .draft → Untouched e) ∧
    (isTerminalWorkflowStatus e.db.workflow.status = true → e.db.leases = []) := by
  have hinv := inv_reachable h
  refine ⟨hinv.linked, hinv.ledger.task, hinv.leased.one, ?_, hinv.draft, hinv.shut⟩
  intro l hl
  obtain ⟨a, ha, hid, ht, hrun, hchild⟩ := hinv.lease_attempt hl
  exact ⟨a, ha, hid, ht, ht ▸ hinv.ledger.highest a ha hrun, hrun, hchild⟩

/-- One agent task. -/
def oneTask : WorkflowSpec :=
  { name := "w"
    tasks := [{ key := "a", title := "a", body := .agentTask ⟨"pkg", none, none, none⟩ none }] }

/-- A dispatch fails and is retried. -/
def retried : List Op :=
  [.lockFree .start, .claim 0 [],
    .record 0 [(⟨.uuid 0, .uuid 1, 1, ⟨"wf", .uuid 0, 1⟩, .uuid 2⟩, ⟨.failed, none, none⟩, [])],
    .claim 60000 []]

set_option maxRecDepth 4000 in
theorem attempt_ledger_retried :
    let e := run plainHost (start plainHost oneTask) retried
    e.db.attempts.map (fun a => (a.attemptNo, a.status)) = [(1, .failed), (2, .running)] ∧
      attemptNumbers e.db.attempts (.uuid 0) =
        List.range' 1 (attemptCount e.db.attempts (.uuid 0)) :=
  ⟨by decide +kernel, (attempt_ledger (reachable_run plainHost oneTask retried
      (by decide +kernel) (by decide +kernel) (by decide +kernel))).1 (.uuid 0)⟩

set_option maxRecDepth 4000 in
theorem rows_linked_retried : Linked (run plainHost (start plainHost oneTask) retried) :=
  (rows_linked (reachable_run plainHost oneTask retried
    (by decide +kernel) (by decide +kernel) (by decide +kernel))).1

end WfAttemptLedger
