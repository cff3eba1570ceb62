import Mathlib.Data.List.Dedup
import Mathlib.Data.List.Induction
import Cinatra.Workflows.ApprovalRows

/-! # Soliciting — when an approver is asked

    A solicitation looks at the approval's row and at the edges of its task, not at
    the task's own status.  A task that ends while its approval still waits to be
    solicited is asked about later, unless one of its edges is unsatisfiable by then:
    such an edge stays so (`HeldBack.step`).  In a run in which no step ends a task
    that way, every approver is asked about a task that is still open
    (`solicited_usefully`); in every run, once between two invalidations. -/

namespace WfSoliciting

open RowTable JsonValue WfTransitions WfSpec WfRows WfHost WfSchedule WfState WfGates
open WfReconciler WfApprovals WfForeachReconciler WfStore WfLifecycle WfEngine WfActs
open WfInvariant WfPaths WfInterference WfClosing WfEditing WfRevising WfRuns WfAbsorbing
open WfFrames WfClaiming WfSettling WfSettle WfRollup WfApprovalRows WfValidate

variable {host : Host} {e e' snap cur m m' : Engine} {op : Op} {now : Instant} {id : RowId}

/-- Pending, and nobody has been asked. -/
def Unsolicited (a : ApprovalRow) : Prop := a.status = .pending ∧ a.solicitedAt = none

/-- The task has an approval that waits to be solicited. -/
def HasUnsolicited (e : Engine) (taskId : RowId) : Prop :=
  ∃ a ∈ e.db.approvals, a.taskId = taskId ∧ Unsolicited a

/-- The task has ended. -/
def Ended (e : Engine) (taskId : RowId) : Prop :=
  ∃ t ∈ e.db.tasks, t.id = taskId ∧ isTerminalTaskStatus t.status = true

/-- One of the task's edges can no longer be satisfied. -/
def HeldBack (e : Engine) (taskId : RowId) : Prop :=
  ∃ d ∈ e.db.deps, d.taskId = taskId ∧ ∃ u ∈ e.db.tasks, u.id = d.dependsOnTaskId ∧
    resolveDependency u.status d.outcome = .blocked

/-- The workflow itself has ended. -/
def Over (e : Engine) : Prop := isTerminalWorkflowStatus e.db.workflow.status = true

/-! ### Edges that stay blocked -/

variable {o : DependencyOutcome} {s : TaskStatus}

theorem terminal_of_blocked
    (h : resolveDependency s o = .blocked) : isTerminalTaskStatus s = true := by
  by_contra hn
  have hp := (resolveDependency_pending_iff s o).mpr (by simpa using hn)
  rw [h] at hp
  cases hp

private theorem Act.deps (h : Act e e') : ∀ d ∈ e.db.deps, d ∈ e'.db.deps := by
  intro d hd
  cases h with
  | row hrow =>
    have hframe : e'.db.deps = e.db.deps := (RowPath.frame (.single hrow)).deps
    rw [hframe]
    exact hd
  | dependency d' hd' hu => exact List.mem_append_left _ hd
  | approvals | solicited | child | approval => exact hd

private theorem Path.deps (h : Path e e') : ∀ d ∈ e.db.deps, d ∈ e'.db.deps := by
  induction h with
  | refl => exact fun d hd => hd
  | tail _ hact ih => exact fun d hd => Act.deps hact d (ih d hd)

private theorem HeldBack.path (hinv : Inv e) (hpath : Path e e') (h : HeldBack e id) :
    HeldBack e' id := by
  obtain ⟨d, hd, hid, u, hu, huid, hblocked⟩ := h
  obtain ⟨u', hu', hf⟩ := Path.follows hinv hpath u hu
  refine ⟨d, Path.deps hpath d hd, hid, u', hu', hf.id.trans huid, ?_⟩
  rw [hf.terminal (terminal_of_blocked hblocked)]
  exact hblocked

theorem subset_of_length {α : Type} [DecidableEq α] {l l' : List α} (hnd : l.Nodup)
    (hsub : ∀ a ∈ l, a ∈ l') (hlen : l'.length = l.length) : ∀ a ∈ l', a ∈ l := by
  have hperm := (List.subperm_of_subset hnd hsub).perm_of_length_le (Nat.le_of_eq hlen)
  exact fun a ha => hperm.mem_iff.mpr ha

theorem edge_kept {s : TaskRow} {t : TaskSpec} (h : edgesKept snap s t = true)
    {d : DependencyRow} (hd : d ∈ snap.db.deps) (hid : d.taskId = s.id) {u : TaskRow}
    (hu : taskById snap.db.tasks d.dependsOnTaskId = some u) :
    ∃ dep ∈ t.dependsOn, dep.taskKey = u.key ∧ dep.outcomeOrSuccess = d.outcome := by
  rw [edgesKept, Bool.and_eq_true, decide_eq_true_eq, List.all_eq_true] at h
  obtain ⟨hlen, hall⟩ := h
  have hold : (u.key, d.outcome) ∈ oldEdges snap s.id := by
    rw [oldEdges, List.mem_dedup, List.mem_map]
    refine ⟨d, List.mem_filter.mpr ⟨hd, decide_eq_true hid⟩, ?_⟩
    have hkey : keyById snap.db.tasks d.dependsOnTaskId = some u.key := by
      rw [keyById, hu]
      rfl
    rw [hkey]
    rfl
  have hnew : (u.key, d.outcome) ∈ newEdges t := subset_of_length (List.nodup_dedup _)
    (fun a ha => List.contains_iff_mem.mp (hall a ha)) hlen _ hold
  rw [newEdges, List.mem_dedup, List.mem_map] at hnew
  obtain ⟨dep, hdep, heq⟩ := hnew
  exact ⟨dep, hdep, congrArg Prod.fst heq, congrArg Prod.snd heq⟩

private theorem HeldBack.revised {spec : WorkflowSpec} {resolved : Record ResolvedTask}
    (hread : Reread e cur) (hvalid : TemplateValid host spec)
    (hrev : Revised host e cur spec resolved e')
    (hfinished : ∀ t ∈ e.db.tasks, isTerminalTaskStatus t.status = true → Finished e' t.id t.status)
    (hended : Ended e id) (h : HeldBack e id) : HeldBack e' id := by
  obtain ⟨s, hs, rfl, hterm⟩ := hended
  obtain ⟨d, hd, hid, u, hu, huid, hblocked⟩ := h
  have hnd := hvalid.keys_nodup
  obtain ⟨r, hr, hrid⟩ := hread.all s hs
  obtain ⟨t, ht, hkey, hkept, _⟩ := hrev.frozen hread hs
    (frozen_of_status (not_waiting_of_terminal hterm)) hr hrid
  have hmem : s.key ∈ spec.keys := by
    rw [← hkey]
    exact List.mem_map_of_mem ht
  have hlook : lookup (editIds e cur spec) t.key = some s.id := by
    rw [hkey]
    exact editIds_kept hnd hread.read.keyed hs hmem
  -- the edge, as the spec has it
  have hfind : taskById e.db.tasks d.dependsOnTaskId = some u := by
    rw [← huid]
    exact taskById_eq_some hread.read.keyed.ids hu
  obtain ⟨dep, hdep, hdkey, hout⟩ := edge_kept hkept.edges hd hid hfind
  have hukey : u.key ∈ spec.keys := by
    rw [← hdkey]
    exact (hvalid.dependency_known ht hdep).1
  have hulook : lookup (editIds e cur spec) dep.taskKey = some u.id := by
    rw [hdkey]
    exact editIds_kept hnd hread.read.keyed hu hukey
  -- and as it was written
  have hedges := (hrev.deps t ht s.id hlook).2
  have hin : (some u.id, d.outcome) ∈ t.dependsOn.map
      (fun d => (lookup (editIds e cur spec) d.taskKey, d.outcomeOrSuccess)) :=
    List.mem_map.mpr ⟨dep, hdep, by rw [hulook, hout]⟩
  rw [← hedges, List.mem_map] at hin
  obtain ⟨d', hd', heq⟩ := hin
  rw [List.mem_filter, decide_eq_true_eq] at hd'
  obtain ⟨⟨u', hu', huid'⟩, hall⟩ := hfinished u hu (terminal_of_blocked hblocked)
  refine ⟨d', hd'.1, hd'.2, u', hu', ?_, ?_⟩
  · rw [huid']
    exact (Option.some.inj (congrArg Prod.fst heq)).symm
  · have hout' : d'.outcome = d.outcome := congrArg Prod.snd heq
    rw [hall u' hu' huid', hout']
    exact hblocked

/-- **A held-back task that has ended stays held back.** -/
theorem HeldBack.step (hs : Sound e) (hs' : Sound e') (heff : Effect host e e')
    (hended : Ended e id) (h : HeldBack e id) : HeldBack e' id := by
  have hfinished : ∀ t ∈ e.db.tasks, isTerminalTaskStatus t.status = true →
      Finished e' t.id t.status :=
    fun t ht hterm => Effect.finished hs.1 hs'.1 heff ht hterm
  cases heff with
  | acts hpath => exact h.path hs.1 hpath
  | closed m hpath hc =>
    obtain ⟨d, hd, hid, u, hu, huid, hblocked⟩ := h.path hs.1 hpath
    have hdeps : e'.db.deps = m.db.deps := by rw [hc.row]
    exact ⟨d, hdeps ▸ hd, hid, u, hc.tasks ▸ hu, huid, hblocked⟩
  | replaced input cur target hvalid hcur hdraft =>
    obtain ⟨t, ht, _, hterm⟩ := hended
    rw [(hs.1.draft hdraft).idle t ht] at hterm
    cases hterm
  | revised input cur target resolved hvalid hcur hpaused hversion hrow hresolved hrev =>
    exact HeldBack.revised (reread_of_interfered target hs.1 hcur hversion) hvalid hrev hfinished
      hended h

/-- Pending, valid and asked for. -/
def Asked (a : ApprovalRow) : Prop :=
  a.status = .pending ∧ a.invalidatedAt = none ∧ a.solicitedAt ≠ none

/-- What soliciting the approvals of `l` has done. -/
structure Solicits (host : Host) (now : Instant) (snap cur : Engine) (l : List ApprovalRow)
    (m : Engine) (new : List Solicitation) : Prop where
  log : m.solicited = cur.solicited ++ new
  sub : List.Sublist (new.map Solicitation.approvalId) (l.map ApprovalRow.id)
  opened : ∀ s ∈ new, ∃ ap ∈ l, ap.id = s.approvalId ∧ ∃ task, opens host now snap ap = some task
  rows : m.db.approvals.map (fun a => (a.id, a.taskId)) =
    cur.db.approvals.map (fun a => (a.id, a.taskId))
  asked : ∀ s ∈ new, ∀ a ∈ m.db.approvals, a.id = s.approvalId → Asked a
  others : ∀ a ∈ m.db.approvals, a ∈ cur.db.approvals ∨ Asked a

theorem ids_of_rows {rows rows' : List ApprovalRow}
    (h : rows'.map (fun a => (a.id, a.taskId)) = rows.map (fun a => (a.id, a.taskId))) :
    rows'.map ApprovalRow.id = rows.map ApprovalRow.id := by
  have hfst := congrArg (List.map Prod.fst) h
  rw [List.map_map, List.map_map] at hfst
  exact hfst

/-- **The pass**: each solicitation is of an approval that opens, at most one of each, and
    leaves its row asked for. -/
theorem solicits_fold (hnd : (cur.db.approvals.map ApprovalRow.id).Nodup)
    (l : List ApprovalRow) : ∃ new, Solicits host now snap cur l
      (l.foldl (solicitApproval host now snap) cur) new := by
  induction l using List.reverseRecOn with
  | nil =>
    exact ⟨[], (List.append_nil _).symm, List.Sublist.refl _,
      fun s hs => absurd hs List.not_mem_nil, rfl, fun s hs => absurd hs List.not_mem_nil,
      fun a ha => .inl ha⟩
  | append_singleton l ap ih =>
    obtain ⟨new, h⟩ := ih
    rw [List.foldl_append]
    generalize l.foldl (solicitApproval host now snap) cur = m at h ⊢
    show ∃ new, Solicits host now snap cur (l ++ [ap]) (solicitApproval host now snap m ap) new
    have hsame : Solicits host now snap cur (l ++ [ap]) m new := by
      refine ⟨h.log, ?_, ?_, h.rows, h.asked, h.others⟩
      · rw [List.map_append]
        exact h.sub.trans (List.sublist_append_left _ _)
      · intro s hs
        obtain ⟨ap', hap', hrest⟩ := h.opened s hs
        exact ⟨ap', List.mem_append_left _ hap', hrest⟩
    rw [solicitApproval]
    cases hopens : opens host now snap ap with
    | none => exact ⟨new, hsame⟩
    | some task =>
      dsimp only
      split
      · rename_i hany
        refine ⟨new ++ [⟨ap.id, packetOf host snap.db.deps snap.db.tasks task ap⟩], ?_, ?_, ?_, ?_,
          ?_, ?_⟩
        · show m.solicited ++ _ = _
          rw [h.log, List.append_assoc]
        · rw [List.map_append, List.map_append]
          exact h.sub.append (List.Sublist.refl _)
        · intro s hs
          rcases mem_concat.mp hs with hs | rfl
          · exact hsame.opened s hs
          · exact ⟨ap, List.mem_concat_self, rfl, task, hopens⟩
        · refine Eq.trans (map_updateWhere m.db.approvals (fun a => (a.id, a.taskId)) ?_) h.rows
          exact fun _ => rfl
        · intro s hs a' ha' hid
          rcases updateWhere_cases ha' with ⟨a, ha, hp, rfl⟩ | ⟨ha, hp⟩
          · simp only [Bool.and_eq_true, decide_eq_true_eq] at hp
            exact ⟨hp.2, rfl, Option.some_ne_none _⟩
          rcases List.mem_append.mp hs with hs | hs
          · exact h.asked s hs a' ha hid
          -- the approval's row is pending: it has just been asked for
          rw [List.mem_singleton.mp hs] at hid
          obtain ⟨b, hb, hpb⟩ := List.any_eq_true.mp hany
          simp only [Bool.and_eq_true, decide_eq_true_eq] at hpb
          have hids : (m.db.approvals.map ApprovalRow.id).Nodup := by
            rw [ids_of_rows h.rows]
            exact hnd
          have hab : a' = b := eq_of_key hids ha hb (hid.trans hpb.1.symm)
          refine absurd ?_ hp
          rw [hab]
          simp [hpb.1, hpb.2]
        · intro a' ha'
          rcases updateWhere_cases ha' with ⟨a, ha, hp, rfl⟩ | ⟨ha, -⟩
          · simp only [Bool.and_eq_true, decide_eq_true_eq] at hp
            exact .inr ⟨hp.2, rfl, Option.some_ne_none _⟩
          · exact h.others a' ha
      · exact ⟨new, hsame⟩

/-! ## What a step does to the log -/

private theorem cancelWorkflow_solicited (snap cur : Engine) :
    (cancelWorkflow snap cur).solicited = cur.solicited := by
  rw [cancelWorkflow]
  split
  · rfl
  · split
    · rfl
    · rfl

private theorem invalidateStaleApprovals_solicited (snap cur : Engine) :
    (invalidateStaleApprovals host now snap cur).solicited = cur.solicited :=
  invalidateStaleApprovals_rec (motive := fun m => m.solicited = cur.solicited) rfl
    fun _ _ _ hm => hm

private theorem updateWorkflowDraftSpec_solicited {input : UpdateInput} (hinv : Inv e)
    (hvalid : TemplateValid host input.spec) (hcur : Interfered e cur) :
    (updateWorkflowDraftSpec host input e cur).engine.solicited = e.solicited :=
  updateWorkflowDraftSpec_rec (motive := fun m => m.solicited = e.solicited) hinv hvalid hcur
    hcur.solicited
    (fun _ _ _ _ _ _ _ hframe _ => hframe.solicited.trans hcur.solicited)
    (fun _ _ _ _ _ _ _ hrev => hrev.frame.solicited.trans hcur.solicited)

theorem solicited_step (hinv : Inv e) (hok : Validated host e op)
    (hop : ∀ now between, op ≠ .solicit now between) :
    (step host e op).solicited = e.solicited := by
  have hcur : ∀ between, Interfered e (interfere e between) :=
    fun between => interfered_interfere hinv between
  cases op with
  | lockFree op => exact (interfered_step hinv op).solicited
  | pollRead => exact (RowPath.frame (pollRead_path e)).solicited
  | pollSettle now items => exact (RowPath.frame (pollSettle_path hinv items)).solicited
  | foreachPass now between =>
    exact (reconcileForeachParents_only e _).solicited.trans (hcur between).solicited
  | rejectedPolicies between =>
    exact (applyRejectedApprovalPolicies_asks e _).2.trans (hcur between).solicited
  | invalidate now between =>
    exact (invalidateStaleApprovals_solicited e _).trans (hcur between).solicited
  | claim now between =>
    exact (RowPath.frame (claimReadyTasks_path hinv (hcur between).path)).solicited
  | record now results => exact (RowPath.frame (recordOutcomes_path hinv results)).solicited
  | finalize between =>
    exact (finalizeWorkflow_asks e _).2.trans (hcur between).solicited
  | solicit now between => exact absurd rfl (hop now between)
  | cancel between => exact (cancelWorkflow_solicited e _).trans (hcur between).solicited
  | decide id decidedBy decision rp reason => rfl
  | edit input between =>
    exact updateWorkflowDraftSpec_solicited hinv hok (hcur between)

/-! ## Tasks that end while their approval waits -/

/-- The state an operation leaves, the solicitations aside. -/
def settled (host : Host) (e : Engine) : Op → Engine
  | .solicit _ between => interfere e between
  | op => step host e op

/-- The operation ends no task whose approval waits to be solicited, and gives none that
    has ended an approval that waits, but where the wait is over: an edge that can no
    longer be satisfied, or a workflow that has ended. -/
def Spares (host : Host) (e : Engine) (op : Op) : Prop :=
  ∀ id, Ended (settled host e op) id → HasUnsolicited e id ∨ HasUnsolicited (settled host e op) id →
    (Ended e id ∧ HasUnsolicited e id) ∨ HeldBack (settled host e op) id ∨
      Over (settled host e op)

/-- Nobody will be asked about a task that has ended. -/
def Settled (e : Engine) : Prop :=
  Over e ∨ ∀ id, Ended e id → HasUnsolicited e id → HeldBack e id

/-- Someone is asked about an open approval of an open task, its edges satisfied. -/
def Useful (e : Engine) (s : Solicitation) : Prop :=
  ∃ a ∈ e.db.approvals, a.id = s.approvalId ∧ a.status = .pending ∧ a.invalidatedAt = none ∧
    depsSatisfied e.db.deps e.db.tasks a.taskId = true ∧
    ∃ t ∈ e.db.tasks, t.id = a.taskId ∧ isTerminalTaskStatus t.status = false

theorem terminal_moves {s s' : WorkflowStatus} (h : Relation.ReflTransGen WorkflowMove s s')
    (hterm : isTerminalWorkflowStatus s = true) : s' = s := by
  induction h with
  | refl => rfl
  | tail _ hmove ih =>
    rw [ih] at hmove
    rw [WorkflowMove] at hmove
    cases s with
    | completed | failed | cancelled => cases hmove
    | draft | active | paused => cases hterm

theorem Over.step (heff : Effect host e e') (h : Over e) : Over e' := by
  have hsame := terminal_moves (Effect.workflowMoves heff) h
  rw [Over, hsame]
  exact h

theorem open_moves {s s' : WorkflowStatus} (h : Relation.ReflTransGen HoldMove s s') :
    isTerminalWorkflowStatus s' = isTerminalWorkflowStatus s := by
  induction h with
  | refl => rfl
  | tail _ hmove ih => exact hmove.2.trans ih

/-- What the solicitations add leaves no new approval waiting. -/
theorem hasUnsolicited_solicit (hnd : (cur.db.approvals.map ApprovalRow.id).Nodup)
    (h : HasUnsolicited (solicitApprovals host now snap cur) id) : HasUnsolicited cur id := by
  rw [solicitApprovals] at h
  split at h
  · exact h
  obtain ⟨a, ha, hid, hun⟩ := h
  obtain ⟨new, hs⟩ := solicits_fold hnd _
  rcases hs.others a ha with hold | hasked
  · exact ⟨a, hold, hid, hun⟩
  · exact absurd hun.2 hasked.2.2

/-- **A sparing step leaves the state settled.** -/
theorem Settled.step (hsound : Sound e) (hok : Validated host e op) (hspares : Spares host e op)
    (h : Settled e) : Settled (step host e op) := by
  have heff := effect hsound.1 hsound.2 hok
  have hsound' := sound_step hsound hok
  rcases h with hover | hheld
  · exact .inl (hover.step heff)
  by_cases hover' : Over (WfEngine.step host e op)
  · exact .inl hover'
  refine .inr ?_
  intro id hended hun
  -- the state the step leaves differs from the settled one by solicitations only
  have hsame : Ended (settled host e op) id ∧ HasUnsolicited (settled host e op) id ∧
      (HeldBack (settled host e op) id → HeldBack (WfEngine.step host e op) id) ∧
      (Over (settled host e op) → Over (WfEngine.step host e op)) := by
    cases op with
    | solicit now between =>
      have honly : OnlyApprovals (interfere e between)
          (solicitApprovals host now e (interfere e between)) := solicitApprovals_only e _
      have hnd : ((interfere e between).db.approvals.map ApprovalRow.id).Nodup := by
        rw [(interfered_interfere hsound.1 between).approvals]
        exact hsound.1.linked.approval_ids
      refine ⟨?_, hasUnsolicited_solicit hnd hun, ?_, ?_⟩
      · have hended' : Ended (solicitApprovals host now e (interfere e between)) id := hended
        rw [Ended, honly.tasks] at hended'
        exact hended'
      · intro hb
        show HeldBack (solicitApprovals host now e (interfere e between)) id
        rw [HeldBack, honly.tasks, honly.deps]
        exact hb
      · intro ho
        show Over (solicitApprovals host now e (interfere e between))
        rw [Over, honly.workflow]
        exact ho
    | lockFree | pollRead | pollSettle | foreachPass | rejectedPolicies | invalidate | claim
    | record | finalize | cancel | decide | edit => exact ⟨hended, hun, fun hb => hb, fun ho => ho⟩
  rcases hspares id hsame.1 (.inr hsame.2.1) with ⟨hend, hwait⟩ | hb | ho
  · exact (hheld id hend hwait).step hsound hsound' heff hend
  · exact hsame.2.2.1 hb
  · exact absurd (hsame.2.2.2 ho) hover'

theorem settled_created (h : Created host e) : Settled e := by
  have hinv := (sound_created h).1
  obtain ⟨workflowId, name, spec, clock, _, hok⟩ := h
  obtain ⟨workflow, hdraft, hins⟩ := createWorkflowFromSpec_ok hok
  have hstart : ∀ a ∈ (emptyEngine workflow clock).db.approvals, Blank a :=
    fun a ha => absurd ha List.not_mem_nil
  have hstatus : e.db.workflow.status = .draft := by
    rw [(insertSpecRows_frame hstart hins).1.workflow]
    exact hdraft
  refine .inr ?_
  rintro id ⟨t, ht, _, hterm⟩
  rw [(hinv.draft hstatus).idle t ht] at hterm
  cases hterm

/-! ## Edges that are satisfied -/

theorem depsSatisfied_iff {deps : List DependencyRow} {tasks : List TaskRow} :
    depsSatisfied deps tasks id = true ↔ ∀ d ∈ deps, d.taskId = id →
      resolveDependency ((statusById tasks d.dependsOnTaskId).getD .idle) d.outcome = .satisfied := by
  rw [depsSatisfied, List.all_eq_true]
  constructor
  · intro h d hd hid
    exact of_decide_eq_true (h d (List.mem_filter.mpr ⟨hd, decide_eq_true hid⟩))
  · intro h d hd
    obtain ⟨hd, hid⟩ := List.mem_filter.mp hd
    exact decide_eq_true (h d hd (of_decide_eq_true hid))

theorem not_heldBack (hinv : Inv e) (h : depsSatisfied e.db.deps e.db.tasks id = true) :
    ¬ HeldBack e id := by
  rintro ⟨d, hd, hid, u, hu, huid, hblocked⟩
  have hsat := depsSatisfied_iff.mp h d hd hid
  rw [statusById, ← huid, taskById_eq_some hinv.keyed.ids hu] at hsat
  rw [show ((some u).map TaskRow.status).getD .idle = u.status from rfl, hblocked] at hsat
  cases hsat

theorem terminal_of_satisfied
    (h : resolveDependency s o = .satisfied) : isTerminalTaskStatus s = true := by
  by_contra hn
  have hp := (resolveDependency_pending_iff s o).mpr (by simpa using hn)
  rw [h] at hp
  cases hp

/-- Satisfied edges stay satisfied along a path that adds none. -/
theorem depsSatisfied_path (hinv : Inv e) (hpath : Path e e') (hdeps : e'.db.deps = e.db.deps)
    (h : depsSatisfied e.db.deps e.db.tasks id = true) :
    depsSatisfied e'.db.deps e'.db.tasks id = true := by
  rw [depsSatisfied_iff, hdeps]
  intro d hd hid
  have hsat := depsSatisfied_iff.mp h d hd hid
  have hterm := terminal_of_satisfied hsat
  cases hu : taskById e.db.tasks d.dependsOnTaskId with
  | none =>
    rw [statusById, hu] at hterm
    cases hterm
  | some u =>
    rw [statusById, hu] at hsat hterm
    obtain ⟨hmem, huid⟩ := mem_of_taskById hu
    obtain ⟨u', hu', hf⟩ := Path.follows hinv hpath u hmem
    have hget : taskById e'.db.tasks d.dependsOnTaskId = some u' := by
      rw [← huid, ← hf.id]
      exact taskById_eq_some (hinv.path hpath).keyed.ids hu'
    rw [statusById, hget]
    show resolveDependency u'.status d.outcome = .satisfied
    rw [hf.terminal hterm]
    exact hsat

theorem opens_some {ap : ApprovalRow} {task : TaskRow} (h : opens host now snap ap = some task) :
    Unsolicited ap ∧ taskById snap.db.tasks ap.taskId = some task ∧
      depsSatisfied snap.db.deps snap.db.tasks task.id = true := by
  rw [opens] at h
  split at h
  · cases h
  rename_i hopen
  rw [not_or, not_not, Bool.not_eq_true, Option.isSome_eq_false_iff, Option.isNone_iff_eq_none]
    at hopen
  split at h
  · cases h
  rename_i t htask
  split at h
  · cases h
  rename_i hdeps
  rw [Bool.not_eq_true', Bool.not_eq_false] at hdeps
  dsimp only at h
  split at h
  · cases h
  · rw [← Option.some.inj h]
    exact ⟨hopen, htask, hdeps⟩

variable {between : List LockFree}

/-- **A solicitation in a settled state is of use.** -/
theorem Settled.useful (hinv : Inv e)
    (hspares : Spares host e (.solicit now between)) (h : Settled e)
    {new : List Solicitation} (hactive : e.db.workflow.status = .active)
    (hs : Solicits host now e (interfere e between) e.db.approvals
      (solicitApprovals host now e (interfere e between)) new) :
    ∀ s ∈ new, Useful (solicitApprovals host now e (interfere e between)) s := by
  have hcur := interfered_interfere hinv between
  have honly : OnlyApprovals (interfere e between)
      (solicitApprovals host now e (interfere e between)) := solicitApprovals_only e _
  intro s hmem
  obtain ⟨ap, hap, hid, task, hopens⟩ := hs.opened s hmem
  obtain ⟨hun, htask, hdeps⟩ := opens_some hopens
  obtain ⟨ht, htid⟩ := mem_of_taskById htask
  -- the row the solicitation leaves
  have hrow : (ap.id, ap.taskId) ∈ (solicitApprovals host now e
      (interfere e between)).db.approvals.map (fun a => (a.id, a.taskId)) := by
    rw [hs.rows, hcur.approvals]
    exact List.mem_map_of_mem hap
  obtain ⟨a, ha, heq⟩ := List.mem_map.mp hrow
  have haid : a.id = s.approvalId := (congrArg Prod.fst heq).trans hid
  have hatask : a.taskId = task.id := (congrArg Prod.snd heq).trans htid.symm
  obtain ⟨hpending, hvalid, _⟩ := hs.asked s hmem a ha haid
  -- its task, which has not ended meanwhile
  have hdeps' := depsSatisfied_path hinv hcur.path.path hcur.deps hdeps
  obtain ⟨t, ht', hf⟩ := Path.follows hinv hcur.path.path task ht
  have hopen : isTerminalTaskStatus t.status = false := by
    rw [← Bool.not_eq_true]
    intro hterm
    have hwait : HasUnsolicited e task.id := ⟨ap, hap, htid.symm, hun⟩
    rcases hspares task.id ⟨t, ht', hf.id, hterm⟩ (.inl hwait) with ⟨hend, _⟩ | hb | ho
    · rcases h with hover | hheld
      · rw [Over, hactive] at hover
        cases hover
      · exact not_heldBack hinv hdeps (hheld task.id hend hwait)
    · exact not_heldBack (hinv.path hcur.path.path) hdeps' hb
    · have hmoves := open_moves (Path.holdMoves hcur.path.path)
      rw [hactive] at hmoves
      have hover : isTerminalWorkflowStatus (interfere e between).db.workflow.status = true := ho
      rw [hmoves] at hover
      cases hover
  refine ⟨a, ha, haid, hpending, hvalid, ?_, t, ?_, ?_, hopen⟩
  · rw [hatask, honly.tasks, honly.deps]
    exact hdeps'
  · rw [honly.tasks]
    exact ht'
  · rw [hatask]
    exact hf.id

/-! ## Asked once -/

/-- The approval's row says that it was asked for. -/
def IsSolicited (i : RowId) (e : Engine) : Prop :=
  ∃ a ∈ e.db.approvals, a.id = i ∧ a.solicitedAt ≠ none

/-- The approval was asked for, and the step takes that back. -/
def Invalidated (i : RowId) (e e' : Engine) : Prop :=
  IsSolicited i e ∧
    ∃ a ∈ e'.db.approvals, a.id = i ∧ a.solicitedAt = none ∧ a.invalidatedAt ≠ none

/-- The step keeps the approval's row and does not invalidate it. -/
def Stands (i : RowId) (e e' : Engine) : Prop :=
  (∃ a ∈ e'.db.approvals, a.id = i) ∧ ¬ Invalidated i e e'

/-- How often someone was asked for the approval. -/
def asks (i : RowId) (e : Engine) : Nat := (e.solicited.map Solicitation.approvalId).count i

variable {i : RowId}

theorem IsSolicited.step (hsound : Sound e) (hold : ApprovalsOld e)
    (hok : Validated host e op) (hstands : Stands i e (step host e op)) (h : IsSolicited i e) :
    IsSolicited i (WfEngine.step host e op) := by
  obtain ⟨⟨a', ha', hid'⟩, hvalid⟩ := hstands
  refine ⟨a', ha', hid', ?_⟩
  intro hnone
  obtain ⟨a, ha, hid, hsol⟩ := h
  rcases (approvals_step hsound hold hok).2 a' ha' with ⟨b, hb, hbid, hmarks⟩ | ⟨_, hnew⟩
  · have hab : b = a :=
      eq_of_key hsound.1.linked.approval_ids hb ha (hbid.symm.trans (hid'.trans hid.symm))
    rcases hmarks with hsame | hasked | hstamped
    · rw [hab, hnone] at hsame
      exact hsol hsame.symm
    · exact hasked hnone
    · exact hvalid ⟨⟨a, ha, hid, hsol⟩, a', ha', hid', hnone, hstamped⟩
  · exact hnew a ha (hid.trans hid'.symm)

theorem asks_solicit (hinv : Inv e) :
    asks i (solicitApprovals host now e (interfere e between)) = asks i e ∨
      (asks i (solicitApprovals host now e (interfere e between)) = asks i e + 1 ∧
        ¬ IsSolicited i e ∧ IsSolicited i (solicitApprovals host now e (interfere e between))) := by
  have hcur := interfered_interfere hinv between
  by_cases hactive : e.db.workflow.status ≠ .active
  · rw [solicitApprovals, if_pos hactive, asks, hcur.solicited]
    exact .inl rfl
  have hnd : ((interfere e between).db.approvals.map ApprovalRow.id).Nodup := by
    rw [hcur.approvals]
    exact hinv.linked.approval_ids
  obtain ⟨new, hs⟩ := solicits_fold hnd _
  rw [solicitApprovals, if_neg hactive]
  generalize e.db.approvals.foldl (solicitApproval host now e) (interfere e between) = m at hs
  have hasks : asks i m = asks i e + (new.map Solicitation.approvalId).count i := by
    rw [asks, hs.log, hcur.solicited, List.map_append, List.count_append, asks]
  have hone : (new.map Solicitation.approvalId).count i ≤ 1 :=
    Nat.le_trans (hs.sub.count_le i) (List.nodup_iff_count_le_one.mp hinv.linked.approval_ids i)
  by_cases hin : i ∈ new.map Solicitation.approvalId
  · have hcount : (new.map Solicitation.approvalId).count i = 1 :=
      Nat.le_antisymm hone (List.count_pos_iff.mpr hin)
    obtain ⟨s, hmem, rfl⟩ := List.mem_map.mp hin
    obtain ⟨ap, hap, hid, task, hopens⟩ := hs.opened s hmem
    refine .inr ⟨by rw [hasks, hcount], ?_, ?_⟩
    · rintro ⟨a, ha, haid, hsol⟩
      have hsame : a = ap := eq_of_key hinv.linked.approval_ids ha hap (haid.trans hid.symm)
      rw [hsame] at hsol
      exact hsol (opens_some hopens).1.2
    · have hids : s.approvalId ∈ m.db.approvals.map ApprovalRow.id := by
        rw [ids_of_rows hs.rows, hcur.approvals, ← hid]
        exact List.mem_map_of_mem hap
      obtain ⟨a, ha, haid⟩ := List.mem_map.mp hids
      exact ⟨a, ha, haid, (hs.asked s hmem a ha haid).2.2⟩
  · rw [List.count_eq_zero.mpr hin] at hasks
    exact .inl hasks

theorem asks_step (hinv : Inv e) (hok : Validated host e op) : asks i (step host e op) = asks i e ∨
      (asks i (step host e op) = asks i e + 1 ∧ ¬ IsSolicited i e ∧
        IsSolicited i (step host e op)) := by
  by_cases hop : ∀ now between, op ≠ .solicit now between
  · rw [asks, solicited_step hinv hok hop]
    exact .inl rfl
  push Not at hop
  obtain ⟨now, between, rfl⟩ := hop
  exact asks_solicit hinv

/-- **An approval that stands is asked for once.** -/
theorem asks_leads (h : Reachable host e) (hl : Machine.Leads (step host)
      (fun e op => Validated host e op ∧ Stands i e (step host e op)) e e') :
    asks i e' ≤ asks i e + 1 := by
  have hkept : (Sound e' ∧ ApprovalsOld e') ∧
      (asks i e' = asks i e ∨ (asks i e' = asks i e + 1 ∧ IsSolicited i e')) := by
    induction hl with
    | refl => exact ⟨⟨sound_reachable h, approvalsOld_reachable h⟩, .inl rfl⟩
    | next _ hok ih =>
      obtain ⟨⟨hsound, hold⟩, hasks⟩ := ih
      refine ⟨⟨sound_step hsound hok.1, (approvals_step hsound hold hok.1).1⟩, ?_⟩
      rcases asks_step (i := i) hsound.1 hok.1 with hsame | ⟨hmore, hnot, hsol⟩
      · rcases hasks with heq | ⟨heq, hsol⟩
        · exact .inl (hsame.trans heq)
        · exact .inr ⟨hsame.trans heq, hsol.step hsound hold hok.1 hok.2⟩
      · rcases hasks with heq | ⟨_, hsol'⟩
        · exact .inr ⟨by rw [hmore, heq], hsol⟩
        · exact absurd hsol' hnot
  rcases hkept.2 with heq | ⟨heq, _⟩
  · omega
  · omega

/-- **Who is asked**: while every step spares the approvals that wait, each solicitation
    is of a pending, valid approval whose edges are satisfied and whose task is open; and
    an approval that stands is asked for once, whoever acts and in whatever order. -/
theorem solicited_usefully :
    (∀ e, ReachesUnder host (Spares host) e → ∀ op, Validated host e op → Spares host e op →
      ∀ s ∈ (step host e op).solicited.drop e.solicited.length, Useful (step host e op) s) ∧
    ∀ e, Reachable host e → ∀ i e', Machine.Leads (step host)
      (fun e op => Validated host e op ∧ Stands i e (step host e op)) e e' →
        asks i e' ≤ asks i e + 1 := by
  refine ⟨?_, fun e h i e' hl => asks_leads h hl⟩
  intro e h op hok hspares s hs
  have hkept : Sound e ∧ Settled e :=
    Machine.Reaches.invariant (I := fun e => Sound e ∧ Settled e)
      (fun _ hc => ⟨sound_created hc, settled_created hc⟩)
      (fun _ _ hi hop => ⟨sound_step hi.1 hop.1, hi.2.step hi.1 hop.1 hop.2⟩) h
  have hinv := hkept.1.1
  by_cases hop : ∀ now between, op ≠ .solicit now between
  · rw [solicited_step hinv hok hop, List.drop_length] at hs
    cases hs
  push Not at hop
  obtain ⟨now, between, rfl⟩ := hop
  have hcur := interfered_interfere hinv between
  by_cases hactive : e.db.workflow.status = .active
  · have hnd : ((interfere e between).db.approvals.map ApprovalRow.id).Nodup := by
      rw [hcur.approvals]
      exact hinv.linked.approval_ids
    have hpass : ∃ new, Solicits host now e (interfere e between) e.db.approvals
        (solicitApprovals host now e (interfere e between)) new := by
      rw [solicitApprovals, if_neg (not_not.mpr hactive)]
      exact solicits_fold hnd _
    obtain ⟨new, hpass⟩ := hpass
    have hlog : (step host e (.solicit now between)).solicited = e.solicited ++ new := by
      rw [← hcur.solicited]
      exact hpass.log
    rw [hlog, List.drop_left] at hs
    exact hkept.2.useful hinv hspares hactive hpass s hs
  · have hlog : (step host e (.solicit now between)).solicited = e.solicited := by
      show (solicitApprovals host now e (interfere e between)).solicited = e.solicited
      rw [solicitApprovals, if_pos hactive, hcur.solicited]
    rw [hlog, List.drop_length] at hs
    cases hs

/-! ### Two runs -/

/-- An agent task `s`, a foreach parent `p` over its output with two tasks below it, the
    agent task `x` and the approval `a`, and a manual task `d` before the approval. -/
def strandedSpec : WorkflowSpec :=
  { name := "w"
    tasks := [
      { key := "s", title := "s", body := .agentTask ⟨"pkg", none, none, none⟩ none },
      { key := "p", title := "p", body := .checkpoint, foreach := some WfFanoutRows.oneCheckpoint },
      { key := "x", title := "x", body := .agentTask ⟨"pkg", none, none, none⟩ none,
        parent := some "p", required := some false, maxAttempts := some 1 },
      { key := "d", title := "d", body := .manual },
      { key := "a", title := "a", body := .approval ⟨"user", none⟩ none none none,
        parent := some "p", dependsOn := [⟨"d", none⟩] }] }

/-- What is started is flat, as the start gate asks. -/
def flatSpec : WorkflowSpec :=
  { strandedSpec with tasks := strandedSpec.tasks.map (fun t => { t with parent := none }) }

/-- An edit while paused puts the two tasks below `p`.  `s` succeeds with one item and `x`
    fails; the parent fans out, and then cancels what is below it; `d` is done last. -/
def strandedOps : List Op :=
  [.lockFree .start, .lockFree .pause, .edit ⟨strandedSpec, none, none, 2, []⟩ [],
    .lockFree .resume, .claim 0 [],
    .record 0 [
      (⟨.uuid 0, .uuid 13, 1, ⟨"wf", .uuid 0, 1⟩, .uuid 14⟩, ⟨.running, none, some "r"⟩, []),
      (⟨.uuid 2, .uuid 15, 1, ⟨"wf", .uuid 2, 1⟩, .uuid 16⟩, ⟨.failed, none, none⟩, []),
      (⟨.uuid 3, .uuid 17, 1, ⟨"wf", .uuid 3, 1⟩, .uuid 18⟩, ⟨.running, none, none⟩, [])],
    .pollRead,
    .pollSettle 0 [(⟨.uuid 0, .uuid 13, 1, "r"⟩,
      { terminal := true, failed := false, hitl := false,
        output := some (.obj [("items", .arr [.str "x"])]) }, [])],
    .foreachPass 0 [], .foreachPass 0 [],
    .lockFree (.readManual (.uuid 3)), .lockFree (.writeManual ⟨.uuid 3, 2⟩)]

def stranded : Engine := run plainHost (start plainHost flatSpec) strandedOps

set_option maxRecDepth 8000 in
theorem stranded_asked : Reachable plainHost stranded ∧
      ¬ ∀ s ∈ (step plainHost stranded (.solicit 0 [])).solicited.drop stranded.solicited.length,
        Useful (step plainHost stranded (.solicit 0 [])) s := by
  refine ⟨reachable_run plainHost flatSpec strandedOps (by decide +kernel) (by decide +kernel)
    (by decide +kernel), ?_⟩
  unfold Useful
  decide +kernel

theorem spares_of_terminal (h : ∀ t ∈ (settled host e op).db.tasks,
    isTerminalTaskStatus t.status = true →
      ¬ HasUnsolicited e t.id ∧ ¬ HasUnsolicited (settled host e op) t.id) : Spares host e op := by
  rintro id ⟨t, ht, rfl, hterm⟩ (hun | hun)
  · exact absurd hun (h t ht hterm).1
  · exact absurd hun (h t ht hterm).2

/-- A manual task, and an approval after it. -/
def awaitedSpec : WorkflowSpec :=
  { name := "w"
    tasks := [{ key := "d", title := "d", body := .manual },
      { key := "a", title := "a", body := .approval ⟨"user", none⟩ none none none,
        dependsOn := [⟨"d", none⟩] }] }

def awaitedOps : List Op :=
  [.lockFree .start, .claim 0 [], .lockFree (.readManual (.uuid 0)),
    .lockFree (.writeManual ⟨.uuid 0, 1⟩)]

def awaited : Engine := run plainHost (start plainHost awaitedSpec) awaitedOps

set_option maxRecDepth 8000 in
/-- The manual task is done; the approver is asked, and asked for nothing else. -/
theorem awaited_asked :
    (∃ s ∈ (step plainHost awaited (.solicit 0 [])).solicited.drop awaited.solicited.length,
      Useful (step plainHost awaited (.solicit 0 [])) s) ∧
    asks (.uuid 3) (step plainHost awaited (.solicit 0 [])) ≤ asks (.uuid 3) awaited + 1 := by
  have hreach : Reachable plainHost awaited :=
    reachable_run plainHost awaitedSpec awaitedOps (by decide +kernel) (by decide +kernel)
      (by decide +kernel)
  have hunder : ReachesUnder plainHost (Spares plainHost) awaited := by
    refine ⟨_, created_start plainHost (by decide +kernel) (by decide +kernel),
      Machine.Admits.leads ?_⟩
    simp only [awaitedOps, Machine.Admits]
    refine ⟨⟨trivial, spares_of_terminal ?_⟩, ⟨trivial, spares_of_terminal ?_⟩,
      ⟨trivial, spares_of_terminal ?_⟩, ⟨trivial, spares_of_terminal ?_⟩, trivial⟩
    all_goals
      unfold HasUnsolicited Unsolicited
      decide +kernel
  have hspares : Spares plainHost awaited (.solicit 0 []) := by
    refine spares_of_terminal ?_
    unfold HasUnsolicited Unsolicited
    decide +kernel
  have hstands : Stands (.uuid 3) awaited (step plainHost awaited (.solicit 0 [])) := by
    unfold Stands Invalidated IsSolicited
    decide +kernel
  have hvalid : Validated plainHost awaited (.solicit 0 []) := trivial
  have huseful := (solicited_usefully).1 awaited hunder (.solicit 0 []) hvalid hspares
  have honce := (solicited_usefully).2 awaited hreach (.uuid 3) _
    (Machine.Leads.next Machine.Leads.refl ⟨hvalid, hstands⟩)
  obtain ⟨s, hs⟩ : ∃ s, s ∈ (step plainHost awaited (.solicit 0 [])).solicited.drop
      awaited.solicited.length := by
    have hone : ((step plainHost awaited (.solicit 0 [])).solicited.drop
        awaited.solicited.length).length = 1 := by decide +kernel
    exact ⟨_, List.getElem_mem (Nat.lt_of_lt_of_eq Nat.zero_lt_one hone.symm)⟩
  exact ⟨⟨s, hs, huseful s hs⟩, honce⟩

end WfSoliciting
