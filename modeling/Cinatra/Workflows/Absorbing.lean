import Cinatra.Workflows.Runs

/-! # Absorbing — finished tasks stay finished, workflows move along their table

    Most status writes bypass the transition check, so what keeps a finished task
    finished is the guard of each site: a compare-and-set on the version read, or
    a filter on the status.  The acts carry those guards; an edit cannot touch a
    finished task's status, and cannot delete it. -/

namespace WfAbsorbing

open WfTransitions WfSpec WfRows WfHost WfState WfLifecycle WfEngine WfStore WfActs WfInvariant
open WfPaths WfInterference WfClosing WfEditing WfRevising WfRuns

variable {host : Host} {e e' : Engine} {op : Op}

/-- The finished task is still there, with its status. -/
def Finished (e' : Engine) (id : RowId) (s : TaskStatus) : Prop :=
  (∃ t' ∈ e'.db.tasks, t'.id = id) ∧ ∀ t' ∈ e'.db.tasks, t'.id = id → t'.status = s

private theorem finished_of_mem (hk : Keyed e') {t' : TaskRow} (ht' : t' ∈ e'.db.tasks) :
    Finished e' t'.id t'.status := by
  refine ⟨⟨t', ht', rfl⟩, ?_⟩
  intro r hr hid
  rw [RowTable.eq_of_key hk.ids hr ht' hid]

variable {t : TaskRow}

theorem not_waiting_of_terminal (h : isTerminalTaskStatus t.status = true) : ¬ Waiting t := by
  rintro (hw | hw)
  · rw [hw] at h; cases h
  · rw [hw] at h; cases h

theorem Effect.finished (hinv : Inv e) (hinv' : Inv e') (h : Effect host e e')
    (ht : t ∈ e.db.tasks) (hterm : isTerminalTaskStatus t.status = true) :
    Finished e' t.id t.status := by
  cases h with
  | acts hpath =>
    obtain ⟨t', ht', hf⟩ := Path.follows hinv hpath t ht
    rw [← hf.id, ← hf.terminal hterm]
    exact finished_of_mem hinv'.keyed ht'
  | closed m hpath hc =>
    obtain ⟨t', ht', hf⟩ := Path.follows hinv hpath t ht
    rw [← hf.id, ← hf.terminal hterm]
    exact finished_of_mem hinv'.keyed (hc.tasks ▸ ht')
  | replaced input cur target hvalid hcur hdraft =>
    rw [(hinv.draft hdraft).idle t ht] at hterm
    cases hterm
  | revised input cur target resolved hvalid hcur hpaused hversion hrow hresolved hrev =>
    have hread := reread_of_interfered target hinv hcur hversion
    obtain ⟨r, hr, hid⟩ := hread.all t ht
    have hrow' : r = t := by
      rcases hread.row ht hr hid with heq | ⟨_, hc⟩
      · exact heq
      · rw [hc.running] at hterm
        cases hterm
    have hf : isFrozen e t = true := frozen_of_status (not_waiting_of_terminal hterm)
    obtain ⟨spec, _, _, _, p, hp⟩ := hrev.frozen hread ht hf hr hid
    have hfin := finished_of_mem hinv'.keyed hp
    rw [← hrow']
    exact hfin

/-! ## The workflow -/

/-- A move along the table. -/
def WorkflowMove (s s' : WorkflowStatus) : Prop := s' ∈ workflowTransitions s

/-- A move that takes no lock: start, pause, resume. -/
def HoldMove (s s' : WorkflowStatus) : Prop :=
  WorkflowMove s s' ∧ isTerminalWorkflowStatus s' = isTerminalWorkflowStatus s

theorem move_of_canTransition {s s' : WorkflowStatus}
    (h : canTransition workflowTransitions s s' = true) : s' = s ∨ WorkflowMove s s' := by
  rw [canTransition, Bool.or_eq_true, decide_eq_true_eq, List.contains_iff_mem] at h
  exact h.imp_left Eq.symm

theorem Path.holdMoves (h : Path e e') :
    Relation.ReflTransGen HoldMove e.db.workflow.status e'.db.workflow.status := by
  induction h with
  | refl => exact Relation.ReflTransGen.refl
  | tail _ hact ih =>
    rcases Act.workflow hact with heq | ⟨_, _, hmove, hopen⟩
    · rw [heq]
      exact ih
    · rcases move_of_canTransition hmove with heq | hm
      · rw [heq]
        exact ih
      · exact ih.tail ⟨hm, hopen⟩

/-- A step moves the status by lock-free moves and then at most once. -/
theorem Effect.moves (h : Effect host e e') :
    ∃ s, Relation.ReflTransGen HoldMove e.db.workflow.status s ∧
      canTransition workflowTransitions s e'.db.workflow.status = true := by
  cases h with
  | acts hpath => exact ⟨_, Path.holdMoves hpath, canTransition_self _⟩
  | closed m hpath hc => exact ⟨_, Path.holdMoves hpath, hc.move⟩
  | replaced input cur target hvalid hcur hdraft hversion hrow hinv hsrc hframe =>
    refine ⟨_, Path.holdMoves hcur.path.path, ?_⟩
    rw [hframe.workflow]
    exact canTransition_self _
  | revised input cur target resolved hvalid hcur hpaused hversion hrow hresolved hrev =>
    refine ⟨_, Path.holdMoves hcur.path.path, ?_⟩
    rw [hrev.frame.workflow]
    exact canTransition_self _

theorem Effect.workflowMoves (h : Effect host e e') :
    Relation.ReflTransGen WorkflowMove e.db.workflow.status e'.db.workflow.status := by
  obtain ⟨s, hs, hlast⟩ := Effect.moves h
  have hchain : Relation.ReflTransGen WorkflowMove e.db.workflow.status s :=
    Relation.ReflTransGen.mono (fun _ _ hm => hm.1) _ _ hs
  rcases move_of_canTransition hlast with heq | hm
  · rw [heq]
    exact hchain
  · exact hchain.tail hm

/-! ## Runs -/

/-- What a run keeps of the finished tasks and the workflow's status. -/
private theorem absorbing_leads (hs : Sound e) (hl : Leads host e e') :
    (∀ t ∈ e.db.tasks, isTerminalTaskStatus t.status = true → Finished e' t.id t.status) ∧
      Relation.ReflTransGen WorkflowMove e.db.workflow.status e'.db.workflow.status := by
  induction hl with
  | refl =>
    exact ⟨fun t ht _ => finished_of_mem hs.1.keyed ht, Relation.ReflTransGen.refl⟩
  | next hl hok ih =>
    have hm := sound_leads hs hl
    have heff := effect hm.1 hm.2 hok
    refine ⟨?_, ih.2.trans (Effect.workflowMoves heff)⟩
    intro t ht hterm
    obtain ⟨⟨r, hr, hid⟩, hall⟩ := ih.1 t ht hterm
    have hst := hall r hr hid
    rw [← hid, ← hst]
    exact Effect.finished hm.1 (sound_step hm hok).1 heff hr (by rw [hst]; exact hterm)

/-- **Terminal statuses are absorbing**: from any reachable state on, a task that is
    succeeded, skipped, cancelled or failed keeps its row and status, the workflow's
    status moves along its table, and each step makes at most one move of its own. -/
theorem terminal_absorbing (h : Reachable host e) (hl : Leads host e e') :
    (∀ t ∈ e.db.tasks, isTerminalTaskStatus t.status = true → Finished e' t.id t.status) ∧
    Relation.ReflTransGen WorkflowMove e.db.workflow.status e'.db.workflow.status ∧
    ∀ op, Validated host e' op → ∃ s, Relation.ReflTransGen HoldMove e'.db.workflow.status s ∧
      canTransition workflowTransitions s (step host e' op).db.workflow.status = true := by
  have hs := sound_reachable h
  obtain ⟨htasks, hmoves⟩ := absorbing_leads hs hl
  have hs' := sound_leads hs hl
  exact ⟨htasks, hmoves, fun op hok => Effect.moves (effect hs'.1 hs'.2 hok)⟩

/-- Two manual tasks, the second after the first. -/
def twoManual : WorkflowSpec :=
  { name := "w"
    tasks := [{ key := "a", title := "a", body := .manual },
      { key := "b", title := "b", body := .manual, dependsOn := [⟨"a", none⟩] }] }

/-- The first task is dispatched and completed. -/
def firstDone : List Op :=
  [.lockFree .start, .claim 0 [], .lockFree (.readManual (.uuid 0)),
    .lockFree (.writeManual ⟨.uuid 0, 1⟩)]

/-- The workflow is paused, edited and resumed, and the second task cancelled. -/
def editedAndCancelled : List Op :=
  [.lockFree .pause, .edit ⟨twoManual, none, none, 2, []⟩ [], .lockFree .resume, .cancel []]

set_option maxRecDepth 8000 in
theorem terminal_absorbing_edited :
    let e := run plainHost (start plainHost twoManual) firstDone
    let e' := run plainHost e editedAndCancelled
    e.db.tasks.map TaskRow.status = [.succeeded, .idle] ∧
      e'.db.tasks.map TaskRow.status = [.succeeded, .cancelled] ∧
      Relation.ReflTransGen WorkflowMove e.db.workflow.status e'.db.workflow.status :=
  ⟨by decide +kernel, by decide +kernel,
    (terminal_absorbing (reachable_run plainHost twoManual firstDone
      (by decide +kernel) (by decide +kernel) (by decide +kernel))
      (leads_run plainHost _ editedAndCancelled (by decide +kernel))).2.1⟩

end WfAbsorbing
