import Cinatra.Workflows.Acts

/-! # Invariant — what holds of the rows in every state

    Four groups: the rows are keyed, the attempts form a ledger, the leases
    belong to running attempts, and what the processes carry is backed by rows.
    Each group is kept by every row act and by every act; an edit and the closing
    of a workflow are treated where they are modelled. -/

namespace WfInvariant

open RowTable WfTransitions WfSpec WfRows WfState WfReconciler WfActs

/-- The numbers of a task's attempts, in insertion order. -/
def attemptNumbers (attempts : List AttemptRow) (taskId : RowId) : List Nat :=
  (attempts.filter (fun a => a.taskId = taskId)).map AttemptRow.attemptNo

/-- How many attempts a task has. -/
def attemptCount (attempts : List AttemptRow) (taskId : RowId) : Nat :=
  (attempts.filter (fun a => a.taskId = taskId)).length

/-- Task ids and keys are keys, and no id is reused. -/
structure Keyed (e : Engine) : Prop where
  ids : (e.db.tasks.map TaskRow.id).Nodup
  keys : (e.db.tasks.map (fun t => t.key)).Nodup
  old : ∀ t ∈ e.db.tasks, Old e t.id

/-- Idle or scheduled: what the claim loop looks at. -/
def Waiting (t : TaskRow) : Prop := t.status = .idle ∨ t.status = .scheduled

theorem not_waiting_of_launch {t t' : TaskRow} (h : Launch t t') : ¬ Waiting t' := by
  rw [Waiting, h.running]
  rintro (h | h) <;> cases h

/-- The attempt ledger: each task's attempts are numbered in order, at most the
    last one runs, and a waiting task has none that does. -/
structure Ledger (e : Engine) : Prop where
  ids : (e.db.attempts.map AttemptRow.id).Nodup
  old : ∀ a ∈ e.db.attempts, Old e a.id
  numbered : ∀ taskId, attemptNumbers e.db.attempts taskId =
    List.range' 1 (attemptCount e.db.attempts taskId)
  keyed : ∀ a ∈ e.db.attempts, a.idempotencyKey = ⟨e.db.workflow.id, a.taskId, a.attemptNo⟩
  highest : ∀ a ∈ e.db.attempts, a.status = .running →
    a.attemptNo = attemptCount e.db.attempts a.taskId
  waiting : ∀ t ∈ e.db.tasks, Waiting t → ∀ a ∈ e.db.attempts, a.taskId = t.id → a.status ≠ .running
  untouched : ∀ t ∈ e.db.tasks, t.status = .idle → ¬ Attempted e t.id
  task : ∀ a ∈ e.db.attempts, ∃ t ∈ e.db.tasks, t.id = a.taskId

/-- One lease a task, on a task that is not waiting; a lease belongs to a running
    attempt that has no child run yet, and to the claim handed out last. -/
structure Leased (e : Engine) : Prop where
  one : (e.db.leases.map LeaseRow.taskId).Nodup
  held : ∀ l ∈ e.db.leases, ∀ t ∈ e.db.tasks, t.id = l.taskId → ¬ Waiting t
  running : ∀ l ∈ e.db.leases,
    ∃ a ∈ e.db.attempts, a.id = l.attemptId ∧ a.status = .running ∧ a.childRunId = none
  backed : ∀ l ∈ e.db.leases, ∃ c ∈ e.dispatched,
    c.taskId = l.taskId ∧ c.attemptId = l.attemptId ∧ c.leaseToken = l.token

/-- What a process carries between its transactions names rows that exist. -/
structure Carried (e : Engine) : Prop where
  tokens : (e.dispatched.map ClaimedTask.leaseToken).Nodup
  old : ∀ c ∈ e.dispatched, Old e c.leaseToken
  dispatched : ∀ c ∈ e.dispatched, ∃ a ∈ e.db.attempts, a.id = c.attemptId ∧
    a.taskId = c.taskId ∧ a.attemptNo = c.attemptNo ∧ a.idempotencyKey = c.idempotencyKey
  polled : ∀ p ∈ e.polled, ∃ a ∈ e.db.attempts, a.id = p.attemptId ∧
    a.taskId = p.taskId ∧ a.attemptNo = p.attemptNo
  manual : ∀ r ∈ e.manualReads, ∃ t ∈ e.db.tasks, t.id = r.taskId ∧
    r.lockVersion ≤ t.lockVersion ∧ (r.lockVersion = t.lockVersion → t.status = .running) ∧
    (Attempted e t.id ∨ t.type = .manual ∧ ¬ Waiting t)

/-- The foreign keys. -/
structure Linked (e : Engine) : Prop where
  deps : ∀ d ∈ e.db.deps, (∃ t ∈ e.db.tasks, t.id = d.taskId) ∧
    ∃ t ∈ e.db.tasks, t.id = d.dependsOnTaskId
  approvals : ∀ a ∈ e.db.approvals, ∃ t ∈ e.db.tasks, t.id = a.taskId
  approval_ids : (e.db.approvals.map ApprovalRow.id).Nodup
  artifacts : ∀ r ∈ e.db.artifacts, ∃ t ∈ e.db.tasks, t.id = r.taskId

/-- A draft has run nothing. -/
structure Untouched (e : Engine) : Prop where
  idle : ∀ t ∈ e.db.tasks, t.status = .idle
  attempts : e.db.attempts = []
  artifacts : e.db.artifacts = []

structure Inv (e : Engine) : Prop where
  keyed : Keyed e
  ledger : Ledger e
  leased : Leased e
  carried : Carried e
  linked : Linked e
  draft : e.db.workflow.status = .draft → Untouched e
  shut : isTerminalWorkflowStatus e.db.workflow.status = true → e.db.leases = []

/-! ## Rows after a row act -/

section Rows

variable {e e' : Engine} {g : TaskRow → TaskRow} {id : RowId}

private theorem old_mono (h : e.nextUuid ≤ e'.nextUuid) (hid : Old e id) : Old e' id := by
  intro n hn
  exact Nat.lt_of_lt_of_le (hid n hn) h

private theorem fresh_not_old (hid : Old e id) {n : Nat} (hn : e.nextUuid ≤ n) : id ≠ .uuid n := by
  intro h
  have := hid n h
  omega

private theorem map_id_rows (hg : ∀ t ∈ e.db.tasks, Became e t (g t)) :
    (e.db.tasks.map g).map TaskRow.id = e.db.tasks.map TaskRow.id := by
  rw [List.map_map]
  apply List.map_congr_left
  intro t ht
  exact (hg t ht).id

private theorem map_key_rows (hg : ∀ t ∈ e.db.tasks, Became e t (g t)) :
    (e.db.tasks.map g).map (fun t => t.key) = e.db.tasks.map (fun t => t.key) := by
  rw [List.map_map]
  apply List.map_congr_left
  intro t ht
  exact key_of_definition (hg t ht).definition

private theorem keyed_rows (h : Keyed e) (hrows : e'.db.tasks = e.db.tasks.map g)
    (hg : ∀ t ∈ e.db.tasks, Became e t (g t)) (hn : e.nextUuid ≤ e'.nextUuid) : Keyed e' := by
  constructor
  · rw [hrows, map_id_rows hg]
    exact h.ids
  · rw [hrows, map_key_rows hg]
    exact h.keys
  · rw [hrows]
    intro t' ht'
    obtain ⟨t, ht, rfl⟩ := List.mem_map.mp ht'
    rw [(hg t ht).id]
    exact old_mono hn (h.old t ht)

private theorem exists_rows (hrows : e'.db.tasks = e.db.tasks.map g)
    (hg : ∀ t ∈ e.db.tasks, Became e t (g t)) (h : ∃ t ∈ e.db.tasks, t.id = id) :
    ∃ t ∈ e'.db.tasks, t.id = id := by
  obtain ⟨t, ht, hid⟩ := h
  refine ⟨g t, ?_, (hg t ht).id.trans hid⟩
  rw [hrows]
  exact List.mem_map_of_mem ht

end Rows

theorem keyed_rowAct {e e' : Engine} (h : Keyed e) (hact : RowAct e e') : Keyed e' := by
  obtain ⟨g, hrows, hg⟩ := hact.rows h.ids
  exact keyed_rows h hrows hg hact.nextUuid

section Ledger

variable {e e' : Engine}

private theorem ledger_congr (h : Ledger e) (ht : e'.db.tasks = e.db.tasks)
    (ha : e'.db.attempts = e.db.attempts) (hw : e'.db.workflow.id = e.db.workflow.id)
    (hn : e.nextUuid ≤ e'.nextUuid) : Ledger e' := by
  constructor
  · rw [ha]; exact h.ids
  · rw [ha]
    intro a hm
    exact old_mono hn (h.old a hm)
  · rw [ha]; exact h.numbered
  · rw [ha, hw]; exact h.keyed
  · rw [ha]; exact h.highest
  · rw [ha, ht]; exact h.waiting
  · rw [ht]
    rintro t hm hs ⟨a, hma, hid⟩
    rw [ha] at hma
    exact h.untouched t hm hs ⟨a, hma, hid⟩
  · rw [ha, ht]; exact h.task

/-- Only a requeue makes a row wait, and it has checked the attempts and the leases. -/
private theorem waits_before {t t' : TaskRow} (h : Advance e t t') (hw : Waiting t') :
    Waiting t ∨ (∀ a ∈ e.db.attempts, a.taskId = t.id → a.status ≠ .running) ∧
      ∀ l ∈ e.db.leases, l.taskId ≠ t.id := by
  rcases h.move with hs | ⟨_, hterm⟩ | ⟨_, _, hatt, hlease, _⟩ | ⟨_, hrun, _⟩
  · rw [Waiting, hs] at hw
    exact .inl hw
  · rcases hw with hw | hw
    · rw [hw] at hterm; cases hterm
    · rw [hw] at hterm; cases hterm
  · exact .inr ⟨hatt, hlease⟩
  · rcases hw with hw | hw
    · rw [hw] at hrun; cases hrun
    · rw [hw] at hrun; cases hrun

variable {f : TaskRow → TaskRow}

private theorem ledger_tasks {p : TaskRow → Bool} (h : Ledger e)
    (hf : ∀ t ∈ e.db.tasks, p t = true → Advance e t (f t)) : Ledger (e.updateTasks p f) := by
  refine ⟨h.ids, h.old, h.numbered, h.keyed, h.highest, ?_, ?_, ?_⟩
  · intro t' ht' hw a ha hid
    rcases updateWhere_cases ht' with ⟨t, ht, hp, rfl⟩ | ⟨ht, -⟩
    · have hadv := hf t ht hp
      rw [hadv.id] at hid
      rcases waits_before hadv hw with hw | ⟨hatt, -⟩
      · exact h.waiting t ht hw a ha hid
      · exact hatt a ha hid
    · exact h.waiting t' ht hw a ha hid
  · -- no statement makes a row idle
    intro t' ht' hs
    rcases updateWhere_cases ht' with ⟨t, ht, hp, rfl⟩ | ⟨ht, -⟩
    · have hadv := hf t ht hp
      rw [hadv.id]
      rcases hadv.move with h₁ | ⟨_, h₁⟩ | ⟨_, h₁⟩ | ⟨_, h₁⟩
      · exact h.untouched t ht (h₁ ▸ hs)
      · rw [hs] at h₁; cases h₁
      · rw [hs] at h₁; cases h₁
      · rw [hs] at h₁; cases h₁
    · exact h.untouched t' ht hs
  · intro a ha
    obtain ⟨t, ht, hid⟩ := h.task a ha
    refine ⟨if p t then f t else t, mem_updateWhere.mpr ⟨t, ht, rfl⟩, ?_⟩
    by_cases hp : p t = true
    · rw [if_pos hp, (hf t ht hp).id, hid]
    · rw [if_neg hp, hid]

/-! ### Attempts settle -/

variable {g : AttemptRow → AttemptRow} {rows : List AttemptRow}

private theorem attemptNumbers_map (hid : ∀ a ∈ rows, (g a).taskId = a.taskId)
    (hno : ∀ a ∈ rows, (g a).attemptNo = a.attemptNo) (taskId : RowId) :
    attemptNumbers (rows.map g) taskId = attemptNumbers rows taskId := by
  have hfilter : rows.filter ((fun a => a.taskId = taskId) ∘ g) =
      rows.filter (fun a => a.taskId = taskId) := by
    apply List.filter_congr
    intro a ha
    show decide ((g a).taskId = taskId) = _
    rw [hid a ha]
  rw [attemptNumbers, attemptNumbers, List.filter_map, List.map_map, hfilter]
  apply List.map_congr_left
  intro a ha
  exact hno a (List.mem_of_mem_filter ha)

theorem attemptCount_eq (rows : List AttemptRow) (taskId : RowId) :
    attemptCount rows taskId = (attemptNumbers rows taskId).length :=
  (List.length_map ..).symm

private theorem attemptCount_map (hid : ∀ a ∈ rows, (g a).taskId = a.taskId)
    (hno : ∀ a ∈ rows, (g a).attemptNo = a.attemptNo) (taskId : RowId) :
    attemptCount (rows.map g) taskId = attemptCount rows taskId := by
  rw [attemptCount_eq, attemptCount_eq, attemptNumbers_map hid hno]

/-- What an attempt update makes of a row. -/
def Settled (a a' : AttemptRow) : Prop :=
  a' = a ∨ (a.status = .running ∧ a'.id = a.id ∧ a'.taskId = a.taskId ∧
    a'.attemptNo = a.attemptNo ∧ a'.idempotencyKey = a.idempotencyKey)

variable {a a' : AttemptRow}

section

variable (h : Settled a a')

include h

theorem Settled.id : a'.id = a.id := by
  rcases h with rfl | ⟨_, h, _⟩
  · rfl
  · exact h

theorem Settled.taskId : a'.taskId = a.taskId := by
  rcases h with rfl | ⟨_, _, h, _⟩
  · rfl
  · exact h

theorem Settled.attemptNo : a'.attemptNo = a.attemptNo := by
  rcases h with rfl | ⟨_, _, _, h, _⟩
  · rfl
  · exact h

theorem Settled.idempotencyKey : a'.idempotencyKey = a.idempotencyKey := by
  rcases h with rfl | ⟨_, _, _, _, h⟩
  · rfl
  · exact h

theorem Settled.running (ha : a'.status = .running) : a.status = .running := by
  rcases h with rfl | ⟨h, _⟩
  · exact ha
  · exact h

end

private theorem settled_update {p : AttemptRow → Bool} {f : AttemptRow → AttemptRow}
    (hf : ∀ a ∈ e.db.attempts, p a = true → Settle e a (f a)) :
    ∀ a ∈ e.db.attempts, Settled a (if p a then f a else a) := by
  intro a ha
  by_cases hp : p a = true
  · rw [if_pos hp]
    have hs := hf a ha hp
    exact .inr ⟨hs.running, hs.id, hs.taskId, hs.attemptNo, hs.idempotencyKey⟩
  · rw [if_neg hp]
    exact .inl rfl

private theorem ledger_attempts (h : Ledger e)
    (hg : ∀ a ∈ e.db.attempts, Settled a (g a)) :
    Ledger { e with db := { e.db with attempts := e.db.attempts.map g } } := by
  have htask : ∀ a ∈ e.db.attempts, (g a).taskId = a.taskId := fun a ha => (hg a ha).taskId
  have hno : ∀ a ∈ e.db.attempts, (g a).attemptNo = a.attemptNo := fun a ha => (hg a ha).attemptNo
  constructor
  · have hids : (e.db.attempts.map g).map AttemptRow.id = e.db.attempts.map AttemptRow.id := by
      rw [List.map_map]
      apply List.map_congr_left
      intro a ha
      exact (hg a ha).id
    show ((e.db.attempts.map g).map AttemptRow.id).Nodup
    rw [hids]
    exact h.ids
  · intro a' ha'
    obtain ⟨a, ha, rfl⟩ := List.mem_map.mp ha'
    rw [(hg a ha).id]
    exact h.old a ha
  · intro taskId
    show attemptNumbers (e.db.attempts.map g) taskId =
      List.range' 1 (attemptCount (e.db.attempts.map g) taskId)
    rw [attemptNumbers_map htask hno, attemptCount_map htask hno]
    exact h.numbered taskId
  · intro a' ha'
    obtain ⟨a, ha, rfl⟩ := List.mem_map.mp ha'
    rw [(hg a ha).idempotencyKey, (hg a ha).taskId, (hg a ha).attemptNo]
    exact h.keyed a ha
  · intro a' ha' hs
    obtain ⟨a, ha, rfl⟩ := List.mem_map.mp ha'
    show (g a).attemptNo = attemptCount (e.db.attempts.map g) (g a).taskId
    rw [attemptCount_map htask hno, (hg a ha).taskId, (hg a ha).attemptNo]
    exact h.highest a ha ((hg a ha).running hs)
  · intro t ht hw a' ha' hid hs
    obtain ⟨a, ha, rfl⟩ := List.mem_map.mp ha'
    rw [(hg a ha).taskId] at hid
    exact h.waiting t ht hw a ha hid ((hg a ha).running hs)
  · rintro t ht hs ⟨a', ha', hid⟩
    obtain ⟨a, ha, rfl⟩ := List.mem_map.mp ha'
    rw [(hg a ha).taskId] at hid
    exact h.untouched t ht hs ⟨a, ha, hid⟩
  · intro a' ha'
    obtain ⟨a, ha, rfl⟩ := List.mem_map.mp ha'
    rw [(hg a ha).taskId]
    exact h.task a ha

/-! ### A claim -/

private theorem attemptNumbers_append (rows : List AttemptRow) (a : AttemptRow) (taskId : RowId) :
    attemptNumbers (rows ++ [a]) taskId =
      attemptNumbers rows taskId ++ (if a.taskId = taskId then [a.attemptNo] else []) := by
  rw [attemptNumbers, attemptNumbers, List.filter_append, List.map_append]
  by_cases h : a.taskId = taskId
  · rw [if_pos h, List.filter_singleton]
    simp [h]
  · rw [if_neg h, List.filter_singleton]
    simp [h]

private theorem attemptCount_append (rows : List AttemptRow) (a : AttemptRow) (taskId : RowId) :
    attemptCount (rows ++ [a]) taskId =
      attemptCount rows taskId + (if a.taskId = taskId then 1 else 0) := by
  rw [attemptCount_eq, attemptCount_eq, attemptNumbers_append, List.length_append]
  by_cases h : a.taskId = taskId
  · rw [if_pos h, if_pos h]
    rfl
  · rw [if_neg h, if_neg h]
    rfl

theorem nextAttempt_attemptNo (e : Engine) (taskId : RowId) :
    (nextAttempt e taskId).attemptNo = attemptCount e.db.attempts taskId + 1 := rfl

section Launched

variable {t : TaskRow} {f : TaskRow → TaskRow} (hk : Keyed e) (ht : t ∈ e.db.tasks)

include hk ht

variable {r : TaskRow}

/-- The compare-and-set of a claim finds the row of its id. -/
private theorem launch_cases (hr : r ∈ e.db.tasks) :
    (if versionIs t.id t.lockVersion r then f r else r) = f t ∧ r = t ∨
      (if versionIs t.id t.lockVersion r then f r else r) = r ∧ r.id ≠ t.id := by
  by_cases hid : r.id = t.id
  · obtain rfl := eq_of_key hk.ids hr ht hid
    exact .inl ⟨if_pos (by simp [versionIs]), rfl⟩
  · exact .inr ⟨if_neg (by simp [versionIs, hid]), hid⟩

private theorem launched_row {r' : TaskRow}
    (hr' : r' ∈ (launched e t.id t.lockVersion f).db.tasks) :
    r' ∈ e.db.tasks ∧ r'.id ≠ t.id ∨ r' = f t := by
  obtain ⟨r, hr, rfl⟩ := mem_updateWhere.mp hr'
  rcases launch_cases hk ht (f := f) hr with ⟨hrow, -⟩ | ⟨hrow, hne⟩
  · exact .inr hrow
  · rw [hrow]
    exact .inl ⟨hr, hne⟩

private theorem launched_kept (hf : Launch t (f t)) (hr : r ∈ e.db.tasks) :
    ∃ r' ∈ (launched e t.id t.lockVersion f).db.tasks, r'.id = r.id := by
  refine ⟨_, mem_updateWhere.mpr ⟨r, hr, rfl⟩, ?_⟩
  rcases launch_cases hk ht (f := f) hr with ⟨hrow, rfl⟩ | ⟨hrow, -⟩
  · rw [hrow, hf.id]
  · rw [hrow]

end Launched

private theorem ledger_launch {t : TaskRow} (hk : Keyed e) (h : Ledger e)
    (ht : t ∈ e.db.tasks) (hf : Launch t (f t)) : Ledger (launched e t.id t.lockVersion f) := by
  have hcases : ∀ a ∈ (launched e t.id t.lockVersion f).db.attempts,
      a ∈ e.db.attempts ∨ a = nextAttempt e t.id := fun _ => mem_concat.mp
  constructor
  · exact nodup_concat h.ids fun a ha => fresh_not_old (h.old a ha) (Nat.le_refl _)
  · intro a ha
    rcases hcases a ha with ha | rfl
    · exact old_mono (Nat.le_add_right _ 2) (h.old a ha)
    · intro n hn
      have : e.nextUuid = n := RowId.uuid.inj hn
      show n < e.nextUuid + 2
      omega
  · intro taskId
    show attemptNumbers (e.db.attempts ++ [nextAttempt e t.id]) taskId =
      List.range' 1 (attemptCount (e.db.attempts ++ [nextAttempt e t.id]) taskId)
    rw [attemptNumbers_append, attemptCount_append, h.numbered]
    by_cases hid : (nextAttempt e t.id).taskId = taskId
    · rw [if_pos hid, if_pos hid, List.range'_concat, nextAttempt_attemptNo,
        show t.id = taskId from hid]
      simp [Nat.add_comm]
    · rw [if_neg hid, if_neg hid]
      simp
  · intro a ha
    rcases hcases a ha with ha | rfl
    · exact h.keyed a ha
    · rfl
  · intro a ha hs
    show a.attemptNo = attemptCount (e.db.attempts ++ [nextAttempt e t.id]) a.taskId
    rw [attemptCount_append]
    rcases hcases a ha with ha | rfl
    · by_cases hid : (nextAttempt e t.id).taskId = a.taskId
      · -- a waiting task has no running attempt
        exact absurd hs (h.waiting t ht hf.waiting a ha hid.symm)
      · rw [if_neg hid]
        exact h.highest a ha hs
    · rw [if_pos rfl]
      rfl
  · intro r hr hw a ha hid
    rcases launched_row hk ht hr with ⟨hr, hne⟩ | rfl
    · rcases hcases a ha with ha | rfl
      · exact h.waiting r hr hw a ha hid
      · exact absurd hid.symm hne
    · exact absurd hw (not_waiting_of_launch hf)
  · rintro r hr hs ⟨a, ha, hid⟩
    rcases launched_row hk ht hr with ⟨hr, hne⟩ | rfl
    · rcases hcases a ha with ha | rfl
      · exact h.untouched r hr hs ⟨a, ha, hid⟩
      · exact absurd hid.symm hne
    · rw [hf.running] at hs
      cases hs
  · intro a ha
    rcases hcases a ha with ha | rfl
    · obtain ⟨r, hr, hid⟩ := h.task a ha
      obtain ⟨r', hr', hid'⟩ := launched_kept hk ht hf hr
      exact ⟨r', hr', hid'.trans hid⟩
    · exact launched_kept hk ht hf ht

theorem ledger_rowAct (hk : Keyed e) (h : Ledger e) (hact : RowAct e e') : Ledger e' := by
  cases hact with
  | tasks p f hf => exact ledger_tasks h hf
  | attempts p f hf => exact ledger_attempts h (settled_update hf)
  | launch t f ht hf hl => exact ledger_launch hk h ht hf
  | workflow w hid hmove hopen hdraft hversion => exact ledger_congr h rfl rfl hid (Nat.le_refl _)
  | takeOver => exact ledger_congr h rfl rfl rfl (Nat.le_add_right _ 1)
  | ids n => exact ledger_congr h rfl rfl rfl (Nat.le_add_right _ n)
  | artifacts | touch | drop | clock | polled | manualRead =>
    exact ledger_congr h rfl rfl rfl (Nat.le_refl _)

end Ledger

/-! ## Leases -/

section Leased

variable {e e' : Engine}

private theorem leased_congr (h : Leased e) (ht : e'.db.tasks = e.db.tasks)
    (ha : e'.db.attempts = e.db.attempts) (hl : e'.db.leases = e.db.leases)
    (hd : e'.dispatched = e.dispatched) : Leased e' := by
  constructor
  · rw [hl]; exact h.one
  · rw [hl, ht]; exact h.held
  · rw [hl, ha]; exact h.running
  · rw [hl, hd]; exact h.backed

variable {f : TaskRow → TaskRow}

private theorem leased_tasks {p : TaskRow → Bool} (h : Leased e)
    (hf : ∀ t ∈ e.db.tasks, p t = true → Advance e t (f t)) : Leased (e.updateTasks p f) := by
  refine ⟨h.one, ?_, h.running, h.backed⟩
  intro l hl t' ht' hid hw
  rcases updateWhere_cases ht' with ⟨t, ht, hp, rfl⟩ | ⟨ht, -⟩
  · have hadv := hf t ht hp
    rw [hadv.id] at hid
    rcases waits_before hadv hw with hw | ⟨-, hlease⟩
    · exact h.held l hl t ht hid hw
    · exact hlease l hl hid.symm
  · exact h.held l hl t' ht hid hw

private theorem leased_attempts {p : AttemptRow → Bool} {f : AttemptRow → AttemptRow}
    (h : Leased e) (hf : ∀ a ∈ e.db.attempts, p a = true → Settle e a (f a)) :
    Leased (e.updateAttempts p f) := by
  refine ⟨h.one, h.held, ?_, h.backed⟩
  intro l hl
  obtain ⟨a, ha, haid, hrun, hchild⟩ := h.running l hl
  refine ⟨a, mem_updateWhere.mpr ⟨a, ha, ?_⟩, haid, hrun, hchild⟩
  rw [if_neg]
  intro hp
  exact (hf a ha hp).unleased l hl haid.symm

private theorem leased_launch {t : TaskRow} (hk : Keyed e)
    (h : Leased e) (ht : t ∈ e.db.tasks) (hf : Launch t (f t)) :
    Leased (launched e t.id t.lockVersion f) := by
  have hfree : ∀ l ∈ e.db.leases, l.taskId ≠ t.id := by
    intro l hl hid
    exact h.held l hl t ht hid.symm hf.waiting
  have hcases : ∀ l ∈ (launched e t.id t.lockVersion f).db.leases,
      l ∈ e.db.leases ∨ l = nextLease e t.id := fun _ => mem_concat.mp
  constructor
  · exact nodup_concat h.one hfree
  · intro l hl r hr hid hw
    rcases launched_row hk ht hr with ⟨hr, hne⟩ | rfl
    · rcases hcases l hl with hl | rfl
      · exact h.held l hl r hr hid hw
      · exact absurd hid hne
    · exact absurd hw (not_waiting_of_launch hf)
  · intro l hl
    rcases hcases l hl with hl | rfl
    · obtain ⟨a, ha, h₁⟩ := h.running l hl
      exact ⟨a, List.mem_append_left _ ha, h₁⟩
    · exact ⟨nextAttempt e t.id, List.mem_concat_self,
        rfl, rfl, rfl⟩
  · intro l hl
    rcases hcases l hl with hl | rfl
    · obtain ⟨c, hc, h₁⟩ := h.backed l hl
      exact ⟨c, List.mem_append_left _ hc, h₁⟩
    · exact ⟨nextClaim e t.id, List.mem_concat_self,
        rfl, rfl, rfl⟩

private theorem leased_leases {g : LeaseRow → LeaseRow} (h : Leased e)
    (hl : e'.db.leases = e.db.leases.map g)
    (hg : ∀ l, (g l).taskId = l.taskId ∧ (g l).attemptId = l.attemptId)
    (ht : e'.db.tasks = e.db.tasks) (ha : e'.db.attempts = e.db.attempts)
    (hb : ∀ l ∈ e.db.leases, ∃ c ∈ e'.dispatched,
      c.taskId = l.taskId ∧ c.attemptId = l.attemptId ∧ c.leaseToken = (g l).token) :
    Leased e' := by
  constructor
  · have hids : (e.db.leases.map g).map LeaseRow.taskId = e.db.leases.map LeaseRow.taskId := by
      rw [List.map_map]
      apply List.map_congr_left
      intro l _
      exact (hg l).1
    rw [hl, hids]
    exact h.one
  · intro l' hl' t htm hid
    rw [hl] at hl'
    rw [ht] at htm
    obtain ⟨l, hlm, rfl⟩ := List.mem_map.mp hl'
    exact h.held l hlm t htm (hid.trans (hg l).1)
  · intro l' hl'
    rw [hl] at hl'
    obtain ⟨l, hlm, rfl⟩ := List.mem_map.mp hl'
    rw [ha, (hg l).2]
    exact h.running l hlm
  · intro l' hl'
    rw [hl] at hl'
    obtain ⟨l, hlm, rfl⟩ := List.mem_map.mp hl'
    rw [(hg l).1, (hg l).2]
    exact hb l hlm

private theorem leased_takeOver {lease : LeaseRow} {attempt : AttemptRow} (h : Leased e)
    (hlease : lease ∈ e.db.leases) (hid : attempt.id = lease.attemptId) :
    Leased (takenOver e lease attempt) := by
  refine leased_leases (g := fun l => if takeable e lease.taskId lease.token l then
      { l with token := e.freshId, acquiredAt := e.clock, heartbeatAt := e.clock,
               expiresAt := e.clock + dispatchLeaseTtlMs } else l) h rfl ?_ rfl rfl ?_
  · intro l
    by_cases hp : takeable e lease.taskId lease.token l = true
    · rw [if_pos hp]
      exact ⟨rfl, rfl⟩
    · rw [if_neg hp]
      exact ⟨rfl, rfl⟩
  · intro l hl
    by_cases hp : takeable e lease.taskId lease.token l = true
    · rw [if_pos hp]
      have hl' : l = lease := by
        simp only [takeable, Bool.and_eq_true, decide_eq_true_eq] at hp
        exact eq_of_key h.one hl hlease hp.1.1
      rw [hl']
      exact ⟨_, List.mem_concat_self, rfl, hid, rfl⟩
    · rw [if_neg hp]
      obtain ⟨c, hc, h₁⟩ := h.backed l hl
      exact ⟨c, List.mem_append_left _ hc, h₁⟩

private theorem leased_touch {p : LeaseRow → Bool} {f : LeaseRow → LeaseRow} (h : Leased e)
    (hf : ∀ l, (f l).taskId = l.taskId ∧ (f l).attemptId = l.attemptId ∧ (f l).token = l.token) :
    Leased (e.updateLeases p f) := by
  have hg : ∀ l, (if p l then f l else l).taskId = l.taskId ∧
      (if p l then f l else l).attemptId = l.attemptId ∧
      (if p l then f l else l).token = l.token := by
    intro l
    by_cases hp : p l = true
    · rw [if_pos hp]
      exact hf l
    · rw [if_neg hp]
      exact ⟨rfl, rfl, rfl⟩
  refine leased_leases h rfl (fun l => ⟨(hg l).1, (hg l).2.1⟩) rfl rfl ?_
  intro l hl
  obtain ⟨c, hc, h₁, h₂, h₃⟩ := h.backed l hl
  exact ⟨c, hc, h₁, h₂, h₃.trans (hg l).2.2.symm⟩

private theorem leased_drop (p : LeaseRow → Bool) (h : Leased e) : Leased (e.deleteLeases p) := by
  have hsub : ∀ l ∈ (e.deleteLeases p).db.leases, l ∈ e.db.leases :=
    fun l hl => List.mem_of_mem_filter hl
  constructor
  · exact h.one.sublist (List.filter_sublist.map _)
  · intro l hl
    exact h.held l (hsub l hl)
  · intro l hl
    exact h.running l (hsub l hl)
  · intro l hl
    exact h.backed l (hsub l hl)

theorem leased_rowAct (hk : Keyed e) (h : Leased e) (hact : RowAct e e') : Leased e' := by
  cases hact with
  | tasks p f hf => exact leased_tasks h hf
  | attempts p f hf => exact leased_attempts h hf
  | launch t f ht hf hl => exact leased_launch hk h ht hf
  | takeOver lease attempt hl ha hid htask hexp => exact leased_takeOver h hl hid
  | touch p f hf => exact leased_touch h hf
  | drop p => exact leased_drop p h
  | artifacts | workflow | clock | ids | polled | manualRead =>
    exact leased_congr h rfl rfl rfl rfl

end Leased

/-! ## What is carried -/

section Carried

variable {e e' : Engine}

private theorem attempt_stays (hact : RowAct e e') {a : AttemptRow} (ha : a ∈ e.db.attempts) :
    ∃ a' ∈ e'.db.attempts, a'.id = a.id ∧ a'.taskId = a.taskId ∧ a'.attemptNo = a.attemptNo ∧
      a'.idempotencyKey = a.idempotencyKey := by
  cases hact with
  | attempts p f hf =>
    have hs := settled_update hf a ha
    exact ⟨_, mem_updateWhere.mpr ⟨a, ha, rfl⟩, hs.id, hs.taskId, hs.attemptNo, hs.idempotencyKey⟩
  | launch t f ht hf hl => exact ⟨a, List.mem_append_left _ ha, rfl, rfl, rfl, rfl⟩
  | tasks | artifacts | takeOver | touch | drop | workflow | clock | ids | polled
  | manualRead => exact ⟨a, ha, rfl, rfl, rfl, rfl⟩

theorem attempted_rowAct (hact : RowAct e e') {taskId : RowId} (h : Attempted e taskId) :
    Attempted e' taskId := by
  obtain ⟨a, ha, hid⟩ := h
  obtain ⟨a', ha', _, hid', _⟩ := attempt_stays hact ha
  exact ⟨a', ha', hid'.trans hid⟩

private theorem tokens_append {c : ClaimedTask} {n : Nat} (h : Carried e)
    (hc : c.leaseToken = .uuid n) (hn : e.nextUuid ≤ n) :
    ((e.dispatched ++ [c]).map ClaimedTask.leaseToken).Nodup :=
  nodup_concat h.tokens fun d hd heq => fresh_not_old (h.old d hd) hn (heq.trans hc)

/-- What a manual completion has read, after the rows have moved on. -/
private theorem manual_rows {g : TaskRow → TaskRow} (h : Carried e) (hact : RowAct e e')
    (hrows : e'.db.tasks = e.db.tasks.map g) (hg : ∀ t ∈ e.db.tasks, Became e t (g t)) :
    ∀ r ∈ e.manualReads, ∃ t ∈ e'.db.tasks, t.id = r.taskId ∧ r.lockVersion ≤ t.lockVersion ∧
      (r.lockVersion = t.lockVersion → t.status = .running) ∧
      (Attempted e' t.id ∨ t.type = .manual ∧ ¬ Waiting t) := by
  intro r hr
  obtain ⟨t, ht, hid, hle, heq, hown⟩ := h.manual r hr
  refine ⟨g t, by rw [hrows]; exact List.mem_map_of_mem ht, (hg t ht).id.trans hid, ?_, ?_, ?_⟩
  · rcases (hg t ht).version with hsame | hlt
    · rw [hsame]
      exact hle
    · omega
  · intro he
    rcases (hg t ht).version with hsame | hlt
    · rw [hsame] at he ⊢
      exact heq he
    · omega
  · rw [(hg t ht).id]
    rcases hown with hatt | ⟨htype, hw⟩
    · exact .inl (attempted_rowAct hact hatt)
    rcases hg t ht with hsame | hadv | hlaunch
    · rw [hsame]
      exact .inr ⟨htype, hw⟩
    · have htype' : (g t).type = .manual :=
        (type_of_definition hadv.definition).trans htype
      rcases hadv.move with hs | ⟨_, hterm⟩ | ⟨_, _, _, _, hwho⟩ | ⟨hs, _⟩
      · refine .inr ⟨htype', ?_⟩
        rw [Waiting, hs]
        exact hw
      · refine .inr ⟨htype', ?_⟩
        rintro (h₁ | h₁)
        · rw [h₁] at hterm; cases hterm
        · rw [h₁] at hterm; cases hterm
      · -- a requeued manual task was dispatched
        rcases hwho with hatt | ⟨hinst, _⟩
        · exact .inl (attempted_rowAct hact hatt)
        · rw [htype] at hinst
          cases hinst
      · exact absurd (.inl hs) hw
    · exact absurd hlaunch.waiting hw

theorem carried_rowAct (hk : Keyed e) (h : Carried e) (hact : RowAct e e') : Carried e' := by
  obtain ⟨g, hrows, hg⟩ := hact.rows hk.ids
  have hstays : ∀ c : ClaimedTask, (∃ a ∈ e.db.attempts, a.id = c.attemptId ∧ a.taskId = c.taskId ∧
        a.attemptNo = c.attemptNo ∧ a.idempotencyKey = c.idempotencyKey) →
      ∃ a ∈ e'.db.attempts, a.id = c.attemptId ∧ a.taskId = c.taskId ∧
        a.attemptNo = c.attemptNo ∧ a.idempotencyKey = c.idempotencyKey := by
    rintro c ⟨a, ha, h₁, h₂, h₃, h₄⟩
    obtain ⟨a', ha', h₁', h₂', h₃', h₄'⟩ := attempt_stays hact ha
    exact ⟨a', ha', h₁'.trans h₁, h₂'.trans h₂, h₃'.trans h₃, h₄'.trans h₄⟩
  have hpolled : ∀ p : PolledAttempt,
      (∃ a ∈ e.db.attempts, a.id = p.attemptId ∧ a.taskId = p.taskId ∧ a.attemptNo = p.attemptNo) →
      ∃ a ∈ e'.db.attempts, a.id = p.attemptId ∧ a.taskId = p.taskId ∧
        a.attemptNo = p.attemptNo := by
    rintro p ⟨a, ha, h₁, h₂, h₃⟩
    obtain ⟨a', ha', h₁', h₂', h₃', _⟩ := attempt_stays hact ha
    exact ⟨a', ha', h₁'.trans h₁, h₂'.trans h₂, h₃'.trans h₃⟩
  have hmanual := manual_rows h hact hrows hg
  have hold : ∀ c ∈ e.dispatched, Old e' c.leaseToken :=
    fun c hc => old_mono hact.nextUuid (h.old c hc)
  cases hact with
  | launch t f ht hf hl =>
    refine ⟨tokens_append h rfl (Nat.le_add_right _ 1), ?_, ?_,
      fun p hp => hpolled p (h.polled p hp), hmanual⟩
    · intro c hc
      rcases mem_concat.mp hc with hc | rfl
      · exact hold c hc
      · intro n hn
        have : e.nextUuid + 1 = n := RowId.uuid.inj hn
        show n < e.nextUuid + 2
        omega
    · intro c hc
      rcases mem_concat.mp hc with hc | rfl
      · exact hstays c (h.dispatched c hc)
      · exact ⟨nextAttempt e t.id, List.mem_concat_self,
          rfl, rfl, rfl, rfl⟩
  | takeOver lease attempt hl ha hid htask hexp =>
    refine ⟨tokens_append h rfl (Nat.le_refl _), ?_, ?_,
      fun p hp => hpolled p (h.polled p hp), hmanual⟩
    · intro c hc
      rcases mem_concat.mp hc with hc | rfl
      · exact hold c hc
      · intro n hn
        have : e.nextUuid = n := RowId.uuid.inj hn
        show n < e.nextUuid + 1
        omega
    · intro c hc
      rcases mem_concat.mp hc with hc | rfl
      · exact hstays c (h.dispatched c hc)
      · exact ⟨attempt, ha, rfl, htask, rfl, rfl⟩
  | polled ps hps =>
    refine ⟨h.tokens, h.old, h.dispatched, ?_, hmanual⟩
    intro p hp
    rcases List.mem_append.mp hp with hp | hp
    · exact h.polled p hp
    · exact hps p hp
  | manualRead t ht htype hs =>
    refine ⟨h.tokens, h.old, h.dispatched, h.polled, ?_⟩
    intro r hr
    rcases mem_concat.mp hr with hr | rfl
    · exact hmanual r hr
    · refine ⟨t, ht, rfl, Nat.le_refl _, fun _ => hs, .inr ⟨htype, ?_⟩⟩
      rintro (h₁ | h₁)
      · rw [hs] at h₁; cases h₁
      · rw [hs] at h₁; cases h₁
  | tasks | attempts | artifacts | touch | drop | workflow | clock | ids =>
    exact ⟨h.tokens, hold, fun c hc => hstays c (h.dispatched c hc),
      fun p hp => hpolled p (h.polled p hp), hmanual⟩

end Carried

section Linked

variable {e e' : Engine}

theorem linked_rowAct (hk : Keyed e) (hled : Ledger e) (h : Linked e) (hact : RowAct e e') :
    Linked e' := by
  obtain ⟨g, hrows, hg⟩ := hact.rows hk.ids
  have hstill : ∀ id, (∃ t ∈ e.db.tasks, t.id = id) → ∃ t ∈ e'.db.tasks, t.id = id :=
    fun _ hid => exists_rows hrows hg hid
  have hdeps : ∀ d ∈ e.db.deps, (∃ t ∈ e'.db.tasks, t.id = d.taskId) ∧
      ∃ t ∈ e'.db.tasks, t.id = d.dependsOnTaskId :=
    fun d hd => ⟨hstill _ (h.deps d hd).1, hstill _ (h.deps d hd).2⟩
  have happ : ∀ a ∈ e.db.approvals, ∃ t ∈ e'.db.tasks, t.id = a.taskId :=
    fun a ha => hstill _ (h.approvals a ha)
  have hart : ∀ r ∈ e.db.artifacts, ∃ t ∈ e'.db.tasks, t.id = r.taskId :=
    fun r hr => hstill _ (h.artifacts r hr)
  cases hact with
  | artifacts rows hnew hkept =>
    refine ⟨hdeps, happ, h.approval_ids, ?_⟩
    intro r hr
    rcases hnew r hr with hr | ⟨a, ha, hid⟩
    · exact hart r hr
    · obtain ⟨t, ht, htid⟩ := hled.task a ha
      exact ⟨t, ht, htid.trans hid⟩
  | tasks | attempts | launch | takeOver | touch | drop | workflow | clock | ids | polled
  | manualRead => exact ⟨hdeps, happ, h.approval_ids, hart⟩

private theorem not_live_draft {s : WorkflowStatus} (hs : s = .draft) : ¬ Live s := by
  rintro (h | h)
  · rw [hs] at h; cases h
  · rw [hs] at h; cases h

private theorem untouched_tasks {p : TaskRow → Bool} {f : TaskRow → TaskRow}
    (hs : e.db.workflow.status = .draft) (h : Untouched e)
    (hf : ∀ t ∈ e.db.tasks, p t = true → Advance e t (f t)) : Untouched (e.updateTasks p f) := by
  refine ⟨?_, h.attempts, h.artifacts⟩
  intro t' ht'
  obtain ⟨t, ht, rfl⟩ := mem_updateWhere.mp ht'
  have hidle := h.idle t ht
  by_cases hp : p t = true
  · rw [if_pos hp]
    rcases (hf t ht hp).move with h₁ | ⟨_, _, _, h₁⟩ | ⟨h₁, _⟩ | ⟨_, _, _, _, h₁⟩
    · exact h₁.trans hidle
    · rcases h₁ with h₁ | h₁
      · rw [hidle] at h₁; cases h₁
      · exact absurd h₁ (not_live_draft hs)
    · rw [hidle] at h₁; cases h₁
    · exact absurd h₁ (not_live_draft hs)
  · rw [if_neg hp]
    exact hidle

theorem untouched_rowAct (h : e.db.workflow.status = .draft → Untouched e)
    (hact : RowAct e e') : e'.db.workflow.status = .draft → Untouched e' := by
  intro hs
  cases hact with
  | tasks p f hf => exact untouched_tasks hs (h hs) hf
  | attempts p f hf =>
    refine ⟨(h hs).idle, ?_, (h hs).artifacts⟩
    show updateWhere p f e.db.attempts = []
    rw [(h hs).attempts]
    rfl
  | artifacts rows hnew hkept =>
    refine ⟨(h hs).idle, (h hs).attempts, List.eq_nil_iff_forall_not_mem.mpr ?_⟩
    intro r hr
    rcases hnew r hr with hr | ⟨a, ha, _⟩
    · rw [(h hs).artifacts] at hr
      cases hr
    · rw [(h hs).attempts] at ha
      cases ha
  | launch t f ht hf hl => exact absurd hl (not_live_draft hs)
  | workflow w hid hmove hopen hdraft hversion =>
    have hd := h (hdraft hs)
    exact ⟨hd.idle, hd.attempts, hd.artifacts⟩
  | takeOver | touch | drop | clock | ids | polled | manualRead =>
    exact ⟨(h hs).idle, (h hs).attempts, (h hs).artifacts⟩

end Linked

/-! ## The invariant -/

theorem shut_rowAct {e e' : Engine}
    (h : isTerminalWorkflowStatus e.db.workflow.status = true → e.db.leases = [])
    (hact : RowAct e e') :
    isTerminalWorkflowStatus e'.db.workflow.status = true → e'.db.leases = [] := by
  intro hs
  cases hact with
  | launch t f ht hf hl =>
    have hopen : isTerminalWorkflowStatus e.db.workflow.status = false := by
      rcases hl with hl | hl <;> rw [hl] <;> rfl
    have hs' : isTerminalWorkflowStatus e.db.workflow.status = true := hs
    rw [hopen] at hs'
    cases hs'
  | takeOver lease attempt hl ha hid htask hexp =>
    rw [h hs] at hl
    cases hl
  | touch p f hf =>
    show updateWhere p f e.db.leases = []
    rw [h hs]
    rfl
  | drop p =>
    show e.db.leases.filter (fun l => !p l) = []
    rw [h hs]
    rfl
  | workflow w hid hmove hopen hdraft hversion => exact h (hopen.symm.trans hs)
  | tasks | attempts | artifacts | clock | ids | polled | manualRead => exact h hs

theorem Inv.rowAct {e e' : Engine} (h : Inv e) (hact : RowAct e e') : Inv e' where
  keyed := keyed_rowAct h.keyed hact
  ledger := ledger_rowAct h.keyed h.ledger hact
  leased := leased_rowAct h.keyed h.leased hact
  carried := carried_rowAct h.keyed h.carried hact
  linked := linked_rowAct h.keyed h.ledger h.linked hact
  draft := untouched_rowAct h.draft hact
  shut := shut_rowAct h.shut hact

section Act

variable {e e' : Engine}

variable (h : Inv e)

include h

/-- Edges, approvals and the log of solicitations touch the foreign keys alone. -/
theorem inv_relinked (hdb : e'.db =
      { e.db with deps := e'.db.deps, approvals := e'.db.approvals })
    (hn : e'.nextUuid = e.nextUuid) (hd : e'.dispatched = e.dispatched)
    (hp : e'.polled = e.polled) (hm : e'.manualReads = e.manualReads) (hl : Linked e') :
    Inv e' := by
  have ht : e'.db.tasks = e.db.tasks := by rw [hdb]
  have ha : e'.db.attempts = e.db.attempts := by rw [hdb]
  have hle : e'.db.leases = e.db.leases := by rw [hdb]
  have hw : e'.db.workflow = e.db.workflow := by rw [hdb]
  have har : e'.db.artifacts = e.db.artifacts := by rw [hdb]
  have hold : ∀ id, Old e id → Old e' id := fun id h n hn' => by rw [hn]; exact h n hn'
  refine ⟨⟨?_, ?_, ?_⟩, ledger_congr h.ledger ht ha (by rw [hw]) (Nat.le_of_eq hn.symm),
    leased_congr h.leased ht ha hle hd, ⟨?_, ?_, ?_, ?_, ?_⟩, hl, ?_, by rw [hw, hle]; exact h.shut⟩
  · rw [ht]; exact h.keyed.ids
  · rw [ht]; exact h.keyed.keys
  · rw [ht]; exact fun t htm => hold _ (h.keyed.old t htm)
  · rw [hd]; exact h.carried.tokens
  · rw [hd]; exact fun c hc => hold _ (h.carried.old c hc)
  · rw [hd, ha]; exact h.carried.dispatched
  · rw [hp, ha]; exact h.carried.polled
  · rw [hm, ht]
    intro r hr
    obtain ⟨t, htm, h₁, h₂, h₃, h₄⟩ := h.carried.manual r hr
    refine ⟨t, htm, h₁, h₂, h₃, ?_⟩
    rw [Attempted, ha]
    exact h₄
  · rw [hw]
    intro hs
    have hu := h.draft hs
    constructor
    · rw [ht]; exact hu.idle
    · rw [ha]; exact hu.attempts
    · rw [har]; exact hu.artifacts

theorem unattempted_of_fresh {id : RowId} (hid : ∀ r ∈ e.db.tasks, r.id ≠ id) :
    ¬ Attempted e id := by
  rintro ⟨a, ha, haid⟩
  obtain ⟨t, ht, htid⟩ := h.ledger.task a ha
  exact hid t ht (htid.trans haid)

theorem lease_attempted {l : LeaseRow} (hl : l ∈ e.db.leases) : Attempted e l.taskId := by
  obtain ⟨c, hc, hct, _⟩ := h.leased.backed l hl
  obtain ⟨a, ha, _, hat, _⟩ := h.carried.dispatched c hc
  exact ⟨a, ha, hat.trans hct⟩

theorem inv_insertTask {t : TaskRow} (hid : ∀ r ∈ e.db.tasks, r.id ≠ t.id)
    (hkey : ∀ r ∈ e.db.tasks, r.key ≠ t.key) (hold : Old e t.id) (hidle : t.status = .idle)
    (fannedOut : List FanOut) :
    Inv { e with db := { e.db with tasks := e.db.tasks ++ [t] }, fannedOut := fannedOut } := by
  have hnone := unattempted_of_fresh h hid
  have hcases : ∀ r ∈ e.db.tasks ++ [t], r ∈ e.db.tasks ∨ r = t := fun _ => mem_concat.mp
  have hstill : ∀ id, (∃ r ∈ e.db.tasks, r.id = id) → ∃ r ∈ e.db.tasks ++ [t], r.id = id := by
    rintro id ⟨r, hr, h₁⟩
    exact ⟨r, List.mem_append_left _ hr, h₁⟩
  refine ⟨⟨?_, ?_, ?_⟩, ⟨h.ledger.ids, h.ledger.old, h.ledger.numbered, h.ledger.keyed,
    h.ledger.highest, ?_, ?_, ?_⟩, ⟨h.leased.one, ?_, h.leased.running, h.leased.backed⟩,
    ⟨h.carried.tokens, h.carried.old, h.carried.dispatched, h.carried.polled, ?_⟩,
    ⟨?_, ?_, h.linked.approval_ids, ?_⟩, ?_, h.shut⟩
  · exact nodup_concat h.keyed.ids hid
  · exact nodup_concat h.keyed.keys hkey
  · intro r hr
    rcases hcases r hr with hr | rfl
    · exact h.keyed.old r hr
    · exact hold
  · intro r hr hw a ha haid
    rcases hcases r hr with hr | rfl
    · exact h.ledger.waiting r hr hw a ha haid
    · exact absurd ⟨a, ha, haid⟩ hnone
  · intro r hr hs
    rcases hcases r hr with hr | rfl
    · exact h.ledger.untouched r hr hs
    · exact hnone
  · intro a ha
    exact hstill _ (h.ledger.task a ha)
  · intro l hl r hr hrid
    rcases hcases r hr with hr | rfl
    · exact h.leased.held l hl r hr hrid
    · exact absurd (hrid ▸ lease_attempted h hl) hnone
  · intro r hr
    obtain ⟨s, hs, h₁⟩ := h.carried.manual r hr
    exact ⟨s, List.mem_append_left _ hs, h₁⟩
  · intro d hd
    exact ⟨hstill _ (h.linked.deps d hd).1, hstill _ (h.linked.deps d hd).2⟩
  · intro a ha
    exact hstill _ (h.linked.approvals a ha)
  · intro r hr
    exact hstill _ (h.linked.artifacts r hr)
  · intro hs
    have hu := h.draft hs
    refine ⟨?_, hu.attempts, hu.artifacts⟩
    intro r hr
    rcases hcases r hr with hr | rfl
    · exact hu.idle r hr
    · exact hidle

theorem inv_insertDependency {d : DependencyRow}
    (hd : ∃ t ∈ e.db.tasks, t.id = d.taskId) (hu : ∃ t ∈ e.db.tasks, t.id = d.dependsOnTaskId) :
    Inv { e with db := { e.db with deps := e.db.deps ++ [d] } } := by
  refine inv_relinked h rfl rfl rfl rfl rfl
    ⟨?_, h.linked.approvals, h.linked.approval_ids, h.linked.artifacts⟩
  intro r hr
  rcases mem_concat.mp hr with hr | rfl
  · exact h.linked.deps r hr
  · exact ⟨hd, hu⟩

theorem inv_insertApproval {a : ApprovalRow}
    (hid : ∀ r ∈ e.db.approvals, r.id ≠ a.id) (ht : ∃ t ∈ e.db.tasks, t.id = a.taskId) :
    Inv { e with db := { e.db with approvals := e.db.approvals ++ [a] } } := by
  refine inv_relinked h rfl rfl rfl rfl rfl
    ⟨h.linked.deps, ?_, ?_, h.linked.artifacts⟩
  · intro r hr
    rcases mem_concat.mp hr with hr | rfl
    · exact h.linked.approvals r hr
    · exact ht
  · exact nodup_concat h.linked.approval_ids hid

private theorem inv_approvals {p : ApprovalRow → Bool} {f : ApprovalRow → ApprovalRow}
    (hf : ∀ a, SameApproval a (f a)) : Inv (e.updateApprovals p f) := by
  refine inv_relinked h rfl rfl rfl rfl rfl ⟨h.linked.deps, ?_, ?_, h.linked.artifacts⟩
  · intro a' ha'
    obtain ⟨a, ha, rfl⟩ := mem_updateWhere.mp ha'
    by_cases hp : p a = true
    · rw [if_pos hp, (hf a).taskId]
      exact h.linked.approvals a ha
    · rw [if_neg hp]
      exact h.linked.approvals a ha
  · show ((updateWhere p f e.db.approvals).map ApprovalRow.id).Nodup
    rw [map_updateWhere _ _ (fun a => (hf a).id)]
    exact h.linked.approval_ids

/-- **Every act keeps the invariant.** -/
theorem Inv.act (hact : Act e e') : Inv e' := by
  cases hact with
  | row hrow => exact h.rowAct hrow
  | approvals p f hf => exact inv_approvals h hf
  | solicited s =>
    exact inv_relinked h rfl rfl rfl rfl rfl
      ⟨h.linked.deps, h.linked.approvals, h.linked.approval_ids, h.linked.artifacts⟩
  | child t f hfresh hl =>
    exact inv_insertTask h hfresh.id hfresh.key hfresh.old hfresh.idle _
  | dependency d hd hu => exact inv_insertDependency h hd hu
  | approval a hid ht => exact inv_insertApproval h hid ht

theorem Inv.path (hpath : Path e e') : Inv e' :=
  Machine.gen_preserves (fun (a b : Engine) (hact : Act a b) (hinv : Inv a) => hinv.act hact)
    hpath h

end Act

section Consequences

variable {e : Engine} {a : AttemptRow}

theorem Inv.running_unique (h : Inv e) {b : AttemptRow} (ha : a ∈ e.db.attempts)
    (hb : b ∈ e.db.attempts) (hid : a.taskId = b.taskId) (hra : a.status = .running)
    (hrb : b.status = .running) : a = b := by
  have hnd : ((e.db.attempts.filter (fun r => r.taskId = b.taskId)).map
      AttemptRow.attemptNo).Nodup := by
    have := h.ledger.numbered b.taskId
    rw [attemptNumbers] at this
    rw [this]
    exact List.nodup_range'
  have hno : a.attemptNo = b.attemptNo := by
    rw [h.ledger.highest a ha hra, h.ledger.highest b hb hrb, hid]
  exact eq_of_key hnd (List.mem_filter.mpr ⟨ha, by simpa using hid⟩)
    (List.mem_filter.mpr ⟨hb, by simp⟩) hno

variable {l : LeaseRow}

theorem Inv.lease_attempt (h : Inv e) (hl : l ∈ e.db.leases) :
    ∃ a ∈ e.db.attempts, a.id = l.attemptId ∧ a.taskId = l.taskId ∧ a.status = .running ∧
      a.childRunId = none := by
  obtain ⟨a, ha, haid, hrun, hchild⟩ := h.leased.running l hl
  obtain ⟨c, hc, hct, hca, _⟩ := h.leased.backed l hl
  obtain ⟨b, hb, hbid, hbt, _⟩ := h.carried.dispatched c hc
  have hab : a = b := eq_of_key h.ledger.ids ha hb (haid.trans (hca.symm.trans hbid.symm))
  exact ⟨a, ha, haid, hab ▸ hbt.trans hct, hrun, hchild⟩

theorem Inv.lease_of_running (h : Inv e) (hl : l ∈ e.db.leases)
    (ha : a ∈ e.db.attempts) (hrun : a.status = .running) (hid : l.taskId = a.taskId) :
    l.attemptId = a.id ∧ a.childRunId = none := by
  obtain ⟨b, hb, hbid, hbt, hbrun, hchild⟩ := h.lease_attempt hl
  have hab : a = b := h.running_unique ha hb (hid.symm.trans hbt.symm) hrun hbrun
  exact ⟨hbid.symm.trans (congrArg AttemptRow.id hab.symm), hab ▸ hchild⟩

theorem Inv.lease_taskId (h : Inv e) (hl : l ∈ e.db.leases)
    (ha : a ∈ e.db.attempts) (hid : l.attemptId = a.id) : l.taskId = a.taskId := by
  obtain ⟨b, hb, hbid, hbt, _⟩ := h.lease_attempt hl
  have hab : a = b := eq_of_key h.ledger.ids ha hb (hid.symm.trans hbid.symm)
  rw [hab]
  exact hbt.symm

end Consequences

end WfInvariant
