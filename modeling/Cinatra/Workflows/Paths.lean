import Cinatra.Workflows.Invariant

/-! # Paths — what a sequence of acts keeps

    A locked operation reads its rows once and writes them later, so a row it
    holds is either still the row of the table or the table's has moved on, with a
    greater version (`Loaded`).  A compare-and-set on the version a row was read
    at therefore writes the row that was read (`Loaded.cas`), which is what makes
    the guards established on the rows read hold of the rows written. -/

namespace WfPaths

open RowTable WfTransitions WfSpec WfRows WfState WfActs WfInvariant

variable {e e' cur : Engine}

/-- A later row of the same task. -/
structure Follows (t t' : TaskRow) : Prop where
  id : t'.id = t.id
  definition : definition t' = definition t
  version : t' = t ∨ t.lockVersion < t'.lockVersion
  terminal : isTerminalTaskStatus t.status = true → t'.status = t.status

theorem Follows.refl (t : TaskRow) : Follows t t := ⟨rfl, rfl, .inl rfl, fun _ => rfl⟩

theorem Follows.trans {t t' t'' : TaskRow} (h : Follows t t') (h' : Follows t' t'') :
    Follows t t'' := by
  refine ⟨h'.id.trans h.id, h'.definition.trans h.definition, ?_, ?_⟩
  · rcases h.version with rfl | hlt
    · exact h'.version
    · rcases h'.version with rfl | hlt'
      · exact .inr hlt
      · exact .inr (Nat.lt_trans hlt hlt')
  · intro ht
    have h₁ := h.terminal ht
    rw [← h₁] at ht
    exact (h'.terminal ht).trans h₁

theorem follows_of_became {t t' : TaskRow} (h : Became e t t') : Follows t t' :=
  ⟨h.id, h.definition, h.version, h.terminal⟩

/-- An act maps the task rows it finds and may add fresh ones. -/
theorem Act.rows (hk : Keyed e) (h : Act e e') :
    ∃ (g : TaskRow → TaskRow) (new : List TaskRow), e'.db.tasks = e.db.tasks.map g ++ new ∧
      (∀ t ∈ e.db.tasks, Became e t (g t)) ∧ ∀ t ∈ new, Fresh e t := by
  have hsame : e.db.tasks = e.db.tasks.map (fun t => t) ++ [] := by
    rw [List.map_id', List.append_nil]
  cases h with
  | row hrow =>
    obtain ⟨g, hrows, hg⟩ := hrow.rows hk.ids
    exact ⟨g, [], by rw [hrows, List.append_nil], hg, fun t ht => absurd ht List.not_mem_nil⟩
  | child t f hfresh hl =>
    refine ⟨fun t => t, [t], by rw [List.map_id'], fun _ _ => .inl rfl, ?_⟩
    intro r hr
    rw [List.mem_singleton.mp hr]
    exact hfresh
  | approvals | solicited | dependency | approval =>
    exact ⟨_, _, hsame, fun _ _ => .inl rfl, fun t ht => absurd ht List.not_mem_nil⟩

private theorem Act.follows (hk : Keyed e) (h : Act e e') :
    ∀ t ∈ e.db.tasks, ∃ t' ∈ e'.db.tasks, Follows t t' := by
  obtain ⟨g, new, hrows, hg, _⟩ := Act.rows hk h
  intro t ht
  refine ⟨g t, ?_, follows_of_became (hg t ht)⟩
  rw [hrows]
  exact List.mem_append_left _ (List.mem_map_of_mem ht)

theorem Path.follows (hinv : Inv e) (h : Path e e') :
    ∀ t ∈ e.db.tasks, ∃ t' ∈ e'.db.tasks, Follows t t' := by
  induction h with
  | refl => exact fun t ht => ⟨t, ht, Follows.refl t⟩
  | tail hpath hact ih =>
    intro t ht
    obtain ⟨t', ht', hf⟩ := ih t ht
    obtain ⟨t'', ht'', hf'⟩ := Act.follows (hinv.path hpath).keyed hact t' ht'
    exact ⟨t'', ht'', hf.trans hf'⟩

/-! ## The workflow row -/

theorem not_terminal_of_live {s : WorkflowStatus} (h : Live s) :
    isTerminalWorkflowStatus s = false := by
  rcases h with rfl | rfl <;> rfl

private theorem live_of_move {s s' : WorkflowStatus} (h : Live s)
    (hmove : canTransition workflowTransitions s s' = true)
    (hopen : isTerminalWorkflowStatus s' = false) : Live s' := by
  rcases h with rfl | rfl <;> cases s' <;>
    first
      | exact .inl rfl
      | exact .inr rfl
      | exact absurd hopen (by decide)
      | exact absurd hmove (by decide)

/-- An act leaves the workflow row alone, or moves it under a greater version. -/
theorem Act.workflow (h : Act e e') : e'.db.workflow = e.db.workflow ∨
      (e'.db.workflow.id = e.db.workflow.id ∧
        e.db.workflow.lockVersion < e'.db.workflow.lockVersion ∧
        canTransition workflowTransitions e.db.workflow.status e'.db.workflow.status = true ∧
        isTerminalWorkflowStatus e'.db.workflow.status =
          isTerminalWorkflowStatus e.db.workflow.status) := by
  cases h with
  | row hrow =>
    cases hrow with
    | workflow w hid hmove hopen hdraft hversion =>
      exact .inr ⟨hid, hversion, hmove, hopen⟩
    | tasks | attempts | artifacts | launch | takeOver | touch | drop | clock | ids | polled
    | manualRead => exact .inl rfl
  | approvals | solicited | child | dependency | approval => exact .inl rfl

theorem Act.live (h : Act e e') (hl : Live e.db.workflow.status) : Live e'.db.workflow.status := by
  rcases Act.workflow h with heq | ⟨_, _, hmove, hopen⟩
  · rw [heq]
    exact hl
  · exact live_of_move hl hmove (hopen.trans (not_terminal_of_live hl))

theorem Path.live (h : Path e e') (hl : Live e.db.workflow.status) : Live e'.db.workflow.status :=
  Machine.gen_preserves (I := fun e : Engine => Live e.db.workflow.status)
    (fun _ _ hact hl => Act.live hact hl) h hl

theorem Path.workflow_eq (h : Path e e')
    (hv : e'.db.workflow.lockVersion = e.db.workflow.lockVersion) :
    e'.db.workflow = e.db.workflow := by
  have hcases : e'.db.workflow = e.db.workflow ∨
      e.db.workflow.lockVersion < e'.db.workflow.lockVersion := by
    clear hv
    induction h with
    | refl => exact .inl rfl
    | tail _ hact ih =>
      rcases Act.workflow hact with heq | ⟨_, hlt, _⟩
      · rw [heq]
        exact ih
      · rcases ih with heq' | hlt'
        · rw [heq'] at hlt
          exact .inr hlt
        · exact .inr (Nat.lt_trans hlt' hlt)
  rcases hcases with heq | hlt
  · exact heq
  · omega

/-! ## Rows held in memory -/

/-- A row held in memory says what the row of the table does. -/
structure Copy (s t : TaskRow) : Prop where
  status : t.status = s.status
  definition : definition t = definition s
  due : t.dueAtUtc = s.dueAtUtc

/-- The rows held are those of the table, unless the table's have moved on. -/
def Loaded (tasks : List TaskRow) (e : Engine) : Prop :=
  ∀ s ∈ tasks, ∃ t ∈ e.db.tasks, t.id = s.id ∧ s.lockVersion ≤ t.lockVersion ∧
    (t.lockVersion = s.lockVersion → Copy s t)

theorem loaded_self (e : Engine) : Loaded e.db.tasks e :=
  fun s hs => ⟨s, hs, rfl, Nat.le_refl _, fun _ => ⟨rfl, rfl, rfl⟩⟩

variable {tasks : List TaskRow}

theorem Loaded.path (hl : Loaded tasks e) (hinv : Inv e) (h : Path e e') : Loaded tasks e' := by
  intro s hs
  obtain ⟨t, ht, hid, hle, hcopy⟩ := hl s hs
  obtain ⟨t', ht', hf⟩ := Path.follows hinv h t ht
  refine ⟨t', ht', hf.id.trans hid, ?_, ?_⟩
  · rcases hf.version with rfl | hlt
    · exact hle
    · omega
  · intro hv
    rcases hf.version with rfl | hlt
    · exact hcopy hv
    · omega

theorem Loaded.copy (hl : Loaded tasks e) (hk : Keyed e) {s t : TaskRow}
    (hs : s ∈ tasks) (ht : t ∈ e.db.tasks) (hid : t.id = s.id)
    (hv : t.lockVersion = s.lockVersion) : Copy s t := by
  obtain ⟨r, hr, hrid, _, hcopy⟩ := hl s hs
  rw [eq_of_key hk.ids ht hr (hid.trans hrid.symm)] at hv ⊢
  exact hcopy hv

theorem Loaded.cas (hl : Loaded tasks e) (hk : Keyed e) {s : TaskRow}
    (hs : s ∈ tasks) {f : TaskRow → TaskRow}
    (h : ∀ t ∈ e.db.tasks, t.id = s.id → t.lockVersion = s.lockVersion → Copy s t →
      Advance e t (f t)) : RowAct e (e.casTask s.id s.lockVersion f) := by
  refine RowAct.tasks _ _ ?_
  intro t ht hv
  simp only [versionIs, Bool.and_eq_true, decide_eq_true_eq] at hv
  exact h t ht hv.1 hv.2 (hl.copy hk hs ht hv.1 hv.2)

/-- A foreach parent's source is a task. -/
def SourcesKnown (e : Engine) : Prop :=
  ∀ t ∈ e.db.tasks, ∀ fe, t.foreachConfig = some fe → ∃ s ∈ e.db.tasks, s.key = fe.source

theorem Act.sourcesKnown (hk : Keyed e) (h : Act e e') (hs : SourcesKnown e) : SourcesKnown e' := by
  obtain ⟨g, new, hrows, hg, hnew⟩ := Act.rows hk h
  intro t' ht' fe hfe
  rw [hrows] at ht'
  rcases List.mem_append.mp ht' with ht' | ht'
  · obtain ⟨t, ht, rfl⟩ := List.mem_map.mp ht'
    rw [foreachConfig_of_definition (hg t ht).definition] at hfe
    obtain ⟨s, hsm, hkey⟩ := hs t ht fe hfe
    refine ⟨g s, ?_, (key_of_definition (hg s hsm).definition).trans hkey⟩
    rw [hrows]
    exact List.mem_append_left _ (List.mem_map_of_mem hsm)
  · rw [(hnew t' ht').plain] at hfe
    cases hfe

theorem Path.sourcesKnown (hinv : Inv e) (h : Path e e') (hs : SourcesKnown e) :
    SourcesKnown e' := by
  induction h with
  | refl => exact hs
  | tail hpath hact ih => exact Act.sourcesKnown (hinv.path hpath).keyed hact ih

end WfPaths
