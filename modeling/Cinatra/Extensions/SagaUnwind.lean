import Cinatra.Extensions.SagaProgress

/-! # SagaUnwind — the catch block of an update

    The template the attempt created is deleted, the dashboards are archived once
    their region was entered, the attempt's own op is closed, and the captured
    source and edges are recorded again.  Each step is best-effort: another throw
    is remembered and the next step is made. -/

namespace ExtSagaUnwind

open Process RowTable ExtCanonical ExtInstallOps ExtWorkflowSaga ExtSagaWorld ExtSagaProgress

variable {host : SagaHost} {served : Served} {start w w' : World} {a : Attempt}
  {prior : InstallOp} {requestedVersion : String} {n m : Nat} {created : Option Nat}

/-! ## The catch block -/

/-- What is known of the tables one by one. -/
structure Tables (start : World) (a : Attempt) (grant : Option HostPortGrant)
    (R : Option CanonicalRow → Prop) (T : List WorkflowTemplate → Prop)
    (D : List Dashboard → Prop) (w : World) : Prop where
  grant : w.grants a.scope = grant
  row : R (w.rows a.scope)
  templates : T w.templates
  dashboards : D w.dashboards
  inUse : w.inUse = start.inUse

/-- The step threw first; unless another did since, `K` holds. -/
structure Unwinding (prior : InstallOp) (c : Call) (K : World → Prop) (w : World) : Prop where
  anchor : prior ∈ w.journal.rows
  thrown : ∃ more, w.thrown = c :: more ∧ (more = [] → K w)

variable {c : Call} {grant : Option HostPortGrant} {R R' : Option CanonicalRow → Prop}
  {T T' : List WorkflowTemplate → Prop} {D D' : List Dashboard → Prop} {K K' : World → Prop}

theorem Unwinding.mono (h : Unwinding prior c K w) (hK : K w → K' w) : Unwinding prior c K' w := by
  obtain ⟨hanchor, more, hm, hk⟩ := h
  exact ⟨hanchor, more, hm, fun hc => hK (hk hc)⟩

theorem unwind_call {c' : Call} (h : Unwinding prior c (Tables start a grant R T D) w)
    (hanchor : ∀ w₁ x, prior ∈ w₁.journal.rows → (serve host served w₁ c').1 = .ok x →
      prior ∈ (serve host served w₁ c').2.journal.rows)
    (heff : ∀ w₁ x, Tables start a grant R T D w₁ → (serve host served w₁ c').1 = .ok x →
      K (serve host served w₁ c').2) :
    Ends host served (perform c') (fun _ => Unwinding prior c K) w := by
  obtain ⟨hprior, more, hm, hk⟩ := h
  refine call_spec ?_ ?_
  · intro err e
    refine ⟨hprior, more ++ [c'], ?_, fun hc => absurd hc (by simp)⟩
    show w.thrown ++ [c'] = _
    rw [hm]
    rfl
  · intro e x hx
    refine ⟨hanchor _ x hprior hx, more, ?_, ?_⟩
    · rw [serve_thrown]
      exact hm
    · intro hc
      obtain ⟨hg, hr, ht, hd, hu⟩ := hk hc
      exact heff _ x ⟨hg, hr, ht, hd, hu⟩ hx

variable {E : SagaError → World → Prop} {α : Type}

theorem swallowed {p : P α} (h : Ends host served p (fun _ => Unwinding prior c K) w) :
    Ends host served (swallow p) (Post (fun _ => Unwinding prior c K) E) w :=
  Spec.swallow (Spec.mono h (fun _ _ hw => hw))

/-- The dashboards once the region of their writes was entered and is undone. -/
def DashboardsBack (start : World) (a : Attempt) (entered : Bool) (ds : List Dashboard) : Prop :=
  if entered = true then
    ∀ d ∈ ds, ofExtension a.packageName a.orgId d = true → d.status = .archived
  else ds = start.dashboards

/-- No template the attempt created. -/
def TemplatesBack (start : World) (ts : List WorkflowTemplate) : Prop :=
  ∀ t ∈ ts, t.id ∈ start.templates.map WorkflowTemplate.id

theorem setStatus_archived (ds : List Dashboard) :
    ∀ d ∈ setStatus a.packageName a.orgId .archived ds,
      ofExtension a.packageName a.orgId d = true → d.status = .archived := by
  intro d hd ho
  obtain ⟨d₀, -, rfl⟩ := mem_updateWhere.mp hd
  by_cases h₀ : ofExtension a.packageName a.orgId d₀ = true
  · rw [if_pos h₀]
  · rw [if_neg h₀] at ho
    exact absurd ho h₀

variable {ts : List WorkflowTemplate}

theorem templatesBack_of_none (h : TemplatesWith start none ts) : TemplatesBack start ts := by
  intro t ht
  have hids : ts.map WorkflowTemplate.id = start.templates.map WorkflowTemplate.id := h
  rw [← hids]
  exact List.mem_map_of_mem ht

theorem templatesBack_of_deleted {id : Nat} (h : TemplatesWith start (some id) ts) :
    TemplatesBack start (ts.filter (fun t => t.id ≠ id)) := by
  intro t ht
  obtain ⟨ht, hne⟩ := List.mem_filter.mp ht
  have hin := List.mem_map_of_mem (f := WorkflowTemplate.id) ht
  rw [h.1] at hin
  rcases List.mem_append.mp hin with hin | hin
  · exact hin
  · exact absurd (List.mem_singleton.mp hin) (of_decide_eq_true hne)

variable {entered : Bool}

theorem compensate_spec (h : Unwinding prior c (Tables start a grant R (TemplatesWith start created)
      (fun ds => entered = false → ds = start.dashboards)) w) :
    Ends host served (compensate a created entered)
      (Post (fun _ w' => Unwinding prior c (Tables start a grant R (TemplatesBack start)
        (DashboardsBack start a entered)) w') E) w := by
  refine Spec.post_bind (M := fun _ w' => Unwinding prior c (Tables start a grant R
    (TemplatesWith start created) (DashboardsBack start a entered)) w') ?_ ?_
  · refine Spec.onlyIf ?_ ?_
    · rintro rfl
      refine swallowed (unwind_call h (fun _ _ hp _ => hp) ?_)
      intro w₁ _ h₁ _
      exact ⟨h₁.grant, h₁.row, h₁.templates, setStatus_archived _, h₁.inUse⟩
    · rintro rfl
      refine h.mono (fun h => ⟨h.grant, h.row, h.templates, h.dashboards rfl, h.inUse⟩)
  intro _ w₁ h₁
  cases created with
  | none =>
    exact h₁.mono (fun h => ⟨h.grant, h.row, templatesBack_of_none h.templates, h.dashboards,
      h.inUse⟩)
  | some id =>
    refine swallowed (unwind_call h₁ ?_ ?_)
    · intro w₂ _ hp _
      show prior ∈ (removeTemplate w₂ id).2.journal.rows
      rw [removeTemplate]
      split <;> exact hp
    · intro w₂ _ h₂ _
      have hnot : ¬ w₂.inUse.contains id = true := by
        rw [h₂.inUse, List.contains_iff_mem]
        exact h₂.templates.2
      show Tables start a grant R (TemplatesBack start) (DashboardsBack start a entered)
        (removeTemplate w₂ id).2
      rw [removeTemplate, if_neg hnot]
      exact ⟨h₂.grant, h₂.row, templatesBack_of_deleted h₂.templates, h₂.dashboards, h₂.inUse⟩

variable {opId : String}

theorem closeOp_spec
    (hid : prior.installOpId ≠ opId) (h : Unwinding prior c (Tables start a grant R T D) w) :
    Ends host served (swallow (do
        perform <| Call.failInstallOp opId
        perform <| Call.advanceInstallOpPhase opId .rolledBack))
      (Post (fun _ => Unwinding prior c (Tables start a grant R T D)) E) w := by
  have hstatement : ∀ (w₁ : World) (r : Except JournalError Journal) x,
      Tables start a grant R T D w₁ → (w₁.statement r).1 = .ok x →
      Tables start a grant R T D (w₁.statement r).2 := by
    intro w₁ r x h₁ hx
    cases r with
    | ok j => exact ⟨h₁.grant, h₁.row, h₁.templates, h₁.dashboards, h₁.inUse⟩
    | error err => cases hx
  have hanchor : ∀ (w₁ : World) phase x, prior ∈ w₁.journal.rows →
      (w₁.statement (advanceInstallOpPhase w₁.clock opId phase none w₁.journal)).1 = .ok x →
      prior ∈ (w₁.statement
        (advanceInstallOpPhase w₁.clock opId phase none w₁.journal)).2.journal.rows := by
    intro w₁ phase x hp hx
    cases hj : advanceInstallOpPhase w₁.clock opId phase none w₁.journal with
    | ok j => exact advance_keeps hid hp hj
    | error err =>
      rw [hj] at hx
      cases hx
  refine swallowed (Spec.bind (Spec.mono (unwind_call h (fun w₁ x => hanchor w₁ .failed x)
    (fun w₁ x h₁ => hstatement w₁ _ x h₁)) ?_))
  intro r w₁ h₁
  cases r with
  | error err => exact h₁
  | ok _ =>
    exact unwind_call h₁ (fun w₁ x => hanchor w₁ .rolledBack x)
      (fun w₁ x h₁ => hstatement w₁ _ x h₁)

theorem restoring_spec {step : RestoreStep}
    (h : Ends host served p (fun _ => Unwinding prior c (Tables start a grant R T D)) w) :
    Ends host served (restoring a step p)
      (Post (fun _ => Unwinding prior c (Tables start a grant R T D)) E) w := by
  refine Spec.bind (Spec.attempt (Spec.mono h ?_))
  intro r w₁ h₁
  cases r with
  | ok _ => exact h₁
  | error err => exact swallowed (unwind_call h₁ (fun _ _ hp _ => hp) (fun _ _ h _ => h))

/-- The source of a live row after a restore: the captured one recorded again, or
    what the attempt had made of it. -/
def SourceBack (a : Attempt) (n : Nat) (row row' : CanonicalRow) : Prop :=
  (∀ p, currentSource row = some p → row'.source = recordedSource p.recorded a.packageName) ∧
    (currentSource row = none → if 13 < n then ∃ p, row'.source = recordedSource p a.packageName
      else row'.source = row.source)

/-- The live row after a restore. -/
def RowBack (start : World) (a : Attempt) (n : Nat) (r : Option CanonicalRow) : Prop :=
  (start.rows a.scope = none → r = none) ∧
    ∀ row, start.rows a.scope = some row → ∃ row', r = some row' ∧
      row'.dependencies = row.dependencies ∧ SourceBack a n row row'

/-- What the capture of an update holds. -/
def captured (start : World) (a : Attempt) : Captured :=
  ⟨true, (start.rows a.scope).bind currentSource,
    (start.rows a.scope).map CanonicalRow.dependencies⟩

/-- The row as far as the source is restored. -/
def SourceRestored (a : Attempt) (n : Nat) (row : CanonicalRow) (r : Option CanonicalRow) : Prop :=
  ∃ row', r = some row' ∧ SourceBack a n row row'

variable {row : CanonicalRow}

theorem recordPrior_spec {p : Provenance} (hp : currentSource row = some p)
    (h : Unwinding prior c (Tables start a grant R T D) w) :
    Ends host served (restoring a .provenance (perform <| Call.recordProvenance a.scope p.recorded))
      (Post (fun _ w' => Unwinding prior c (Tables start a grant (SourceRestored a n row) T D) w') E)
      w := by
  refine restoring_spec (unwind_call h ?_ ?_)
  · intro w₁ x hprior hx
    obtain ⟨_, _, _, _, hw⟩ := setRow_ok hx
    show prior ∈ (w₁.setRow _ _ _).2.journal.rows
    rw [hw]
    exact hprior
  · intro w₁ x h₁ hx
    obtain ⟨row₁, row', _, hs, hw⟩ := setRow_ok hx
    show Tables start a grant (SourceRestored a n row) T D (w₁.setRow _ _ _).2
    rw [hw]
    refine ⟨h₁.grant, ⟨row', ?_, ?_, ?_⟩, h₁.templates, h₁.dashboards, h₁.inUse⟩
    · exact Function.update_self ..
    · intro q hq
      obtain rfl := Option.some.inj (hp.symm.trans hq)
      exact (switchSource_ok hs).2.1
    · intro hnone
      rw [hp] at hnone
      cases hnone

theorem persistPrior_spec (hrow : start.rows a.scope = some row)
    (h : Unwinding prior c (Tables start a grant (SourceRestored a n row) T D) w) : Ends host served
      (restoring a .dependencies (perform <| Call.persistDependencyEdges a.scope row.dependencies))
      (Post (fun _ w' => Unwinding prior c (Tables start a grant (RowBack start a n) T D) w') E) w := by
  refine restoring_spec (unwind_call h ?_ ?_)
  · intro w₁ x hprior hx
    obtain ⟨_, _, _, _, hw⟩ := setRow_ok hx
    show prior ∈ (w₁.setRow _ _ _).2.journal.rows
    rw [hw]
    exact hprior
  · intro w₁ x h₁ hx
    obtain ⟨row₁, hrow₁, hback⟩ := h₁.row
    obtain ⟨row₂, row', hrow₂, hs, hw⟩ := setRow_ok hx
    obtain rfl : row₁ = row₂ := Option.some.inj (hrow₁.symm.trans hrow₂)
    obtain ⟨-, hsource, hdeps⟩ := switchDependencies_ok hs
    show Tables start a grant (RowBack start a n) T D (w₁.setRow _ _ _).2
    rw [hw]
    refine ⟨h₁.grant, ⟨?_, ?_⟩, h₁.templates, h₁.dashboards, h₁.inUse⟩
    · intro hnone
      rw [hrow] at hnone
      cases hnone
    · intro row₀ hrow₀
      obtain rfl : row = row₀ := Option.some.inj (hrow.symm.trans hrow₀)
      refine ⟨row', Function.update_self .., hdeps, ?_⟩
      rw [SourceBack, hsource]
      exact hback

theorem restorePrior_spec (h : Unwinding prior c (Tables start a grant (RowAt start a n) T D) w) :
    Ends host served (restorePrior a (captured start a))
      (Post (fun _ w' => Unwinding prior c (Tables start a grant (RowBack start a n) T D) w') E)
      w := by
  rw [restorePrior, captured]
  cases hrow : start.rows a.scope with
  | none =>
    refine h.mono (fun h => ⟨h.grant, ⟨fun _ => ?_, ?_⟩, h.templates, h.dashboards, h.inUse⟩)
    · have hat := h.row
      rw [RowAt] at hat
      split at hat
      · obtain ⟨_, _, _, hstart, -⟩ := hat
        rw [hrow] at hstart
        cases hstart
      · rw [hat, hrow]
    · intro row hc
      rw [hrow] at hc
      cases hc
  | some row =>
    refine Spec.post_bind (M := fun _ w' =>
      Unwinding prior c (Tables start a grant (SourceRestored a n row) T D) w') ?_
      (fun _ w h => persistPrior_spec hrow h)
    show Spec _ _ (ifSome (currentSource row) _) _ w
    cases hp : currentSource row with
    | some p => exact recordPrior_spec hp h
    | none =>
      refine h.mono (fun h => ⟨h.grant, ?_, h.templates, h.dashboards, h.inUse⟩)
      have hat := h.row
      rw [RowAt] at hat
      split at hat
      · next hn =>
          obtain ⟨row₀, row', q, hstart, hr, -, hsource⟩ := hat
          refine ⟨row', hr, ?_, ?_⟩
          · intro p hc
            rw [hp] at hc
            cases hc
          · intro _
            rw [if_pos hn]
            exact ⟨q, hsource⟩
      · next hn =>
          refine ⟨row, hat.trans hrow, ?_, ?_⟩
          · intro p hc
            rw [hp] at hc
            cases hc
          · intro _
            rw [if_neg hn]

/-- What an update that failed in the `try` block leaves behind. -/
def Failed (host : SagaHost) (served : Served) (start : World) (a : Attempt)
    (requestedVersion : String) (prior : InstallOp) (w : World) : Prop :=
  ∃ c, 0 < stage c ∧ Unwinding prior c
    (Tables start a (grantAt host served start a requestedVersion (stage c))
      (RowBack start a (stage c)) (TemplatesBack start)
      (DashboardsBack start a (enteredAt served (stage c)))) w

theorem unwind_spec {err : SagaError} {M : α → World → Prop} (hid : prior.installOpId ≠ opId)
    (h : Stopped host served start a requestedVersion prior created entered w) :
    Ends host served (unwind a opId (captured start a) created entered err)
      (Post M (fun _ => Failed host served start a requestedVersion prior)) w := by
  obtain ⟨c, hc, he, hthrown, hp⟩ := h
  subst he
  have hstart : Unwinding prior c (Tables start a
      (grantAt host served start a requestedVersion (stage c)) (RowAt start a (stage c))
      (TemplatesWith start created)
      (fun ds => enteredAt served (stage c) = false → ds = start.dashboards)) w :=
    ⟨hp.anchor, [], hthrown, fun _ => ⟨hp.grant, hp.row, hp.templates, hp.dashboards, hp.inUse⟩⟩
  refine Spec.post_bind (compensate_spec hstart) ?_
  intro _ w₁ h₁
  refine Spec.post_bind (closeOp_spec hid h₁) ?_
  intro _ w₂ h₂
  refine Spec.post_bind (restorePrior_spec h₂) ?_
  intro _ w₃ h₃
  exact ⟨c, hc, h₃⟩

end ExtSagaUnwind
