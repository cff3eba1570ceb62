import Cinatra.Extensions.SagaWorld

/-! # SagaProgress — how far an update has come

    Before each step of the `try` block the tables are what the steps before it
    have made of them (`Progress`).  A region of the block either goes on or
    stops at a step that threw, with the flags the catch block sees. -/

namespace ExtSagaProgress

open Process RowTable JsonValue ExtCanonical ExtInstallOps ExtWorkflowSaga ExtSagaWorld

/-- The steps of the `try` block, numbered in their order; 0 for all others. -/
def stage : Call → Nat
  | .advanceInstallOpPhase _ .materialized _ => 1
  | .recordRequestedGrant _ _ => 2
  | .approveGrant _ _ _ _ => 3
  | .advanceInstallOpPhase _ .granted _ => 4
  | .preflightFromStore _ _ _ => 5
  | .advanceInstallOpPhase _ .preflighted _ => 6
  | .installWorkflowTemplate _ _ _ _ => 7
  | .advanceInstallOpPhase _ .writing _ => 8
  | .materializeDashboardTemplate _ _ _ _ => 9
  | .listOrgProjectIds _ => 10
  | .materializeInstanceForProject _ _ _ _ => 11
  | .restoreDashboards _ _ _ => 12
  | .recordProvenance _ _ => 13
  | .persistDependencyEdges _ _ => 14
  | .assertForwardInstallClosure _ => 15
  | .finalizeInstallOp _ => 16
  | _ => 0

variable {host : SagaHost} {served : Served} {start w w' : World} {a : Attempt}
  {prior : InstallOp} {requestedVersion : String}

/-- The served package is admitted as `trusted-signed`. -/
def signed (host : SagaHost) (served : Served) (a : Attempt) (requestedVersion : String) : Bool :=
  match checkArtifact host a.packageName requestedVersion served.integrity with
  | .ok artifact => classifyExtensionTrust host artifact.resolved.registryUrl
      artifact.signatureVerified = .trustedSigned
  | .error _ => false

variable {phase : InstallOpPhase} {id : String} {now : Instant}

theorem advance_keeps
    {digest : Option (Option String)} {j j' : Journal} (hid : prior.installOpId ≠ id)
    (hp : prior ∈ j.rows) (h : advanceInstallOpPhase now id phase digest j = .ok j') :
    prior ∈ j'.rows := by
  rw [advanceInstallOpPhase] at h
  split at h
  · rw [commit_ok h]
    refine mem_updateWhere.mpr ⟨prior, hp, ?_⟩
    rw [if_neg]
    intro hc
    exact hid (of_decide_eq_true hc)
  · cases h

theorem begin_keeps {input : BeginInstallOpInput} {j j' : Journal}
    (hid : prior.installOpId ≠ input.installOpId) (hp : prior ∈ j.rows)
    (h : beginInstallOp now input j = .ok j') : prior ∈ j'.rows := by
  rw [beginInstallOp] at h
  split at h
  · cases h
  split at h
  · rw [commit_ok h]
    refine mem_updateWhere.mpr ⟨prior, hp, ?_⟩
    rw [if_neg]
    intro hc
    exact hid (of_decide_eq_true (Bool.and_eq_true_iff.mp hc).1)
  · rw [commit_ok h]
    exact List.mem_append_left _ hp

/-! ## How far the attempt has come -/

/-- The grant after its approval. -/
def approvedGrant (host : SagaHost) (served : Served) (start : World) (a : Attempt) :
    HostPortGrant :=
  { recordRequestedGrant host served.requestedPorts (start.grants a.scope) with
    status := .approved, approvedPorts := normalizePorts served.requestedPorts
    approvedBy := some a.userId }

/-- The grant before step `n`. -/
def grantAt (host : SagaHost) (served : Served) (start : World) (a : Attempt)
    (requestedVersion : String) (n : Nat) : Option HostPortGrant :=
  if 3 < n ∧ signed host served a requestedVersion = true then
    some (approvedGrant host served start a)
  else if 2 < n then some (recordRequestedGrant host served.requestedPorts (start.grants a.scope))
  else start.grants a.scope

/-- The live row before step `n`. -/
def RowAt (start : World) (a : Attempt) (n : Nat) (r : Option CanonicalRow) : Prop :=
  if 13 < n then ∃ row row' p, start.rows a.scope = some row ∧ r = some row' ∧
    row'.packageName = row.packageName ∧ row'.source = recordedSource p a.packageName
  else r = start.rows a.scope

/-- The templates, of which the attempt has created at most one. -/
def TemplatesWith (start : World) (created : Option Nat) (ts : List WorkflowTemplate) : Prop :=
  match created with
  | none => ts.map WorkflowTemplate.id = start.templates.map WorkflowTemplate.id
  | some n => ts.map WorkflowTemplate.id = start.templates.map WorkflowTemplate.id ++ [n] ∧
      n ∉ start.inUse

/-- The dashboards were written before step `n`, or may be. -/
def enteredAt (served : Served) (n : Nat) : Bool :=
  decide (7 < n) && served.preflight.dashboardConfig.isSome

/-- What has come of the tables before step `n`. -/
structure Progress (host : SagaHost) (served : Served) (start : World) (a : Attempt)
    (requestedVersion : String) (prior : InstallOp) (n : Nat) (created : Option Nat) (w : World) :
    Prop where
  anchor : prior ∈ w.journal.rows
  grant : w.grants a.scope = grantAt host served start a requestedVersion n
  row : RowAt start a n (w.rows a.scope)
  templates : TemplatesWith start created w.templates
  inUse : w.inUse = start.inUse
  dashboards : enteredAt served n = false → w.dashboards = start.dashboards

/-- The step threw, and nothing else did. -/
structure Threw (host : SagaHost) (served : Served) (start : World) (a : Attempt)
    (requestedVersion : String) (prior : InstallOp) (c : Call) (created : Option Nat) (w : World) :
    Prop where
  thrown : w.thrown = [c]
  progress : Progress host served start a requestedVersion prior (stage c) created w

/-- A region of the `try` block threw, with the flags as the catch block sees them. -/
def Stopped (host : SagaHost) (served : Served) (start : World) (a : Attempt)
    (requestedVersion : String) (prior : InstallOp) (created : Option Nat) (entered : Bool)
    (w : World) : Prop :=
  ∃ c, 0 < stage c ∧ enteredAt served (stage c) = entered ∧
    Threw host served start a requestedVersion prior c created w

variable {n m : Nat} {created : Option Nat}

theorem Progress.at_clock (h : Progress host served start a requestedVersion prior n created w)
    (t : Instant) (ts : List Call) :
    Progress host served start a requestedVersion prior n created
      { w with clock := t, thrown := ts } :=
  ⟨h.anchor, h.grant, h.row, h.templates, h.inUse, h.dashboards⟩

theorem grantAt_late (hn : 3 < n) (hm : 3 < m) : grantAt host served start a requestedVersion n =
      grantAt host served start a requestedVersion m := by
  rw [grantAt, grantAt]
  simp only [hn, hm, Nat.lt_of_succ_lt hn, Nat.lt_of_succ_lt hm]

theorem Progress.next (h : Progress host served start a requestedVersion prior n created w)
    (hg : (2 < m ↔ 2 < n) ∧ (3 < m ↔ 3 < n)) (hr : 13 < m ↔ 13 < n) (hd : 7 < n → 7 < m) :
    Progress host served start a requestedVersion prior m created w := by
  refine ⟨h.anchor, ?_, ?_, h.templates, h.inUse, ?_⟩
  · rw [h.grant, grantAt, grantAt]
    simp only [hg.1, hg.2]
  · have hrow := h.row
    rw [RowAt] at hrow ⊢
    simp only [hr]
    exact hrow
  · intro he
    refine h.dashboards ?_
    rw [enteredAt, Bool.and_eq_false_iff, decide_eq_false_iff_not] at he ⊢
    exact he.imp_left (fun hn hc => hn (hd hc))

/-- Step `n` is next, and nothing has thrown. -/
structure Going (host : SagaHost) (served : Served) (start : World) (a : Attempt)
    (requestedVersion : String) (prior : InstallOp) (n : Nat) (created : Option Nat) (w : World) :
    Prop where
  thrown : w.thrown = []
  progress : Progress host served start a requestedVersion prior n created w

variable {entered : Bool} {c : Call}

theorem step_spec {M : Call.Reply c → World → Prop} (hc : stage c = n)
    (hn : 0 < n) (he : enteredAt served n = entered)
    (h : Going host served start a requestedVersion prior n created w)
    (hok : ∀ w₁ x, Progress host served start a requestedVersion prior n created w₁ →
      (serve host served w₁ c).1 = .ok x → (serve host served w₁ c).2.thrown = [] →
      M x (serve host served w₁ c).2) : Ends host served (perform c)
      (Post M (fun _ => Stopped host served start a requestedVersion prior created entered)) w := by
  subst hc
  refine call_spec ?_ ?_
  · intro err e
    refine ⟨c, hn, he, ?_, h.progress.at_clock _ _⟩
    show w.thrown ++ [c] = [c]
    rw [h.thrown]
    rfl
  · intro e x hx
    refine hok _ x (h.progress.at_clock _ w.thrown) hx ?_
    rw [serve_thrown]
    exact h.thrown

/-! ## What the writes do -/

variable {x : Unit}

theorem Progress.statement (h : Progress host served start a requestedVersion prior n created w)
    {r : Except JournalError Journal} (hx : (w.statement r).1 = .ok x)
    (hkeeps : ∀ j, r = .ok j → prior ∈ j.rows) :
    Progress host served start a requestedVersion prior n created (w.statement r).2 := by
  cases r with
  | ok j => exact ⟨hkeeps j rfl, h.grant, h.row, h.templates, h.inUse, h.dashboards⟩
  | error err => cases hx

variable {digest : Option String}

theorem advance_progress (h : Progress host served start a requestedVersion prior n created w)
    (hid : prior.installOpId ≠ id)
    (hx : (serve host served w (.advanceInstallOpPhase id phase digest)).1 = .ok x) :
    Progress host served start a requestedVersion prior n created
      (serve host served w (.advanceInstallOpPhase id phase digest)).2 :=
  Progress.statement h hx (fun _ hj => advance_keeps hid h.anchor hj)

theorem recordGrant_progress (h : Progress host served start a requestedVersion prior 2 created w) :
    Progress host served start a requestedVersion prior 3 created
      (serve host served w (.recordRequestedGrant a.scope served.requestedPorts)).2 := by
  refine ⟨h.anchor, ?_, h.row, h.templates, h.inUse, h.dashboards⟩
  show Function.update w.grants a.scope _ a.scope = _
  rw [Function.update_self, h.grant]
  rfl

theorem recordRequestedGrant_hash (ports : List String) (g : Option HostPortGrant) :
    (recordRequestedGrant host ports g).requestedPortsHash = computeRequestedPortsHash host ports := by
  cases g with
  | none => rfl
  | some g =>
    rw [recordRequestedGrant]
    split
    · assumption
    · rfl

theorem approveGrant_recorded (ports : List String) (userId : String) (g : Option HostPortGrant) :
    approveGrant host ports ports userId (some (recordRequestedGrant host ports g)) =
      .ok { recordRequestedGrant host ports g with
        status := .approved, approvedPorts := normalizePorts ports, approvedBy := some userId } := by
  have hsub : (normalizePorts ports).filter (fun p => !(normalizePorts ports).contains p) = [] := by
    rw [List.filter_eq_nil_iff]
    intro p hp
    simp [hp]
  rw [approveGrant, recordRequestedGrant_hash, if_neg (fun hc => hc rfl), hsub]
  simp [recordRequestedGrant_hash]

theorem approveGrant_progress (h : Progress host served start a requestedVersion prior 3 created w)
    (hs : signed host served a requestedVersion = true) :
    Progress host served start a requestedVersion prior 4 created (serve host served w
        (.approveGrant a.scope served.requestedPorts served.requestedPorts a.userId)).2 := by
  have hg : w.grants a.scope =
      some (recordRequestedGrant host served.requestedPorts (start.grants a.scope)) := h.grant
  have hgrant : (w.setGrant a.scope (approveGrant host served.requestedPorts served.requestedPorts
      a.userId (w.grants a.scope))).2 = { w with
        grants := Function.update w.grants a.scope (some (approvedGrant host served start a)) } := by
    rw [hg, approveGrant_recorded]
    rfl
  show Progress host served start a requestedVersion prior 4 created (w.setGrant a.scope _).2
  rw [hgrant]
  refine ⟨h.anchor, ?_, h.row, h.templates, h.inUse, h.dashboards⟩
  show Function.update w.grants a.scope _ a.scope = _
  rw [Function.update_self, grantAt, if_pos ⟨by decide, hs⟩]

/-- The template an attempt created. -/
def createdBy (t : InstalledTemplate) : Option Nat := if t.wasReinstall then none else some t.templateId

/-- The template is rewritten in place, or a new one stands at the end. -/
theorem template_progress (h : Progress host served start a requestedVersion prior 7 none w)
    (manifest : TemplateManifest) : Progress host served start a requestedVersion prior 8
      (createdBy (upsertTemplate w manifest a.orgId a.packageName).1)
      (upsertTemplate w manifest a.orgId a.packageName).2 := by
  have h8 := h.next (m := 8) (by decide) (by decide) (by decide)
  have hids : w.templates.map WorkflowTemplate.id = start.templates.map WorkflowTemplate.id :=
    h.templates
  rw [upsertTemplate]
  split
  · refine ⟨h8.anchor, h8.grant, h8.row, ?_, h8.inUse, h8.dashboards⟩
    show (upsertTemplate.rewrite _ _ _ w.templates).map WorkflowTemplate.id = _
    rw [← hids]
    exact map_updateWhere w.templates _ (fun _ => rfl)
  refine ⟨h8.anchor, h8.grant, h8.row, ⟨?_, ?_⟩, h8.inUse, h8.dashboards⟩
  · show (w.templates ++ [_]).map WorkflowTemplate.id = _
    rw [List.map_append, hids]
    rfl
  · rw [← h.inUse]
    exact fun hc => freshId_notMem _ (List.mem_append_right _ hc)

theorem Progress.setDashboards (h : Progress host served start a requestedVersion prior n created w)
    (he : enteredAt served n = true) (r : Except SagaError (List Dashboard)) :
    Progress host served start a requestedVersion prior n created (w.setDashboards r).2 := by
  cases r with
  | ok ds =>
    refine ⟨h.anchor, h.grant, h.row, h.templates, h.inUse, ?_⟩
    intro hc
    rw [he] at hc
    cases hc
  | error err => exact h

theorem provenance_progress (h : Progress host served start a requestedVersion prior 13 created w)
    (p : Provenance) (hx : (serve host served w (.recordProvenance a.scope p)).1 = .ok x) :
    Progress host served start a requestedVersion prior 14 created
      (serve host served w (.recordProvenance a.scope p)).2 := by
  have hat : w.rows a.scope = start.rows a.scope := h.row
  obtain ⟨row, row', hrow, hs, hw⟩ := setRow_ok hx
  obtain ⟨hname, hsource, -⟩ := switchSource_ok hs
  show Progress host served start a requestedVersion prior 14 created (w.setRow _ _ _).2
  rw [hw]
  refine ⟨h.anchor, h.grant.trans (grantAt_late (by decide) (by decide)), ?_, h.templates, h.inUse,
    h.dashboards⟩
  show RowAt start a 14 (Function.update w.rows a.scope _ a.scope)
  rw [Function.update_self]
  exact ⟨row, row', p, hat ▸ hrow, rfl, hname, hsource⟩

theorem edges_progress (h : Progress host served start a requestedVersion prior 14 created w)
    (deps : List ExtensionDependency)
    (hx : (serve host served w (.persistDependencyEdges a.scope deps)).1 = .ok x) :
    Progress host served start a requestedVersion prior 16 created
      (serve host served w (.persistDependencyEdges a.scope deps)).2 := by
  obtain ⟨row, row₁, p, hstart, hat, hname, hsource⟩ := h.row
  obtain ⟨row₁', row', hrow, hs, hw⟩ := setRow_ok hx
  obtain rfl : row₁ = row₁' := Option.some.inj (hat.symm.trans hrow)
  obtain ⟨hname', hsource', -⟩ := switchDependencies_ok hs
  show Progress host served start a requestedVersion prior 16 created (w.setRow _ _ _).2
  rw [hw]
  refine ⟨h.anchor, h.grant.trans (grantAt_late (by decide) (by decide)), ?_, h.templates, h.inUse,
    h.dashboards⟩
  show RowAt start a 16 (Function.update w.rows a.scope _ a.scope)
  rw [Function.update_self]
  exact ⟨row, row', p, hstart, rfl, hname'.trans hname, hsource'.trans hsource⟩

theorem Progress.unsigned (h : Progress host served start a requestedVersion prior 3 created w)
    (hs : ¬ signed host served a requestedVersion = true) :
    Progress host served start a requestedVersion prior 4 created w := by
  refine ⟨h.anchor, h.grant.trans ?_, h.row, h.templates, h.inUse, h.dashboards⟩
  simp [grantAt, hs]

/-! ## The regions of the `try` block -/

theorem read_spec {M : Call.Reply c → World → Prop} (hc : stage c = n)
    (hn : 0 < n) (he : enteredAt served n = entered)
    (h : Going host served start a requestedVersion prior n created w)
    (hread : ∀ w, (serve host served w c).2 = w)
    (hok : ∀ w₁ x, Going host served start a requestedVersion prior n created w₁ →
      (serve host served w₁ c).1 = .ok x → M x w₁) : Ends host served (perform c)
      (Post M (fun _ => Stopped host served start a requestedVersion prior created entered)) w := by
  refine step_spec hc hn he h ?_
  intro w₁ x h₁ hx ht
  rw [hread] at ht ⊢
  exact hok w₁ x ⟨ht, h₁⟩ hx

theorem advance_spec (hc : stage (.advanceInstallOpPhase id phase digest) = n) (hn : 0 < n)
    (he : enteredAt served n = entered) (hid : prior.installOpId ≠ id)
    (h : Going host served start a requestedVersion prior n created w)
    (hg : (2 < m ↔ 2 < n) ∧ (3 < m ↔ 3 < n)) (hr : 13 < m ↔ 13 < n) (hd : 7 < n → 7 < m) :
    Ends host served (perform <| Call.advanceInstallOpPhase id phase digest)
      (Post (fun _ => Going host served start a requestedVersion prior m created)
        (fun _ => Stopped host served start a requestedVersion prior created entered)) w := by
  refine step_spec hc hn he h ?_
  intro w₁ x h₁ hx ht
  exact ⟨ht, (advance_progress h₁ hid hx).next hg hr hd⟩

variable {artifact : Artifact} {adm : Admitted}

theorem grantAndPreflight_spec (h : Going host served start a requestedVersion prior 1 none w)
    (hports : adm.requestedPorts = served.requestedPorts)
    (htier : adm.tier = .trustedSigned ↔ signed host served a requestedVersion = true)
    (hid : prior.installOpId ≠ a.installOpId artifact.version) :
    Ends host served (grantAndPreflight a artifact adm)
      (Post (fun preflight w' => preflight = served.preflight ∧
          Going host served start a requestedVersion prior 7 none w')
        (fun _ => Stopped host served start a requestedVersion prior none false)) w := by
  refine Spec.post_bind (advance_spec (n := 1) (m := 2) rfl (by decide) rfl hid h (by decide) (by decide)
    (by decide)) ?_
  intro _ w₁ h₁
  rw [hports]
  refine Spec.post_bind (M := fun _ w' => Going host served start a requestedVersion prior 3 none w')
    (step_spec (n := 2) rfl (by decide) rfl h₁ ?_) ?_
  · intro w₂ x h₂ _ ht
    exact ⟨ht, recordGrant_progress h₂⟩
  intro _ w₂ h₂
  refine Spec.post_bind (M := fun _ w' => Going host served start a requestedVersion prior 4 none w')
    ?_ ?_
  · refine Spec.onlyIf (fun htrusted => ?_) (fun huntrusted => ?_)
    · have hs := htier.mp (of_decide_eq_true htrusted)
      refine step_spec (n := 3) rfl (by decide) rfl h₂ ?_
      intro w₃ x h₃ _ ht
      exact ⟨ht, approveGrant_progress h₃ hs⟩
    · have hs : ¬ signed host served a requestedVersion = true :=
        fun hc => of_decide_eq_false huntrusted (htier.mpr hc)
      exact ⟨h₂.thrown, h₂.progress.unsigned hs⟩
  intro _ w₃ h₃
  refine Spec.post_bind (advance_spec (n := 4) (m := 5) rfl (by decide) rfl hid h₃ (by decide)
    (by decide) (by decide)) ?_
  intro _ w₄ h₄
  refine Spec.post_bind (M := fun x w' => x = served.preflight ∧
    Going host served start a requestedVersion prior 5 none w')
    (read_spec (n := 5) rfl (by decide) rfl h₄ (fun _ => rfl) ?_) ?_
  · intro w₅ x h₅ hx
    exact ⟨(Except.ok.inj hx).symm, h₅⟩
  rintro x w₅ ⟨rfl, h₅⟩
  refine Spec.post_bind (advance_spec (n := 6) (m := 7) rfl (by decide) rfl hid
    ⟨h₅.thrown, h₅.progress.next (by decide) (by decide) (by decide)⟩
    (by decide) (by decide) (by decide)) ?_
  intro _ w₆ h₆
  exact ⟨rfl, h₆⟩

theorem entered_of_config (hc : served.preflight.dashboardConfig.isSome = true) (hn : 7 < n) :
    enteredAt served n = true := by
  rw [enteredAt, hc, Bool.and_true]
  exact decide_eq_true hn

theorem dashboards_spec {M : Call.Reply c → World → Prop} (hc : stage c = n)
    (hn : 7 < n) (he : served.preflight.dashboardConfig.isSome = true)
    (h : Going host served start a requestedVersion prior n created w)
    (hset : ∀ w, ∃ r, (serve host served w c).2 = (w.setDashboards r).2)
    (hok : ∀ w₁ x, Going host served start a requestedVersion prior n created w₁ → M x w₁) :
    Ends host served (perform c)
      (Post M (fun _ => Stopped host served start a requestedVersion prior created true)) w := by
  refine step_spec hc (Nat.lt_of_le_of_lt (Nat.zero_le _) hn) (entered_of_config he hn) h ?_
  intro w₁ x h₁ _ ht
  obtain ⟨r, hr⟩ := hset w₁
  rw [hr] at ht ⊢
  exact hok _ x ⟨ht, h₁.setDashboards (entered_of_config he hn) r⟩

theorem materializeInstances_spec (he : served.preflight.dashboardConfig.isSome = true)
    (projectIds : List String) :
    ∀ w, Going host served start a requestedVersion prior 11 created w →
      Ends host served (materializeInstances a projectIds)
        (Post (fun _ => Going host served start a requestedVersion prior 11 created)
          (fun _ => Stopped host served start a requestedVersion prior created true)) w := by
  induction projectIds with
  | nil => exact fun w h => h
  | cons projectId rest ih =>
    intro w h
    refine Spec.post_bind (dashboards_spec (n := 11) rfl (by decide) he h (fun w => ⟨_, rfl⟩)
      (fun w _ h => h)) ?_
    exact fun _ w h => ih w h

theorem writeDashboards_spec {opId : String} (hid : prior.installOpId ≠ opId)
    (h : Going host served start a requestedVersion prior 8 created w) :
    Ends host served (writeDashboards a opId served.preflight.dashboardConfig)
      (Post (fun _ => Going host served start a requestedVersion prior 13 created)
        (fun _ => Stopped host served start a requestedVersion prior created
          served.preflight.dashboardConfig.isSome)) w := by
  cases hcfg : served.preflight.dashboardConfig with
  | none => exact ⟨h.thrown, h.progress.next (by decide) (by decide) (by decide)⟩
  | some config =>
    have he : served.preflight.dashboardConfig.isSome = true := by rw [hcfg]; rfl
    refine Spec.post_bind (advance_spec (n := 8) (m := 9) rfl (by decide)
      (entered_of_config he (by decide)) hid h (by decide) (by decide) (by decide)) ?_
    intro _ w₁ h₁
    refine Spec.post_bind (dashboards_spec (n := 9) rfl (by decide) he h₁ (fun w => ⟨_, rfl⟩)
      (fun w _ h => h)) ?_
    intro _ w₂ h₂
    refine Spec.post_bind (M := fun _ w' =>
      Going host served start a requestedVersion prior 10 created w')
      (read_spec (n := 10) rfl (by decide) (entered_of_config he (by decide))
        ⟨h₂.thrown, h₂.progress.next (by decide) (by decide) (by decide)⟩ (fun _ => rfl)
        (fun w _ h _ => h)) ?_
    intro projectIds w₃ h₃
    refine Spec.post_bind (materializeInstances_spec he projectIds w₃
      ⟨h₃.thrown, h₃.progress.next (by decide) (by decide) (by decide)⟩) ?_
    intro _ w₄ h₄
    refine Spec.post_bind (dashboards_spec (n := 12) rfl (by decide) he
      ⟨h₄.thrown, h₄.progress.next (by decide) (by decide) (by decide)⟩ (fun w => ⟨_, rfl⟩)
      (fun w _ h => h)) ?_
    intro _ w₅ h₅
    exact ⟨h₅.thrown, h₅.progress.next (by decide) (by decide) (by decide)⟩

/-- The late writes of an update: it throws, or has finalized. -/
theorem lateWrites_spec (h : Going host served start a requestedVersion prior 13 created w) :
    Ends host served (lateWrites a artifact adm true) (Post (fun _ _ => True)
        (fun _ => Stopped host served start a requestedVersion prior created
          served.preflight.dashboardConfig.isSome)) w := by
  have he : ∀ n, 7 < n → enteredAt served n = served.preflight.dashboardConfig.isSome := by
    intro n hn
    rw [enteredAt, decide_eq_true hn, Bool.true_and]
  refine Spec.post_bind (M := fun _ w' =>
    Going host served start a requestedVersion prior 14 created w')
    (step_spec (n := 13) rfl (by decide) (he _ (by decide)) h ?_) ?_
  · intro w₁ x h₁ hx ht
    exact ⟨ht, provenance_progress h₁ _ hx⟩
  intro _ w₁ h₁
  refine Spec.post_bind (M := fun _ w' =>
    Going host served start a requestedVersion prior 16 created w')
    (step_spec (n := 14) rfl (by decide) (he _ (by decide)) h₁ ?_) ?_
  · intro w₂ x h₂ hx ht
    exact ⟨ht, edges_progress h₂ _ hx⟩
  intro _ w₂ h₂
  exact step_spec (n := 16) rfl (by decide) (he _ (by decide)) h₂ (fun _ _ _ _ _ => trivial)

end ExtSagaProgress
