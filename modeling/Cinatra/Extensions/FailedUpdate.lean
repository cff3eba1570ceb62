import Cinatra.Extensions.SagaUnwind

/-! # FailedUpdate — what a failed update leaves of the previous install

    One step throws and the catch block runs.  The journal keeps the previous
    anchor and the template the attempt created is gone; the edges are written
    back as they were.  The grant is never written back, the dashboards are
    archived whoever's they were, and a verdaccio source comes back with its
    optional fields filled in or dropped.  So the previous install is as it was
    exactly when the step that threw stands before those writes, or what they
    wrote was there already (`Spared`). -/

namespace ExtFailedUpdate

open Process JsonValue ExtCanonical ExtInstallOps ExtWorkflowSaga ExtSagaWorld ExtSagaProgress
  ExtSagaUnwind

variable {host : SagaHost} {served : Served} {start w w' : World} {a : Attempt}
  {prior : InstallOp} {requestedVersion : String} {n : Nat} {c : Call}

/-- A dashboard of the scope that is not archived. -/
def activeDashboard (a : Attempt) (d : Dashboard) : Bool :=
  ofExtension a.packageName a.orgId d && d.status ≠ .archived

/-- The previous install is as the attempt found it. -/
structure AsItWas (start : World) (a : Attempt) (w : World) : Prop where
  anchor : (finalizedOps start.journal a.scope).length = 1 ∧
    finalizedOps w.journal a.scope = finalizedOps start.journal a.scope
  source : (w.rows a.scope).map CanonicalRow.source = (start.rows a.scope).map CanonicalRow.source
  edges : (w.rows a.scope).map CanonicalRow.dependencies =
    (start.rows a.scope).map CanonicalRow.dependencies
  grant : w.grants a.scope = start.grants a.scope
  templates : ∀ t ∈ w.templates, t.id ∈ start.templates.map WorkflowTemplate.id
  dashboards : ∀ d ∈ start.dashboards, activeDashboard a d = true → d ∈ w.dashboards

/-- The grant already is what the request, and an approval of it, make of it. -/
def GrantSettled (host : SagaHost) (ports : List String) (approvedBy : Option String)
    (g : Option HostPortGrant) : Prop :=
  ∃ g', g = some g' ∧ g'.requestedPortsHash = computeRequestedPortsHash host ports ∧
    ∀ userId, approvedBy = some userId →
      g'.status = .approved ∧ g'.approvedPorts = normalizePorts ports ∧ g'.approvedBy = some userId

/-- The source has all that `readCurrentSource` and `recordProvenance` keep of one. -/
def SourceSettled (packageName : String) : ExtensionSource → Prop
  | .verdaccio v => v.packageName = packageName ∧ v.contentHash ≠ none ∧
      v.attestedSha256 ≠ some "" ∧ v.signature ≠ some "" ∧ v.closureHash ≠ some ""
  | _ => False

/-- A verdaccio source. -/
def isVerdaccio : ExtensionSource → Bool
  | .verdaccio _ => true
  | _ => false

/-- The step that throws, and what was there before, leave the previous install alone. -/
structure Spared (host : SagaHost) (served : Served) (start : World) (a : Attempt)
    (requestedVersion : String) (c : Call) : Prop where
  grant : 2 < stage c → GrantSettled host served.requestedPorts
    (if 3 < stage c ∧ signed host served a requestedVersion = true then some a.userId else none)
    (start.grants a.scope)
  dashboards : 7 < stage c → served.preflight.dashboardConfig ≠ none →
    ∀ d ∈ start.dashboards, activeDashboard a d = false
  source : ∀ row, start.rows a.scope = some row →
    (if isVerdaccio row.source = true then 0 < stage c else 13 < stage c) →
      SourceSettled a.packageName row.source

/-! ## Before the journal -/

/-- Nothing was written, and what threw is no step of the `try` block. -/
structure Quiet (start w : World) : Prop where
  journal : w.journal = start.journal
  rows : w.rows = start.rows
  grants : w.grants = start.grants
  templates : w.templates = start.templates
  inUse : w.inUse = start.inUse
  dashboards : w.dashboards = start.dashboards
  thrown : ∀ c ∈ w.thrown, stage c = 0

theorem quiet_spec {c : Call} {M : Call.Reply c → World → Prop} (hc : stage c = 0)
    (h : Quiet start w) (ht : w.thrown = []) (hread : ∀ w, (serve host served w c).2 = w)
    (hok : ∀ w₁ x, Quiet start w₁ → w₁.thrown = [] → (serve host served w₁ c).1 = .ok x → M x w₁) :
    Ends host served (perform c) (Post M (fun _ => Quiet start)) w := by
  refine call_spec ?_ ?_
  · intro err e
    refine ⟨h.journal, h.rows, h.grants, h.templates, h.inUse, h.dashboards, ?_⟩
    show ∀ c' ∈ w.thrown ++ [c], stage c' = 0
    rw [ht]
    intro c' hc'
    rw [List.mem_singleton.mp hc', hc]
  · intro e x hx
    rw [hread]
    exact hok _ x ⟨h.journal, h.rows, h.grants, h.templates, h.inUse, h.dashboards, h.thrown⟩ ht hx

theorem refuse_spec {α : Type} {storeDir : String} {err : SagaError} {M : α → World → Prop}
    (h : Quiet start w) :
    Ends host served (refuse storeDir err) (Post M (fun _ => Quiet start)) w := by
  have hgc : Ends host served (perform <| Call.gcStoreDir storeDir) (fun _ => Quiet start) w := by
    refine call_spec ?_ ?_
    · intro err e
      refine ⟨h.journal, h.rows, h.grants, h.templates, h.inUse, h.dashboards, ?_⟩
      intro c' hc'
      rcases List.mem_append.mp hc' with hc' | hc'
      · exact h.thrown c' hc'
      · rw [List.mem_singleton.mp hc']
        rfl
    · intro e x _
      exact ⟨h.journal, h.rows, h.grants, h.templates, h.inUse, h.dashboards, h.thrown⟩
  refine Spec.bind (Spec.swallow (Spec.mono hgc ?_))
  exact fun _ _ hw => hw

theorem resolveArtifact_spec (h : Quiet start w) (ht : w.thrown = []) :
    Ends host served (resolveArtifact host a requestedVersion)
      (Post (fun artifact w' => checkArtifact host a.packageName requestedVersion served.integrity =
          .ok artifact ∧ Quiet start w' ∧ w'.thrown = []) (fun _ => Quiet start)) w := by
  refine Spec.post_bind (M := fun x w' => x = served.integrity ∧ Quiet start w' ∧ w'.thrown = [])
    (quiet_spec rfl h ht (fun _ => rfl)
      (fun w₁ x h₁ ht₁ hx => ⟨(Except.ok.inj hx).symm, h₁, ht₁⟩)) ?_
  rintro x w₁ ⟨rfl, h₁, ht₁⟩
  cases hcheck : checkArtifact host a.packageName requestedVersion served.integrity with
  | error err => exact h₁
  | ok artifact => exact ⟨rfl, h₁, ht₁⟩

variable {artifact : Artifact}

theorem checkArtifact_version {packageName : String} {resolved : ResolvedIntegrity}
    (h : checkArtifact host packageName requestedVersion resolved = .ok artifact) :
    artifact.version = resolved.resolvedVersion.getD requestedVersion := by
  simp only [checkArtifact, checkServed] at h
  split at h
  · cases h
  · split at h
    · cases h
    · cases h
      rfl

theorem passGates_spec {update : Bool}
    (hcheck : checkArtifact host a.packageName requestedVersion served.integrity = .ok artifact)
    (h : Quiet start w) (ht : w.thrown = []) : Ends host served (passGates host a artifact update)
      (Post (fun adm w' => adm.requestedPorts = served.requestedPorts ∧
          (adm.tier = .trustedSigned ↔ signed host served a requestedVersion = true) ∧
          Quiet start w' ∧ w'.thrown = []) (fun _ => Quiet start)) w := by
  have hsigned : signed host served a requestedVersion =
      decide (classifyExtensionTrust host artifact.resolved.registryUrl artifact.signatureVerified =
        .trustedSigned) := by
    rw [signed, hcheck]
  refine Spec.post_bind (M := fun _ w' => Quiet start w' ∧ w'.thrown = [])
    (quiet_spec rfl h ht (fun _ => rfl) (fun w₁ x h₁ ht₁ _ => ⟨h₁, ht₁⟩)) ?_
  rintro mat w₁ ⟨h₁, ht₁⟩
  refine Spec.post_bind (M := fun _ w' => Quiet start w' ∧ w'.thrown = [])
    (quiet_spec rfl h₁ ht₁ (fun _ => rfl) (fun w₁ x h₁ ht₁ _ => ⟨h₁, ht₁⟩)) ?_
  rintro range w₂ ⟨h₂, ht₂⟩
  split
  · exact refuse_spec h₂
  refine Spec.bind (Spec.attempt (Spec.mono (quiet_spec (M := fun _ w' => Quiet start w' ∧
    w'.thrown = []) rfl h₂ ht₂ (fun _ => rfl) (fun w₁ x h₁ ht₁ _ => ⟨h₁, ht₁⟩)) ?_))
  intro r w₃ hr
  cases r with
  | error err => exact refuse_spec hr
  | ok edges =>
    obtain ⟨h₃, ht₃⟩ := hr
    refine Spec.post_bind (M := fun x w' => x = served.requestedPorts ∧ Quiet start w' ∧
      w'.thrown = []) (quiet_spec rfl h₃ ht₃ (fun _ => rfl)
      (fun w₁ x h₁ ht₁ hx => ⟨(Except.ok.inj hx).symm, h₁, ht₁⟩)) ?_
    rintro ports w₄ ⟨rfl, h₄, ht₄⟩
    dsimp only
    split
    · exact refuse_spec h₄
    · exact ⟨rfl, by rw [hsigned, decide_eq_true_eq], h₄, ht₄⟩

theorem capture_spec (hprior : prior.isFinalized = true) (h : Quiet start w) (ht : w.thrown = []) :
    Ends host served (capture a.scope (some prior))
      (Post (fun cap w' => cap = captured start a ∧ Quiet start w' ∧ w'.thrown = [])
        (fun _ => Quiet start)) w := by
  rw [capture, if_pos (show (some prior).any InstallOp.isFinalized = true from hprior)]
  refine Spec.post_bind (M := fun x w' => x = (start.rows a.scope).bind currentSource ∧
    Quiet start w' ∧ w'.thrown = []) (quiet_spec rfl h ht (fun _ => rfl) ?_) ?_
  · intro w₁ x h₁ ht₁ hx
    exact ⟨by rw [← h₁.rows]; exact (Except.ok.inj hx).symm, h₁, ht₁⟩
  rintro x w₁ ⟨rfl, h₁, ht₁⟩
  refine Spec.post_bind (M := fun x w' => x = (start.rows a.scope).map CanonicalRow.dependencies ∧
    Quiet start w' ∧ w'.thrown = []) (quiet_spec rfl h₁ ht₁ (fun _ => rfl) ?_) ?_
  · intro w₂ x h₂ ht₂ hx
    exact ⟨by rw [← h₂.rows]; exact (Except.ok.inj hx).symm, h₂, ht₂⟩
  rintro x w₂ ⟨rfl, h₂, ht₂⟩
  exact ⟨rfl, h₂, ht₂⟩

theorem begin_spec {opId : String} (hid : prior.installOpId ≠ opId)
    (hprior : prior ∈ start.journal.rows) (h : Quiet start w) (ht : w.thrown = []) :
    Ends host served (perform <| Call.beginInstallOp opId a.scope)
      (Post (fun _ => Going host served start a requestedVersion prior 1 none)
        (fun _ => Quiet start)) w := by
  refine call_spec ?_ ?_
  · intro err e
    refine ⟨h.journal, h.rows, h.grants, h.templates, h.inUse, h.dashboards, ?_⟩
    show ∀ c' ∈ w.thrown ++ [_], stage c' = 0
    rw [ht]
    intro c' hc'
    rw [List.mem_singleton.mp hc']
    rfl
  · intro e x hx
    refine ⟨by rw [serve_thrown]; exact ht, ?_⟩
    refine Progress.statement (w := { w with clock := w.clock + e }) ⟨?_, ?_, ?_, ?_, h.inUse, ?_⟩
      hx ?_
    · rw [h.journal]
      exact hprior
    · exact congrFun h.grants a.scope
    · exact congrFun h.rows a.scope
    · exact congrArg (List.map WorkflowTemplate.id) h.templates
    · exact fun _ => h.dashboards
    · intro j hj
      refine begin_keeps hid ?_ hj
      rw [h.journal]
      exact hprior

theorem journaled_spec {adm : Admitted}
    (h : Going host served start a requestedVersion prior 1 none w)
    (hports : adm.requestedPorts = served.requestedPorts)
    (htier : adm.tier = .trustedSigned ↔ signed host served a requestedVersion = true)
    (hid : prior.installOpId ≠ a.installOpId artifact.version) :
    Ends host served (journaled a artifact adm (captured start a)) (Post (fun _ _ => True)
        (fun _ => Failed host served start a requestedVersion prior)) w := by
  have hregion : ∀ {α : Type} {p : P α} {k : α → P SagaResult} {M : α → World → Prop}
      {created : Option Nat} {entered : Bool} {w : World},
      Ends host served p (Post M
        (fun _ => Stopped host served start a requestedVersion prior created entered)) w →
      (∀ x w, M x w → Ends host served (k x) (Post (fun _ _ => True)
          (fun _ => Failed host served start a requestedVersion prior)) w) →
      Ends host served
        (orUnwind p (unwind a (a.installOpId artifact.version) (captured start a) created entered) k)
        (Post (fun _ _ => True)
          (fun _ => Failed host served start a requestedVersion prior)) w := by
    intro α p k M created entered w hp hk
    refine Spec.bind (Spec.attempt (Spec.mono hp ?_))
    intro r w₁ hr
    cases r with
    | ok x => exact hk x w₁ hr
    | error err => exact unwind_spec hid hr
  refine hregion (grantAndPreflight_spec h hports htier hid) ?_
  rintro preflight w₁ ⟨rfl, h₁⟩
  refine hregion (M := fun tpl w' =>
    Going host served start a requestedVersion prior 8 (createdBy tpl) w')
    (step_spec (n := 7) rfl (by decide) rfl h₁ ?_) ?_
  · intro w₂ x h₂ hx ht
    obtain rfl := Except.ok.inj hx
    exact ⟨ht, template_progress h₂ _⟩
  intro tpl w₂ h₂
  refine hregion (writeDashboards_spec hid h₂) ?_
  intro written w₃ h₃
  exact hregion (lateWrites_spec h₃) (fun _ _ _ => trivial)

theorem runAttempt_spec (host : SagaHost) (served : Served) (a : Attempt) (requestedVersion : String)
    (hstart : start.thrown = []) (hprior : prior ∈ finalizedOps start.journal a.scope)
    (hother : prior.installOpId ≠
      a.installOpId (served.integrity.resolvedVersion.getD requestedVersion)) :
    Ends host served (runAttempt host a requestedVersion)
      (Post (fun _ _ => True) (fun _ w' => Quiet start w' ∨
        Failed host served start a requestedVersion prior w')) start := by
  obtain ⟨hmem, hphase, -⟩ := mem_finalizedOps.mp hprior
  have hfin : prior.isFinalized = true := decide_eq_true hphase
  have hquiet : Quiet start start := ⟨rfl, rfl, rfl, rfl, rfl, rfl, by simp [hstart]⟩
  have hleft : ∀ {α : Type} {p : P α} {M : α → World → Prop} {w : World},
      Ends host served p (Post M (fun _ => Quiet start)) w →
      Ends host served p (Post M (fun _ w' => Quiet start w' ∨
          Failed host served start a requestedVersion prior w')) w := by
    intro α p M w hp
    refine Spec.mono hp ?_
    intro r w' hr
    cases r with
    | ok x => exact hr
    | error err => exact .inl hr
  refine Spec.post_bind (hleft (resolveArtifact_spec hquiet hstart)) ?_
  rintro artifact w₁ ⟨hcheck, h₁, ht₁⟩
  have hversion := checkArtifact_version hcheck
  rw [← hversion] at hother
  refine Spec.post_bind (M := fun x w' => x = some prior ∧ Quiet start w' ∧ w'.thrown = [])
    (hleft (quiet_spec rfl h₁ ht₁ (fun _ => rfl) ?_)) ?_
  · intro w₂ x h₂ ht₂ hx
    refine ⟨?_, h₂, ht₂⟩
    rw [← Except.ok.inj hx, h₂.journal]
    exact readInstallOp_eq hprior
  rintro existing w₂ ⟨rfl, h₂, ht₂⟩
  rw [if_neg]
  · refine Spec.post_bind (hleft (passGates_spec hcheck h₂ ht₂)) ?_
    rintro adm w₃ ⟨hports, htier, h₃, ht₃⟩
    refine Spec.post_bind (hleft (capture_spec hfin h₃ ht₃)) ?_
    rintro cap w₄ ⟨rfl, h₄, ht₄⟩
    refine Spec.post_bind (M := fun _ w' => Going host served start a requestedVersion prior 1 none w')
      (hleft (begin_spec hother hmem h₄ ht₄)) ?_
    intro _ w₅ h₅
    refine Spec.mono (journaled_spec h₅ hports htier hother) ?_
    intro r w' hr
    cases r with
    | ok x => trivial
    | error err => exact .inr hr
  · intro hc
    have hc := (Bool.and_eq_true_iff.mp hc).2
    exact hother (of_decide_eq_true hc)

/-! ## What is left, table by table -/

theorem grantAt_eq_iff : grantAt host served start a requestedVersion n = start.grants a.scope ↔
      (2 < n → GrantSettled host served.requestedPorts
        (if 3 < n ∧ signed host served a requestedVersion = true then some a.userId else none)
        (start.grants a.scope)) := by
  by_cases hn : 2 < n
  · have hrecord : ∀ g, start.grants a.scope = some g →
        g.requestedPortsHash = computeRequestedPortsHash host served.requestedPorts →
        recordRequestedGrant host served.requestedPorts (start.grants a.scope) = g := by
      intro g hg hh
      rw [hg]
      show (if _ then g else _) = g
      rw [if_pos hh]
    simp only [hn, true_imp_iff, GrantSettled]
    by_cases hs : 3 < n ∧ signed host served a requestedVersion = true
    · rw [grantAt, if_pos hs, if_pos hs]
      constructor
      · intro h
        refine ⟨_, h.symm, recordRequestedGrant_hash _ _, ?_⟩
        rintro userId hu
        obtain rfl := Option.some.inj hu
        exact ⟨rfl, rfl, rfl⟩
      · rintro ⟨g, hg, hh, happ⟩
        obtain ⟨h₁, h₂, h₃⟩ := happ _ rfl
        rw [approvedGrant, hrecord g hg hh, hg, ← h₁, ← h₂, ← h₃]
    · rw [grantAt, if_neg hs, if_neg hs, if_pos hn]
      constructor
      · intro h
        refine ⟨_, h.symm, recordRequestedGrant_hash _ _, ?_⟩
        intro _ hc
        cases hc
      · rintro ⟨g, hg, hh, -⟩
        rw [hrecord g hg hh, hg]
  · have h3 : ¬ 3 < n := fun hc => hn (Nat.lt_of_succ_lt hc)
    rw [grantAt, if_neg (fun hc => h3 hc.1), if_neg hn]
    exact ⟨fun _ hc => absurd hc hn, fun _ => rfl⟩

variable {x : Option String}

theorem truthy_eq_iff : truthy x = x ↔ x ≠ some "" := by
  cases x with
  | none => simp [truthy]
  | some s =>
    by_cases hs : s = ""
    · simp [truthy, hs]
    · rw [truthy, Option.filter_some]
      simp [hs]

theorem truthy_idem (x : Option String) : truthy (truthy x) = truthy x := by
  rw [truthy_eq_iff]
  intro hc
  cases x with
  | none => cases hc
  | some s =>
    rw [truthy, Option.filter_some] at hc
    split at hc
    · next hs =>
        rw [Option.some.inj hc] at hs
        exact absurd hs (by decide)
    · cases hc

theorem getD_truthy_eq_iff : some ((truthy x).getD "") = x ↔ x ≠ none := by
  cases x with
  | none => simp [truthy]
  | some s =>
    by_cases hs : s = ""
    · simp [truthy, hs, Option.filter]
    · rw [truthy, Option.filter_some]
      simp [hs]

/-- A source that is not verdaccio's stays unless the attempt wrote its own. -/
theorem other_iff {source source' : ExtensionSource} (hs : isVerdaccio source = false)
    (hrow : if 13 < n then ∃ p, source' = recordedSource p a.packageName else source' = source) :
    source' = source ↔ ((if isVerdaccio source = true then 0 < n else 13 < n) →
      SourceSettled a.packageName source) := by
  have hsettled : ¬ SourceSettled a.packageName source := by
    intro h
    cases source with
    | verdaccio v => cases hs
    | github => exact h
    | «local» => exact h
  rw [if_neg (by rw [hs]; exact Bool.false_ne_true)]
  by_cases hn : 13 < n
  · rw [if_pos hn] at hrow
    obtain ⟨p, rfl⟩ := hrow
    constructor
    · rintro rfl
      cases hs
    · exact fun h => absurd (h hn) hsettled
  · rw [if_neg hn] at hrow
    exact ⟨fun _ hc => absurd hc hn, fun _ => hrow⟩

/-- The source comes back as it was exactly where recording it again drops nothing. -/
theorem sourceBack_iff {row row' : CanonicalRow} (hn : 0 < n) (h : SourceBack a n row row') :
    row'.source = row.source ↔ ((if isVerdaccio row.source = true then 0 < n else 13 < n) →
        SourceSettled a.packageName row.source) := by
  obtain ⟨hsome, hnone⟩ := h
  cases hs : row.source with
  | verdaccio v =>
    have hcur : currentSource row = some ⟨v.version, v.registryUrl, v.integrity,
        truthy v.contentHash, truthy v.attestedSha256, truthy v.signature,
        truthy v.closureHash⟩ := by
      rw [currentSource, hs]
    rw [hsome _ hcur]
    show ExtensionSource.verdaccio ⟨v.registryUrl, a.packageName, v.version, v.integrity,
      some ((truthy v.contentHash).getD ""), truthy (truthy v.attestedSha256),
      truthy (truthy v.signature), truthy (truthy v.closureHash)⟩ = .verdaccio v ↔
        (0 < n → SourceSettled a.packageName (.verdaccio v))
    obtain ⟨url, name, version, integrity, hash, sha, signature, closure⟩ := v
    rw [truthy_idem, truthy_idem, truthy_idem, SourceSettled, ← getD_truthy_eq_iff,
      ← truthy_eq_iff, ← truthy_eq_iff, ← truthy_eq_iff]
    simp only [hn, true_imp_iff, ExtensionSource.verdaccio.injEq,
      ExtensionSourceVerdaccio.mk.injEq, true_and, eq_comm (a := a.packageName)]
  | github repo ref sha path =>
    have hrow := hnone (by rw [currentSource, hs])
    rw [hs] at hrow
    exact other_iff rfl hrow
  | «local» path hash =>
    have hrow := hnone (by rw [currentSource, hs])
    rw [hs] at hrow
    exact other_iff rfl hrow

theorem anchor_kept (hprior : prior ∈ finalizedOps start.journal a.scope)
    (h : prior ∈ w.journal.rows) : (finalizedOps start.journal a.scope).length = 1 ∧
      finalizedOps w.journal a.scope = finalizedOps start.journal a.scope := by
  obtain ⟨-, hphase, hscope⟩ := mem_finalizedOps.mp hprior
  rw [finalizedOps_eq hprior, finalizedOps_eq (mem_finalizedOps.mpr ⟨h, hphase, hscope⟩)]
  exact ⟨rfl, rfl⟩

theorem dashboardsBack_iff {entered : Bool} {ds : List Dashboard}
    (h : DashboardsBack start a entered ds) :
    (∀ d ∈ start.dashboards, activeDashboard a d = true → d ∈ ds) ↔
      (entered = true → ∀ d ∈ start.dashboards, activeDashboard a d = false) := by
  rw [DashboardsBack] at h
  cases entered with
  | false =>
    rw [if_neg Bool.false_ne_true] at h
    subst h
    exact ⟨fun _ hc => absurd hc Bool.false_ne_true, fun _ d hd _ => hd⟩
  | true =>
    rw [if_pos rfl] at h
    simp only [true_imp_iff]
    constructor
    · intro hstay d hd
      rw [← Bool.not_eq_true]
      intro hact
      obtain ⟨ho, hne⟩ := Bool.and_eq_true_iff.mp hact
      exact of_decide_eq_true hne (h d (hstay d hd hact) ho)
    · intro hnone d hd hact
      rw [hnone d hd] at hact
      cases hact

variable {r : Option CanonicalRow}

theorem rowBack_source_iff (hn : 0 < n) (h : RowBack start a n r) :
    r.map CanonicalRow.source = (start.rows a.scope).map CanonicalRow.source ↔
      ∀ row, start.rows a.scope = some row →
        (if isVerdaccio row.source = true then 0 < n else 13 < n) →
          SourceSettled a.packageName row.source := by
  obtain ⟨hnone, hsome⟩ := h
  cases hrow : start.rows a.scope with
  | none =>
    rw [hnone hrow]
    refine ⟨fun _ _ hc => ?_, fun _ => rfl⟩
    cases hc
  | some row =>
    obtain ⟨row', rfl, -, hback⟩ := hsome row hrow
    rw [Option.map_some, Option.map_some, Option.some_inj, sourceBack_iff hn hback]
    constructor
    · rintro h row₀ hrow₀
      obtain rfl := Option.some.inj hrow₀
      exact h
    · exact fun h => h row rfl

theorem rowBack_edges (h : RowBack start a n r) :
    r.map CanonicalRow.dependencies = (start.rows a.scope).map CanonicalRow.dependencies := by
  cases hrow : start.rows a.scope with
  | none => rw [h.1 hrow, Option.map_none]
  | some row =>
    obtain ⟨row', rfl, hdeps, -⟩ := h.2 row hrow
    rw [Option.map_some, Option.map_some, hdeps]

/-- What one throwing step of the `try` block leaves is the previous install
    exactly when the step spared it. -/
theorem failed_iff (hprior : prior ∈ finalizedOps start.journal a.scope) (hc : 0 < stage c)
    (hanchor : prior ∈ w.journal.rows)
    (h : Tables start a (grantAt host served start a requestedVersion (stage c))
      (RowBack start a (stage c)) (TemplatesBack start)
      (DashboardsBack start a (enteredAt served (stage c))) w) :
    AsItWas start a w ↔ Spared host served start a requestedVersion c := by
  have hdash := dashboardsBack_iff h.dashboards
  have hsource := rowBack_source_iff hc h.row
  constructor
  · intro hw
    refine ⟨grantAt_eq_iff.mp (h.grant.symm.trans hw.grant), ?_, hsource.mp hw.source⟩
    intro h7 hcfg
    exact hdash.mp hw.dashboards (entered_of_config (Option.isSome_iff_ne_none.mpr hcfg) h7)
  · intro hs
    refine ⟨anchor_kept hprior hanchor, hsource.mpr hs.source, rowBack_edges h.row,
      h.grant.trans (grantAt_eq_iff.mpr hs.grant), h.templates, hdash.mpr ?_⟩
    intro he
    obtain ⟨h7, hcfg⟩ := Bool.and_eq_true_iff.mp he
    exact hs.dashboards (of_decide_eq_true h7) (Option.isSome_iff_ne_none.mp hcfg)

theorem Quiet.asItWas (hprior : prior ∈ finalizedOps start.journal a.scope) (h : Quiet start w) :
    AsItWas start a w := by
  refine ⟨anchor_kept hprior ?_, ?_, ?_, ?_, ?_, ?_⟩
  · rw [h.journal]
    exact (mem_finalizedOps.mp hprior).1
  · rw [h.rows]
  · rw [h.rows]
  · rw [h.grants]
  · rw [h.templates]
    exact fun t ht => List.mem_map_of_mem ht
  · rw [h.dashboards]
    exact fun d hd _ => hd

theorem spared_of_stage (hc : stage c = 0) : Spared host served start a requestedVersion c := by
  refine ⟨?_, ?_, ?_⟩
  · rw [hc]
    exact fun h => absurd h (by decide)
  · rw [hc]
    exact fun h => absurd h (by decide)
  · intro row _ h
    rw [hc] at h
    split at h <;> exact absurd h (by decide)

def sagaRun (host : SagaHost) (served : Served) (input : SagaInput) (s : Nat → Answer)
    (start : World) : Except SagaError SagaResult × World :=
  run (environment host served) (installWorkflowExtensionSaga host input) s start

/-- The version an update installs. -/
def servedVersion (served : Served) (input : SagaInput) : String :=
  served.integrity.resolvedVersion.getD (input.version.getD "0.0.0")

/-- **A failed update in which one step threw leaves the previous install as it was
    exactly when that step spared it.** -/
theorem failed_update (prior : InstallOp) (input : SagaInput) (userId orgId : String)
    (hactor : actorOrgGuard input = .ok (userId, orgId))
    (hprior : prior ∈ finalizedOps start.journal ⟨input.packageName, some orgId⟩)
    (hother : prior.installOpId ≠
      Attempt.installOpId ⟨input.packageName, userId, orgId⟩ (servedVersion served input))
    (hstart : start.thrown = []) (s : Nat → Answer) (err : SagaError)
    (herr : (sagaRun host served input s start).1 = .error err)
    (hone : (sagaRun host served input s start).2.thrown.length ≤ 1) :
    AsItWas start ⟨input.packageName, userId, orgId⟩ (sagaRun host served input s start).2 ↔
      ∀ c ∈ (sagaRun host served input s start).2.thrown,
        Spared host served start ⟨input.packageName, userId, orgId⟩ (input.version.getD "0.0.0")
          c := by
  have hsaga : installWorkflowExtensionSaga host input =
      runAttempt host ⟨input.packageName, userId, orgId⟩ (input.version.getD "0.0.0") := by
    rw [installWorkflowExtensionSaga, hactor]
  have hspec := (runAttempt_spec host served ⟨input.packageName, userId, orgId⟩
    (input.version.getD "0.0.0") hstart hprior hother).run s
  rw [← hsaga] at hspec
  change Post _ _ (sagaRun host served input s start).1 (sagaRun host served input s start).2
    at hspec
  rw [herr] at hspec
  rcases hspec with hq | ⟨c, hc, hanchor, more, hthrown, htables⟩
  · exact ⟨fun _ c hc => spared_of_stage (hq.thrown c hc), fun _ => hq.asItWas hprior⟩
  rw [hthrown, List.length_cons] at hone
  obtain rfl : more = [] := List.length_eq_zero_iff.mp (by omega)
  rw [hthrown, failed_iff hprior hc hanchor (htables rfl)]
  exact ⟨fun h c' hc' => by rw [List.mem_singleton.mp hc']; exact h,
    fun h => h c (List.mem_singleton.mpr rfl)⟩

/-! ## An update that fails before its first write, and one that fails after -/

/-- Every host check passes; the package is not signed. -/
def plainSagaHost : SagaHost where
  sha256 := String.ofList
  parseMaterializationPlan := fun _ => .error (.step "no plan")
  computeClosureHash := fun _ => ""
  resolveSignatureVerdict := fun _ _ _ _ _ => none
  registryHostOf := fun _ => some "registry"
  trustedActivationHosts := ["registry"]
  allowMarketplaceBootstrapTrust := true
  compatible := fun _ => true
  formatHostSdkCompatRefusal := fun _ _ _ _ => "refused"

/-- Version 2 of a package with a dashboard, asking for `ports`. -/
def versionTwo (ports : List String) : Served where
  integrity := ⟨"sha512-2", "https://registry", none, none, some "2", none⟩
  mat := ⟨"store", "digest", "sha512-2", "hash-2"⟩
  sdkAbiRange := none
  dependencyEdges := []
  requestedPorts := ports
  preflight := ⟨⟨"flow", 2, .null⟩, some .null⟩

def updateInput : SagaInput := ⟨"flow", some "2", some "user", some "org"⟩

/-- The finalized op of version 1. -/
def priorOp : InstallOp := ⟨"flow@1:wf:org", "flow", some "org", .finalized, some "digest-1", 0, 0⟩

def priorRow : CanonicalRow where
  packageName := "flow"
  source := .verdaccio ⟨"https://registry", "flow", "1", "sha512-1", some "hash-1", none, none, none⟩
  dependencies := []
  validSource := by decide
  validDependencies := by decide

/-- Version 1 is installed: finalized, its ports approved, its dashboard published. -/
def versionOne : World where
  clock := 0
  journal := ⟨[priorOp], by decide⟩
  rows := fun scope => if scope = ⟨"flow", some "org"⟩ then some priorRow else none
  grants := fun scope => if scope = ⟨"flow", some "org"⟩ then
    some ⟨computeRequestedPortsHash plainSagaHost ["db"], .approved, ["db"], some "admin"⟩ else none
  templates := []
  inUse := []
  dashboards := [⟨1, "flow", "org", none, true, "flow dashboard", .null, .published⟩]
  projects := []
  thrown := []

/-- Only the step of this number throws. -/
def throwAt (k : Nat) : Nat → Answer :=
  fun n => if n = k then { fault := some (.step "down") } else {}

theorem failed_update_preflight : AsItWas versionOne ⟨"flow", "user", "org"⟩
        (sagaRun plainSagaHost (versionTwo ["db"]) updateInput (throwAt 12) versionOne).2 ↔
      ∀ c ∈ (sagaRun plainSagaHost (versionTwo ["db"]) updateInput (throwAt 12) versionOne).2.thrown,
        Spared plainSagaHost (versionTwo ["db"]) versionOne ⟨"flow", "user", "org"⟩ "2" c :=
  failed_update priorOp updateInput "user" "org" rfl (by decide) (by decide) rfl
    (throwAt 12) (.step "down") rfl (by decide)

/-- The first dashboard step throws; the ports are new ones: the dashboard of
    version 1 is archived and its approval is gone. -/
theorem previous_lost : priorOp ∈ finalizedOps versionOne.journal ⟨"flow", some "org"⟩ ∧
      (sagaRun plainSagaHost (versionTwo ["db", "net"]) updateInput (throwAt 15) versionOne).1 =
        .error (.step "down") ∧
      (sagaRun plainSagaHost (versionTwo ["db", "net"]) updateInput (throwAt 15) versionOne).2.thrown =
        [.advanceInstallOpPhase "flow@2:wf:org" .writing none] ∧
      ¬ AsItWas versionOne ⟨"flow", "user", "org"⟩
        (sagaRun plainSagaHost (versionTwo ["db", "net"]) updateInput (throwAt 15) versionOne).2 := by
  refine ⟨by decide, rfl, rfl, ?_⟩
  intro h
  have hd := h.dashboards ⟨1, "flow", "org", none, true, "flow dashboard", .null, .published⟩
    (List.mem_singleton.mpr rfl) rfl
  exact absurd hd (by decide)

end ExtFailedUpdate
