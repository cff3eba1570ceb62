import Cinatra.Extensions.RegistryRestore

/-! # RegistryRepin — what a failed update leaves

    An update that throws, or that reports a complete rollback, has dealt with
    every axis of the previous install; where it has not is read off the calls that
    took effect (`Covered`).  The gates change nothing (`passGates_spec`), the
    journaled region keeps the pin until the finalize (`journaled_spec`), and both
    unwinds go through all four axes. -/

namespace ExtRegistry

open Process ExtCanonical ExtClosure ExtInstallOps
open ExtWorkflowSaga (SagaHost SagaError Provenance truthy Artifact Materialized)
open ExtSagaWorld (GrantStatus HostPortGrant)

variable {host : RegistryHost} {start w w' : World} {scope : Scope} {prior : InstallOp}
  {opId : String} {lost : Prop} {done : List DurableStep} {path : UnwindPath}

/-- All axes. -/
def durableSteps : List DurableStep := [.dependencies, .grant, .journal, .provenance]

theorem mem_durableSteps (step : DurableStep) : step ∈ durableSteps := by
  cases step <;> decide

/-! ## The gates -/

/-- Nothing was written yet. -/
def Gated (host : RegistryHost) (start : World) (scope : Scope) (prior : InstallOp)
    (opId : String) (w : World) : Prop :=
  start.Alike w ∧ Unwinding host start scope prior opId False durableSteps w

variable {c : Call} {f : Answer}

theorem Gated.idle (h : Gated host start scope prior opId w)
    (hc : c.idle) : Gated host start scope prior opId (answer host f c w).2 := by
  refine ⟨h.1.trans ?_, h.2.idle hc⟩
  have hwrites : ∀ step, c.writes ≠ some step := by
    intro step
    rw [hc.1]
    exact (Option.some_ne_none _).symm
  obtain ⟨threw, landed, -, -, -, hmissed, hlanded, -⟩ := answer_cases host f c w
  cases landed with
  | false => exact hmissed rfl
  | true =>
    have hclock : w.Alike { w with clock := w.clock + f.elapsedMs } := ⟨rfl, rfl, rfl, rfl⟩
    have hserved : World.Alike { w with clock := w.clock + f.elapsedMs }
        (serve host f { w with clock := w.clock + f.elapsedMs } c).2 :=
      ⟨serve_journal (hwrites _), serve_table (hwrites _) (hwrites _), serve_grants (hwrites _),
        serve_events hc.2⟩
    exact hclock.trans (hserved.trans (hlanded rfl).2)

variable {α : Type} {p : P α}

theorem idle_spec (hp : Only Call.idle p) (h : Gated host start scope prior opId w) :
    Ends host p (Post (fun _ => Gated host start scope prior opId)
        (fun _ => Gated host start scope prior opId)) w :=
  hp.post (fun _ _ _ hc h => h.idle hc) h

theorem reading_spec (hc : c.idle) (h : Gated host start scope prior opId w) :
    Ends host (perform c : P c.Reply) (Post (fun r w' => Gated host start scope prior opId w' ∧
          ∃ f v, start.Alike v ∧ (serve host f v c).1 = .ok r)
        (fun _ => Gated host start scope prior opId)) w := by
  refine ⟨trivial, fun f => ?_⟩
  have hgated : Gated host start scope prior opId (answer host f c w).2 := h.idle hc
  obtain ⟨threw, landed, -, hthrew, -, -, -, hreply⟩ := answer_cases host f c w
  show Post _ _ (answer host f c w).1 (answer host f c w).2
  cases hr : (answer host f c w).1 with
  | error err => exact hgated
  | ok r =>
    refine ⟨hgated, f, { w with clock := w.clock + f.elapsedMs }, h.1.trans ⟨rfl, rfl, rfl, rfl⟩, ?_⟩
    rw [hr] at hthrew hreply
    refine (hreply ?_).symm
    cases threw with
    | false => rfl
    | true => cases hthrew

theorem only_call (hw : c.writes = none) (hc : c.fallible = true) :
    Only Call.idle (perform c : P c.Reply) := only_perform ⟨hw, hc⟩

theorem resolveArtifact_idle (sh : SagaHost) (input : InstallPipelineInput) :
    Only Call.idle (resolveArtifact sh input) := by
  refine Only.bind (only_call rfl rfl) fun resolved => ?_
  split
  · exact only_throwErr _
  · exact only_pure _

theorem gcUnlessLive_idle (priorOp : Option InstallOp) (mat : Materialized) :
    Only Call.idle (gcUnlessLive priorOp mat) := by
  rw [gcUnlessLive]
  split
  · exact only_pure _
  · exact Only.swallow (only_call rfl rfl)

theorem hostCompatGate_idle (sh : SagaHost) (input : InstallPipelineInput) (version : String)
    (priorOp : Option InstallOp) (mat : Materialized) :
    Only Call.idle (hostCompatGate sh input version priorOp mat) := by
  refine Only.bind (only_call rfl rfl) fun sdkAbiRange => ?_
  split
  · exact only_pure _
  · exact Only.bind (gcUnlessLive_idle priorOp mat) fun _ => only_throwErr _

theorem readEdges_idle (priorOp : Option InstallOp) (mat : Materialized) :
    Only Call.idle (readEdges priorOp mat) :=
  Only.tryCatch (only_call rfl rfl) fun _ =>
    Only.bind (gcUnlessLive_idle priorOp mat) fun _ => only_throwErr _

theorem activationGate_idle (sh : SagaHost) (input : InstallPipelineInput) (mat : Materialized)
    (tier : ExtWorkflowSaga.ExtensionTrustTier) (requestedPorts : List String) :
    Only Call.idle (activationGate sh input mat tier requestedPorts) := by
  have hports : Only Call.idle (probePorts sh input.scope tier requestedPorts) := by
    rw [probePorts]
    split
    · exact only_pure _
    · exact Only.bind (only_call rfl rfl) fun _ => only_pure _
  rw [activationGate]
  split
  · exact only_pure _
  refine Only.bind hports fun ports => Only.bind (only_call rfl rfl) fun verdict => ?_
  split
  · exact Only.bind (Only.swallow (only_call rfl rfl)) fun _ => only_throwErr _
  · exact only_pure _
  · exact only_pure _

theorem capture_spec (hp : prior ∈ finalizedOps start.journal scope)
    (h : Gated host start scope prior opId w) : Ends host (capture scope (some prior))
      (Post (fun cap w' => cap = captured start scope ∧ Gated host start scope prior opId w')
        (fun _ => Gated host start scope prior opId)) w := by
  have hfinal : (some prior).any InstallOp.isFinalized = true :=
    decide_eq_true (mem_finalizedOps.mp hp).2.1
  rw [capture, if_pos hfinal]
  refine Spec.post_bind (reading_spec ⟨rfl, rfl⟩ h) ?_
  rintro source w₁ ⟨h₁, f₁, v₁, hv₁, hr₁⟩
  refine Spec.post_bind (reading_spec ⟨rfl, rfl⟩ h₁) ?_
  rintro grant w₂ ⟨h₂, f₂, v₂, hv₂, hr₂⟩
  refine Spec.post_bind (reading_spec ⟨rfl, rfl⟩ h₂) ?_
  rintro edges w₃ ⟨h₃, f₃, v₃, hv₃, hr₃⟩
  refine ⟨?_, h₃⟩
  rw [← Except.ok.inj hr₁, ← Except.ok.inj hr₂, ← Except.ok.inj hr₃, captured, World.source,
    World.grant, World.grant, World.edges, hv₁.table, hv₂.grants, hv₃.table]

variable {input : InstallPipelineInput} {drawn : String}

/-- **The gates change nothing**, and hand on what is installed. -/
theorem passGates_spec (hp : prior ∈ finalizedOps start.journal input.scope)
    (h : Gated host start input.scope prior opId w) :
    Ends host (passGates host.toSagaHost input drawn)
      (Post (fun x w' => x.1.scope = input.scope ∧ x.1.opId = input.opId drawn ∧
          x.2.1 = some prior ∧ x.2.2 = captured start input.scope ∧
          Gated host start input.scope prior opId w')
        (fun _ => Gated host start input.scope prior opId)) w := by
  refine Spec.post_bind (idle_spec (resolveArtifact_idle _ _) h) fun artifact w₁ h₁ => ?_
  refine Spec.post_bind (idle_spec (only_call rfl rfl) h₁) fun mat w₂ h₂ => ?_
  refine Spec.post_bind (idle_spec (only_call rfl rfl) h₂) fun requestedPorts w₃ h₃ => ?_
  refine Spec.post_bind (reading_spec ⟨rfl, rfl⟩ h₃) ?_
  rintro priorOp w₄ ⟨h₄, f, v, hv, hr⟩
  have hprior : priorOp = some prior := by
    rw [← Except.ok.inj hr, hv.journal]
    exact readInstallOp_eq hp
  subst hprior
  refine Spec.post_bind (idle_spec (hostCompatGate_idle _ _ _ _ _) h₄) fun _ w₅ h₅ => ?_
  refine Spec.post_bind (idle_spec (readEdges_idle _ _) h₅) fun dependencyEdges w₆ h₆ => ?_
  refine Spec.post_bind (idle_spec (activationGate_idle _ _ _ _ _) h₆) fun _ w₇ h₇ => ?_
  refine Spec.post_bind (capture_spec hp h₇) ?_
  rintro cap w₈ ⟨rfl, h₈⟩
  exact ⟨rfl, rfl, rfl, rfl, h₈⟩

/-! ## The journaled region -/

/-- The update is under way: the pin is in place and nothing was reported. -/
def Working (host : RegistryHost) (start : World) (scope : Scope) (prior : InstallOp)
    (opId : String) (w : World) : Prop :=
  Unwinding host start scope prior opId False [.journal] w ∧ w.events = []

/-- A statement of the journal on the update's own op. -/
def Call.ofOp (opId : String) (scope : Scope) : Call → Prop
  | .beginInstallOp id s _ => id = opId ∧ s = scope
  | .advanceInstallOpPhase id _ => id = opId
  | _ => False

/-- A call of the journaled region, short of the finalize. -/
def Call.journaled (opId : String) (scope : Scope) (c : Call) : Prop :=
  c.own scope ∧ c.fallible = true ∧ c.restoresSource = false ∧
    (c.writes ≠ some .journal ∨ c.ofOp opId scope)

theorem journaled_answer (hc : c.ofOp opId scope) : (answer host f c w).2.journal = w.journal ∨
      Journaled opId scope w.journal (answer host f c w).2.journal := by
  obtain ⟨threw, landed, -, -, -, hmissed, hlanded, -⟩ := answer_cases host f c w
  cases landed with
  | false => exact .inl (hmissed rfl).journal
  | true =>
    obtain ⟨hok, halike⟩ := hlanded rfl
    rw [halike.journal]
    cases c with
    | beginInstallOp id s digest =>
      obtain ⟨rfl, rfl⟩ := hc
      obtain ⟨j, hj, hjournal⟩ := statement_ok hok
      have hrun := journaled_begin hj
      rw [← hjournal] at hrun
      exact .inr hrun
    | advanceInstallOpPhase id phase =>
      obtain rfl : id = opId := hc
      obtain ⟨j, hj, hjournal⟩ := statement_ok hok
      have hrun : Journaled id scope w.journal j := journaled_advance hj
      rw [← hjournal] at hrun
      exact .inr hrun
    | _ => exact hc.elim

/-- **A call of the journaled region keeps the pin**, and the axes it is not of. -/
theorem Unwinding.journaled (hid : prior.installOpId ≠ opId)
    (h : Unwinding host start scope prior opId lost [.journal] w) (hc : c.journaled opId scope) :
    Unwinding host start scope prior opId lost [.journal] (answer host f c w).2 := by
  obtain ⟨hown, hfallible, hrestores, hjournal⟩ := hc
  have hfinalize : c ≠ .finalizeInstallOp opId := by
    rintro rfl
    exact hjournal.elim (fun hw => hw rfl) id
  have hpin : Held opId scope prior (ExtRegistry.answer host f c w).2.journal ∧
      (Back start scope prior (ExtRegistry.answer host f c w).2 .journal ↔
        Back start scope prior w .journal) := by
    rcases hjournal with hw | hof
    · exact ⟨held_answer h.held (.inl hw), back_answer hown hw⟩
    · rcases journaled_answer hof with heq | hj
      · rw [heq]
        exact ⟨h.held, by rw [Back, Back, heq]⟩
      · exact ⟨h.held.journaled hid hj, pinned_journaled hid hj⟩
  refine h.kept hown hfallible hrestores hfinalize hpin.1 fun step hstep => ?_
  obtain rfl : step = .journal := hstep.elim id List.mem_singleton.mp
  exact hpin.2

theorem working_spec (hid : prior.installOpId ≠ opId)
    (hp : Only (Call.journaled opId scope) p) (h : Working host start scope prior opId w) :
    Ends host p (Post (fun _ => Working host start scope prior opId)
        (fun _ => Working host start scope prior opId)) w :=
  hp.post (fun _ _ _ hc hI => ⟨hI.1.journaled hid hc, (events_answer hc.2.1).trans hI.2⟩) h

theorem only_journaled (hown : c.own scope) (hc : c.fallible = true)
    (hrestores : c.restoresSource = false) (hw : c.writes ≠ some .journal) :
    Only (Call.journaled opId scope) (perform c : P c.Reply) :=
  only_perform ⟨hown, hc, hrestores, .inl hw⟩

theorem only_ofOp (hown : c.own scope) (hc : c.fallible = true)
    (hrestores : c.restoresSource = false) (hof : c.ofOp opId scope) :
    Only (Call.journaled opId scope) (perform c : P c.Reply) :=
  only_perform ⟨hown, hc, hrestores, .inr hof⟩

theorem advance_only (phase : InstallOpPhase) :
    Only (Call.journaled opId scope) (perform (Call.advanceInstallOpPhase opId phase) : P Unit) :=
  only_ofOp trivial rfl rfl rfl

theorem grantAndMigrate_only (a : Attempt) :
    Only (Call.journaled a.opId a.scope) (grantAndMigrate a) := by
  have hgrant : ∀ c : Call, c.writes = some .grant → c.writes ≠ some .journal := by
    intro c hc
    rw [hc]
    decide
  refine Only.bind (only_ofOp trivial rfl rfl ⟨rfl, rfl⟩) fun _ => ?_
  refine Only.bind (only_journaled rfl rfl rfl (hgrant _ rfl)) fun _ => ?_
  refine Only.bind (onlyIf_only (only_journaled rfl rfl rfl (hgrant _ rfl))) fun _ => ?_
  refine Only.bind (advance_only _) fun _ => ?_
  refine Only.bind (only_journaled trivial rfl rfl nofun) fun declaresMigrations => ?_
  split
  · exact only_throwErr _
  · exact onlyIf_only (Only.bind (only_journaled trivial rfl rfl nofun) fun _ => advance_only _)

theorem lateWrites_only (a : Attempt) : Only (Call.journaled a.opId a.scope) (lateWrites a) := by
  refine Only.bind (only_journaled rfl rfl rfl ?_) fun _ => ?_
  · exact fun h => DurableStep.noConfusion (Option.some.inj h)
  refine Only.bind (only_journaled rfl rfl rfl ?_) fun _ => ?_
  · exact fun h => DurableStep.noConfusion (Option.some.inj h)
  exact onlyIf_only (only_journaled trivial rfl rfl nofun)

/-- **The finalize**: where it throws after it took effect, the pin is lost. -/
theorem finalize_spec (hid : prior.installOpId ≠ opId) (h : Working host start scope prior opId w) :
    Ends host (perform <| Call.finalizeInstallOp opId)
      (Post (fun _ => Unwinding host start scope prior opId False [])
        (fun _ w' => ∃ lost, Unwinding host start scope prior opId lost [.journal] w')) w := by
  obtain ⟨h, hquiet⟩ := h
  refine ⟨trivial, fun f => ?_⟩
  show Post _ _ (answer host f (.finalizeInstallOp opId) w).1
    (answer host f (.finalizeInstallOp opId) w).2
  obtain ⟨threw, landed, hlog, hthrew, hlands, hmissed, hlanded, -⟩ :=
    answer_cases host f (.finalizeInstallOp opId) w
  have htrace : Trace host start scope (answer host f (.finalizeInstallOp opId) w).2 :=
    h.trace.answer trivial
  have hheld : Held opId scope prior (answer host f (.finalizeInstallOp opId) w).2.journal :=
    held_answer h.held (.inr ⟨opId, rfl⟩)
  have hevents : (answer host f (.finalizeInstallOp opId) w).2.events = w.events :=
    events_answer rfl
  have hsource : Told (answer host f (.finalizeInstallOp opId) w).2 .provenance ↔
      RestoreThrew (answer host f (.finalizeInstallOp opId) w).2 := by
    rw [told_of_events hevents, h.toldSource, restoreThrew_append hlog]
    simp [Call.restoresSource]
  have hgrant : Told (answer host f (.finalizeInstallOp opId) w).2 .grant →
      start.grant scope ≠ none := by
    rw [told_of_events hevents]
    exact h.toldGrant
  have hentry : lostEntry opId ∈ (answer host f (.finalizeInstallOp opId) w).2.log ↔
      threw = true ∧ landed = true := by
    rw [hlog, List.mem_append, List.mem_singleton, h.entry, false_or, lostEntry, Entry.mk.injEq]
    constructor
    · rintro ⟨-, ht, hl⟩
      exact ⟨ht.symm, hl.symm⟩
    · rintro ⟨ht, hl⟩
      exact ⟨rfl, ht.symm, hl.symm⟩
  cases hr : (answer host f (.finalizeInstallOp opId) w).1 with
  | ok _ =>
    rw [hr] at hthrew
    have hfalse : threw = false := by simpa [isOk] using hthrew.symm
    refine ⟨htrace, hheld, hsource, hgrant, ?_, False.elim,
      fun step hs _ => absurd hs List.not_mem_nil⟩
    rw [hentry, hfalse]
    simp
  | error err =>
    rw [hr] at hthrew
    have htrue : threw = true := by simpa [isOk] using hthrew.symm
    refine ⟨landed = true, htrace, hheld, hsource, hgrant, ?_, fun hl => ?_, fun step hs hdue => ?_⟩
    · rw [hentry, htrue]
      simp
    · -- it took effect: the update has the pin, and nobody was told
      obtain ⟨hserved, halike⟩ := hlanded hl
      obtain ⟨j, hj, hjournal⟩ := statement_ok hserved
      rintro (hback | ⟨event, hevent, -⟩)
      · rw [Back, halike.journal.trans hjournal] at hback
        exact not_pinned_finalize h.held hid hj hback
      · rw [hevents, hquiet] at hevent
        cases hevent
    · obtain rfl : step = .journal := List.mem_singleton.mp hs
      cases landed with
      | true => exact absurd rfl hdue
      | false =>
        rw [Accounted, back_alike (hmissed rfl), told_of_events hevents]
        exact h.done .journal hs id

variable {a : Attempt}

theorem journaled_spec (hid : prior.installOpId ≠ a.opId)
    (h : Working host start a.scope prior a.opId w) : Ends host (journaled a)
      (Post (fun _ => Unwinding host start a.scope prior a.opId False [])
        (fun _ w' => ∃ lost, Unwinding host start a.scope prior a.opId lost [.journal] w')) w := by
  have hpart : ∀ {p : P Unit} {w₁ : World}, Only (Call.journaled a.opId a.scope) p →
      Working host start a.scope prior a.opId w₁ →
      Ends host p (Post (fun _ => Working host start a.scope prior a.opId)
          (fun _ w' => ∃ lost, Unwinding host start a.scope prior a.opId lost [.journal] w')) w₁ := by
    intro p w₁ hp h₁
    refine Spec.mono (working_spec hid hp h₁) ?_
    intro r w' hr
    cases r with
    | ok _ => exact hr
    | error err => exact ⟨False, hr.1⟩
  refine Spec.post_bind (hpart (grantAndMigrate_only a) h) fun _ w₁ h₁ => ?_
  exact Spec.post_bind (hpart (lateWrites_only a) h₁) fun _ w₂ h₂ => finalize_spec hid h₂

/-- **The catch block** goes through all axes and throws. -/
theorem abort_spec {err : SagaError} (hid : prior.installOpId ≠ a.opId)
    (h : Unwinding host start a.scope prior a.opId lost [.journal] w) :
    Ends host (abort a (captured start a.scope) err : P α) (Post (fun _ _ => False)
        (fun _ => Unwinding host start a.scope prior a.opId lost durableSteps)) w := by
  have hend : ∀ phase w₁, Unwinding host start a.scope prior a.opId lost [.journal] w₁ →
      Ends host (perform <| Call.advanceInstallOpPhase a.opId phase)
        (fun _ => Unwinding host start a.scope prior a.opId lost [.journal]) w₁ :=
    fun phase w₁ h₁ => ⟨trivial, fun f => h₁.journaled hid ⟨trivial, rfl, rfl, .inr rfl⟩⟩
  refine Spec.post_bind (M := fun _ w' =>
    Unwinding host start a.scope prior a.opId lost [.journal] w') ?_ fun _ w₁ h₁ => ?_
  · refine Spec.swallow (Spec.bind (Spec.mono (hend .failed w h) ?_))
    intro r w₁ h₁
    cases r with
    | error err => exact h₁
    | ok _ => exact hend .rolledBack w₁ h₁
  refine Spec.post_bind (M := fun _ w' =>
    Unwinding host start a.scope prior a.opId lost durableSteps w') ?_ fun _ w₂ h₂ => h₂
  refine Spec.post_bind (restoreGrant_spec hid h₁) fun _ w₂ h₂ => ?_
  refine Spec.post_bind (restoreSource_spec hid h₂) fun _ w₃ h₃ => ?_
  refine Spec.post_bind (restoreEdges_spec hid h₃) fun _ w₄ h₄ => ?_
  exact h₄.fewer fun step _ => by cases step <;> decide

variable {E : SagaError → World → Prop}

/-- **The rollback** goes through all axes, the journal too. -/
theorem restoreDurableAnchor_spec (hid : prior.installOpId ≠ opId)
    (h : Unwinding host start scope prior opId False done w) :
    Ends host (restoreDurableAnchor scope prior (captured start scope))
      (Post (fun _ => Unwinding host start scope prior opId False durableSteps) E) w := by
  refine Spec.post_bind (restoreSource_spec hid h) fun _ w₁ h₁ => ?_
  refine Spec.post_bind (restoring_journal hid not_false h₁) fun _ w₂ h₂ => ?_
  refine Spec.post_bind (restoreGrant_spec hid h₂) fun _ w₃ h₃ => ?_
  refine Spec.post_bind (restoreEdges_spec hid h₃) fun _ w₄ h₄ => ?_
  refine h₄.fewer fun step hs => ?_
  cases step <;> simp

theorem attemptRestore_spec (hid : prior.installOpId ≠ opId)
    (h : Unwinding host start scope prior opId False done w) :
    Ends host (restoreDurableAnchor scope prior (captured start scope)).attempt
      (Post (fun _ => Unwinding host start scope prior opId False durableSteps) E) w := by
  have hrestore : Ends host (restoreDurableAnchor scope prior (captured start scope))
      (Post (fun _ => Unwinding host start scope prior opId False durableSteps)
        (fun _ => Unwinding host start scope prior opId False durableSteps)) w :=
    restoreDurableAnchor_spec hid h
  refine Spec.attempt (Spec.mono hrestore ?_)
  intro r w' hr
  cases r with
  | ok | error => exact hr

/-! ## Activation -/

/-- The rollback so far: what was rolled back has gone through all axes. -/
def RolledBack (host : RegistryHost) (start : World) (scope : Scope) (prior : InstallOp)
    (opId : String) (res : HotUpdateActivateResult) (w : World) : Prop :=
  Unwinding host start scope prior opId False [] w ∧
    (res.rolledBack = true → Unwinding host start scope prior opId False durableSteps w)

theorem activating_spec {Q : α → World → Prop}
    (hp : Only Call.idle p) (h : Unwinding host start scope prior opId lost done w)
    (hQ : ∀ a w', Unwinding host start scope prior opId lost done w' → Q a w')
    (hE : ∀ err w', Unwinding host start scope prior opId lost done w' → E err w') :
    Ends host p (Post Q E) w := by
  refine Spec.mono (hp.spec (fun _ _ _ hc h => h.idle hc) h) ?_
  intro r w' hr
  cases r with
  | ok a => exact hQ a w' hr
  | error err => exact hE err w' hr

theorem summarizeActivation_rolledBack (results : List ActivationResult) (packageName : String) :
    (summarizeActivation results packageName).rolledBack = false := by
  rw [summarizeActivation]
  split
  · rfl
  · rfl

variable {cap : Captured} {newStoreDir : String}

theorem rollBack_spec {failReason : String} {grantedPorts quarantined : List String}
    (hid : prior.installOpId ≠ opId) (h : Unwinding host start scope prior opId False [] w) :
    Ends host (rollBack scope newStoreDir grantedPorts quarantined failReason
        (restoreDurableAnchor scope prior (captured start scope)))
      (Post (fun res w' => RolledBack host start scope prior opId res w')
        (fun _ => Unwinding host start scope prior opId False [])) w := by
  refine Spec.post_bind (attemptRestore_spec hid h) fun outcome w₁ h₁ => ?_
  refine activating_spec ?_ h₁ (fun res w' h' => ⟨h'.fewer nofun, fun _ => h'⟩)
    fun err w' h' => h'.fewer nofun
  refine Only.bind (Only.swallow (only_call rfl rfl)) fun _ => ?_
  refine Only.bind (Only.swallow (only_call rfl rfl)) fun _ => ?_
  refine Only.bind (only_call rfl rfl) fun storeFailed => ?_
  exact Only.bind (Only.swallow (only_call rfl rfl)) fun _ => only_pure _

theorem hotUpdate_spec (hid : prior.installOpId ≠ opId)
    (h : Unwinding host start scope prior opId False [] w) :
    Ends host (hotUpdateWithDurableRollback scope newStoreDir
        (restoreDurableAnchor scope prior (captured start scope)))
      (Post (fun res w' => RolledBack host start scope prior opId res w')
        (fun _ => Unwinding host start scope prior opId False [])) w := by
  have hstep : ∀ {α : Type} {p : P α} {w₁ : World}, Only Call.idle p →
      Unwinding host start scope prior opId False [] w₁ →
      Ends host p (Post (fun _ => Unwinding host start scope prior opId False [])
          (fun _ => Unwinding host start scope prior opId False [])) w₁ :=
    fun hp h₁ => activating_spec hp h₁ (fun _ _ h' => h') fun _ _ h' => h'
  refine Spec.post_bind (hstep (only_call rfl rfl) h) fun superseded w₁ h₁ => ?_
  split
  · refine Spec.post_bind (hstep (only_call rfl rfl) h₁) fun results w₂ h₂ => ⟨h₂, ?_⟩
    rw [summarizeActivation_rolledBack]
    exact nofun
  refine Spec.post_bind (hstep (Only.tryCatch (only_call rfl rfl) fun _ => only_pure _) h₁)
    fun grantedPorts w₂ h₂ => ?_
  refine Spec.post_bind (hstep (only_call rfl rfl) h₂) fun _ w₃ h₃ => ?_
  refine Spec.post_bind (hstep (only_call rfl rfl) h₃) fun quarantined w₄ h₄ => ?_
  refine Spec.post_bind (hstep (Only.tryCatch (only_call rfl rfl) fun _ => only_pure _) h₄)
    fun results w₅ h₅ => ?_
  dsimp only
  split
  · exact Spec.post_bind (hstep (only_call rfl rfl) h₅) fun _ w₆ h₆ => ⟨h₆, nofun⟩
  · exact rollBack_spec hid h₅

/-- **The activation**: what it reports rolled back has gone through all axes. -/
theorem activate_spec (hid : prior.installOpId ≠ a.opId)
    (h : Unwinding host start a.scope prior a.opId False [] w) :
    Ends host (activate a (some prior) (captured start a.scope))
      (Post (fun res w' => RolledBack host start a.scope prior a.opId res w')
        (fun _ _ => False)) w := by
  rw [activate]
  split
  · rename_i p hsuperseding
    have hp : p = prior := by
      rw [superseding, captured, if_pos rfl, Option.filter_eq_some_iff] at hsuperseding
      exact (Option.some.inj hsuperseding.1).symm
    subst hp
    refine Spec.post_bind (M := Post
      (fun res w' => RolledBack host start a.scope p a.opId res w')
      (fun _ => Unwinding host start a.scope p a.opId False [])) ?_ fun r w₁ h₁ => ?_
    · exact Spec.attempt (hotUpdate_spec hid h)
    cases r with
    | ok res => exact h₁
    | error err =>
      refine Spec.post_bind (attemptRestore_spec hid h₁) fun outcome w₂ h₂ => ?_
      exact ⟨h₂.fewer (List.nil_subset _), fun _ => h₂⟩
  · have hcall : Ends host (perform (Call.activateInstalledPackageInProcess a.scope a.mat.storeDir))
        (Post (fun _ => Unwinding host start a.scope prior a.opId False [])
          (fun _ => Unwinding host start a.scope prior a.opId False [])) w :=
      activating_spec (only_call rfl rfl) h (fun _ _ h' => h') fun _ _ h' => h'
    refine Spec.tryCatch (Spec.bind (Spec.mono hcall ?_))
    intro r w₁ hr
    cases r with
    | error err => exact ⟨hr, fun h => absurd h Bool.false_ne_true⟩
    | ok results =>
      refine ⟨hr, fun h => ?_⟩
      rw [summarizeActivation_rolledBack] at h
      cases h

/-! ## The whole update -/

/-- The update did not take: it throws, or it reports a complete rollback. -/
def DidNotTake : Except SagaError InstallPipelineResult → Prop
  | .error _ => True
  | .ok res => res.rolledBack = true ∧ res.rollbackComplete = some true

/-- It throws, or it reports a rollback, complete or not. -/
def Unwound : Except SagaError InstallPipelineResult → Prop
  | .error _ => True
  | .ok res => res.rolledBack = true

theorem DidNotTake.unwound {r : Except SagaError InstallPipelineResult} (h : DidNotTake r) :
    Unwound r := by
  cases r with
  | error err => trivial
  | ok res => exact h.1

theorem update_spec (hp : prior ∈ finalizedOps start.journal input.scope)
    (hid : prior.installOpId ≠ input.opId drawn)
    (h : Gated host start input.scope prior (input.opId drawn) start) (hquiet : start.events = []) :
    Ends host (installExtensionFromRegistry host.toSagaHost input drawn)
      (fun r w' => Unwound r → ∃ lost,
        Unwinding host start input.scope prior (input.opId drawn) lost durableSteps w') start := by
  refine Spec.bind (Spec.mono (passGates_spec hp h) ?_)
  intro r w₁ hr
  cases r with
  | error err => exact fun _ => ⟨False, hr.2⟩
  | ok x =>
    obtain ⟨a, priorOp, cap⟩ := x
    obtain ⟨hscope, hopId, hprior, hcap, halike, hgated⟩ := hr
    simp only at hscope hopId hprior hcap
    subst hprior hcap
    rw [← hscope, ← hopId] at hgated ⊢
    rw [← hopId] at hid
    have hworking : Working host start a.scope prior a.opId w₁ :=
      ⟨hgated.fewer fun step _ => mem_durableSteps step, halike.events.trans hquiet⟩
    refine Spec.bind (Spec.attempt (Spec.mono (journaled_spec hid hworking) ?_))
    intro r w₂ hr
    cases r with
    | error err =>
      obtain ⟨lost, hlost⟩ := hr
      refine Spec.mono (abort_spec hid hlost) ?_
      intro r w₃ hr _
      cases r with
      | ok _ => exact hr.elim
      | error err => exact ⟨lost, hr⟩
    | ok _ =>
      refine Spec.bind (Spec.mono (activate_spec hid hr) ?_)
      intro r w₃ hr
      cases r with
      | error err => exact hr.elim
      | ok res => exact fun hback => ⟨False, hr.2 hback⟩

/-- What is dealt with in the end: the finalize of the update did not throw after it
    took effect; a grant was written only where there was one; and the source was
    written only where the restore puts it back, or the restore threw. -/
structure Covered (host : RegistryHost) (start : World) (scope : Scope) (opId : String)
    (w : World) : Prop where
  journal : lostEntry opId ∉ w.log
  grant : start.grant scope = none → ¬ Landed w .grant
  source : Restorable host (start.source scope) ∨ ¬ Landed w .provenance ∨ RestoreThrew w

/-- With all axes gone through, those that are neither back nor told are read off
    the log. -/
theorem Unwinding.accounted_iff (h : Unwinding host start scope prior opId lost durableSteps w) :
    (∀ step, Accounted start scope prior w step) ↔ Covered host start scope opId w := by
  have hdone : ∀ step, Due host start scope lost step → Accounted start scope prior w step :=
    fun step => h.done step (mem_durableSteps step)
  constructor
  · intro hall
    refine ⟨fun hmem => h.pin (h.entry.mp hmem) (hall .journal), fun hnone hland => ?_, ?_⟩
    · rcases hall .grant with hback | htold
      · exact h.trace.granted hland (Eq.trans hback hnone)
      · exact h.toldGrant htold hnone
    · by_cases hland : Landed w .provenance
      · rcases hall .provenance with hback | htold
        · obtain ⟨p, hp, hurl⟩ := h.trace.sourced hland
          exact .inl ⟨p, hback.symm.trans hp, hurl⟩
        · exact .inr (.inr (h.toldSource.mp htold))
      · exact .inr (.inl hland)
  · rintro hcovered step
    cases step with
    | journal => exact hdone .journal fun hlost => hcovered.journal (h.entry.mpr hlost)
    | dependencies => exact hdone .dependencies trivial
    | grant =>
      by_cases hnone : start.grant scope = none
      · exact .inl (h.trace.grant (hcovered.grant hnone))
      · exact hdone .grant hnone
    | provenance =>
      rcases hcovered.source with hsource | hland | hthrew
      · exact hdone .provenance hsource
      · exact .inl (h.trace.source hland)
      · exact .inr (h.toldSource.mpr hthrew)

/-- Before the first call nothing is written, and every axis is as it was. -/
theorem gated_start (hp : prior ∈ finalizedOps start.journal scope)
    (hfresh : ∀ op ∈ start.journal.rows, op.installOpId ≠ opId) (hquiet : start.events = [])
    (hlog : start.log = []) : Gated host start scope prior opId start := by
  have hnone : ∀ step, ¬ Told start step := by
    rintro step ⟨event, hevent, -⟩
    rw [hquiet] at hevent
    cases hevent
  have hland : ∀ step, ¬ Landed start step := by
    rintro step ⟨e, he, -⟩
    rw [hlog] at he
    cases he
  have hthrew : ¬ RestoreThrew start := by
    rintro ⟨e, he, -⟩
    rw [hlog] at he
    cases he
  obtain ⟨hmem, -, hscope⟩ := mem_finalizedOps.mp hp
  refine ⟨World.Alike.refl start, ⟨fun _ => rfl, fun h => absurd h (hland _), fun _ => rfl,
    fun h => absurd h (hland _), rfl⟩, ⟨⟨prior, hmem, rfl, hscope⟩, fun r hr hid => ?_⟩, ?_, ?_, ?_,
    False.elim, fun step _ _ => .inl ?_⟩
  · exact absurd hid (hfresh r hr)
  · exact iff_of_false (hnone _) hthrew
  · exact fun h => absurd h (hnone _)
  · rw [hlog]
    exact iff_of_false List.not_mem_nil id
  · cases step with
    | journal => exact ⟨prior, hp, rfl⟩
    | provenance | grant | dependencies => rfl

/-- **A failed update re-pins the previous install, or says so, exactly where it is
    covered.**  For every pattern of failing calls: the previous op is the finalized
    one of the scope, and the source, the edges and the grant are as they were, or an
    event tells of the axis that is not. -/
theorem repinned_iff (input : InstallPipelineInput) (drawn : String)
    (hprior : prior ∈ finalizedOps start.journal input.scope)
    (hfresh : ∀ op ∈ start.journal.rows, op.installOpId ≠ input.opId drawn)
    (hquiet : start.events = []) (hlog : start.log = []) (s : Nat → Answer)
    (hfailed : DidNotTake (registryRun host input drawn s start).1) :
    (∀ step, Accounted start input.scope prior (registryRun host input drawn s start).2 step) ↔
      Covered host start input.scope (input.opId drawn)
        (registryRun host input drawn s start).2 := by
  have hid : prior.installOpId ≠ input.opId drawn := hfresh prior (mem_finalizedOps.mp hprior).1
  have hgated : Gated host start input.scope prior (input.opId drawn) start :=
    gated_start hprior hfresh hquiet hlog
  obtain ⟨lost, h⟩ := (update_spec hprior hid hgated hquiet).run s hfailed.unwound
  exact h.accounted_iff

/-! ## An update whose finalize is cut off -/

/-- A registry that is not trusted; every check of the host passes. -/
def plainHost : RegistryHost where
  sha256 := String.ofList
  parseMaterializationPlan := fun _ => .error (.step "no plan")
  computeClosureHash := fun _ => ""
  resolveSignatureVerdict := fun _ _ _ _ _ => none
  registryHostOf := fun _ => some "registry"
  trustedActivationHosts := []
  allowMarketplaceBootstrapTrust := false
  compatible := fun _ => true
  formatHostSdkCompatRefusal := fun _ _ _ _ => "refused"
  gatekept := false
  finalRegistryUrl := "https://registry"

/-- Version 2 as the registry serves it; it asks for no port. -/
def versionTwo : (c : Call) → c.Reply
  | .resolveIntegrity _ _ => ⟨"sha512-2", "https://registry", none, none, some "2", none⟩
  | .materialize _ _ _ _ _ _ => ⟨"store-2", "digest-2", "sha512-2", "hash-2"⟩
  | .readRequestedPorts _ | .resolveApprovedPorts _ | .readQuarantineManifest _
  | .restoreQuarantined _ => []
  | .readInstallOp _ => none
  | .readDeclaredCompat _ => none
  | .readDependencyEdges _ => []
  | .readGrantForScope _ => none
  | .verifyActivatableBeforeFinalize _ _ _ => .activatable
  | .readCurrentSource _ => none
  | .readCurrentDependencies _ => none
  | .preflightMigrations _ _ => false
  | .discoverSupersededStoreDirs _ _ => true
  | .loadOnlyPackage _ _ | .activateInstalledPackageInProcess _ _ => []
  | .gcStoreDir _ | .beginInstallOp _ _ _ | .recordRequestedGrant _ _ | .approveGrant _ _ _ _
  | .advanceInstallOpPhase _ _ | .applyMigrations _ _ _ | .recordProvenance _ _ _
  | .persistDependencyEdges _ _ | .assertForwardInstallClosure _ | .finalizeInstallOp _
  | .restoreGrant _ _ | .emitOperationalEvent _ | .quarantineSupersededDigests _ _ _
  | .gcQuarantined _ | .teardownPartialNewRegistration _ _ _ => ()

def toVersionTwo : InstallPipelineInput where
  packageName := "tool"
  version := "2"
  orgId := some "org"

/-- The finalized op of version 1. -/
def opOne : InstallOp :=
  ⟨"tool@1:aaaaaaaa", "tool", some "org", .finalized, some "digest-1", 0, 0⟩

def rowOne : InstalledExtension where
  id := "row"
  packageName := "tool"
  organizationId := some "org"
  kind := .connector
  status := .active
  source := .verdaccio ⟨"https://registry", "tool", "1", "sha512-1", some "hash-1", none, none, none⟩
  dependencies := []

/-- Version 1 is installed, with no port approved. -/
def versionOne : World where
  clock := 0
  journal := ⟨[opOne], by decide⟩
  table := ⟨[rowOne], by decide⟩
  grants := fun scope => if scope = ⟨"tool", some "org"⟩ then
    some ⟨⟨"", .pending, [], none⟩, rfl⟩ else none
  events := []
  log := []

/-- Only the call of this number throws; it may have taken effect. -/
def throwAt (k : Nat) (landed : Bool) : Nat → Answer := fun n =>
  if n = k then { fault := some ⟨.step "timeout", landed⟩, reply := versionTwo }
  else { reply := versionTwo }

theorem repinned_iff_finalizeRefused : (∀ step, Accounted versionOne ⟨"tool", some "org"⟩ opOne
        (registryRun plainHost toVersionTwo "bbbbbbbb" (throwAt 15 false) versionOne).2 step) ↔
      Covered plainHost versionOne ⟨"tool", some "org"⟩ "tool@2:bbbbbbbb"
        (registryRun plainHost toVersionTwo "bbbbbbbb" (throwAt 15 false) versionOne).2 := by
  have hrun : (registryRun plainHost toVersionTwo "bbbbbbbb" (throwAt 15 false) versionOne).1 =
      .error (.step "timeout") := rfl
  refine repinned_iff toVersionTwo "bbbbbbbb" (by decide) (by decide) rfl rfl (throwAt 15 false) ?_
  rw [hrun]
  exact trivial

/-- The finalize takes effect and its answer is lost: the new op is rolled back, the
    previous one stays superseded, and no event tells of it. -/
theorem repin_lost : opOne ∈ finalizedOps versionOne.journal toVersionTwo.scope ∧
      (registryRun plainHost toVersionTwo "bbbbbbbb" (throwAt 15 true) versionOne).1 =
        .error (.step "timeout") ∧ ((registryRun plainHost toVersionTwo "bbbbbbbb" (throwAt 15 true)
        versionOne).2.journal.rows.map fun op => (op.installOpId, op.phase)) =
          [("tool@1:aaaaaaaa", .superseded), ("tool@2:bbbbbbbb", .rolledBack)] ∧
      (registryRun plainHost toVersionTwo "bbbbbbbb" (throwAt 15 true) versionOne).2.events = [] ∧
      ¬ Accounted versionOne toVersionTwo.scope opOne
        (registryRun plainHost toVersionTwo "bbbbbbbb" (throwAt 15 true) versionOne).2 .journal := by
  refine ⟨by decide, rfl, rfl, rfl, ?_⟩
  rintro (⟨op, hop, -⟩ | ⟨event, hevent, -⟩)
  · have hnone : finalizedOps
        (registryRun plainHost toVersionTwo "bbbbbbbb" (throwAt 15 true) versionOne).2.journal
        toVersionTwo.scope = [] := rfl
    rw [hnone] at hop
    cases hop
  · have hnone :
        (registryRun plainHost toVersionTwo "bbbbbbbb" (throwAt 15 true) versionOne).2.events = [] :=
      rfl
    rw [hnone] at hevent
    cases hevent

end ExtRegistry
