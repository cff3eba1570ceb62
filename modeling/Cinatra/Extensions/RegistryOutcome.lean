import Cinatra.Extensions.RegistryRepin

/-! # RegistryOutcome — what any run of the pipeline keeps

    Whatever fails, a run changes no row of another scope and no status, and drops
    no row (`registryRun_rows`); one that returns leaves a finalized op in its scope
    (`registryRun_finalized`); one that is unwound has the previous source back, or
    says that it has not (`registryRun_source`). -/

namespace ExtRegistry

open Process RowTable ExtCanonical ExtClosure ExtInstallOps
open ExtWorkflowSaga (SagaHost SagaError Provenance Materialized)

variable {host : RegistryHost} {w : World} {c : Call} {f : Answer} {scope : Scope}
  {input : InstallPipelineInput} {drawn : String}

/-! ## The rows -/

/-- A row as the steps of a scope leave it. -/
structure Altered (scope : Scope) (r r' : InstalledExtension) : Prop where
  id : r'.id = r.id
  packageName : r'.packageName = r.packageName
  organizationId : r'.organizationId = r.organizationId
  kind : r'.kind = r.kind
  status : r'.status = r.status
  other : (⟨r.packageName, r.organizationId⟩ : Scope) ≠ scope → r' = r

theorem Altered.refl (scope : Scope) (r : InstalledExtension) : Altered scope r r :=
  ⟨rfl, rfl, rfl, rfl, rfl, fun _ => rfl⟩

theorem Altered.trans {r r' r'' : InstalledExtension} (h : Altered scope r r')
    (h' : Altered scope r' r'') : Altered scope r r'' := by
  refine ⟨h'.id.trans h.id, h'.packageName.trans h.packageName,
    h'.organizationId.trans h.organizationId, h'.kind.trans h.kind, h'.status.trans h.status,
    fun hne => ?_⟩
  have hsame := h.other hne
  subst hsame
  exact h'.other hne

/-- The rows, one by one as the steps of a scope leave them. -/
def RowsAltered (scope : Scope) (t t' : CanonicalTable) : Prop :=
  ∃ g, t'.rows = t.rows.map g ∧ ∀ r ∈ t.rows, Altered scope r (g r)

theorem RowsAltered.refl (scope : Scope) (t : CanonicalTable) : RowsAltered scope t t :=
  ⟨id, (List.map_id _).symm, fun r _ => Altered.refl scope r⟩

theorem RowsAltered.trans {t t' t'' : CanonicalTable} (h : RowsAltered scope t t')
    (h' : RowsAltered scope t' t'') : RowsAltered scope t t'' := by
  obtain ⟨g, hg, halt⟩ := h
  obtain ⟨g', hg', halt'⟩ := h'
  refine ⟨g' ∘ g, ?_, fun r hr => ?_⟩
  · rw [hg', hg, List.map_map]
  · refine (halt r hr).trans (halt' (g r) ?_)
    rw [hg]
    exact List.mem_map_of_mem hr

variable {t : CanonicalTable} {row : InstalledExtension}

theorem target_some (h : t.target scope = some row) :
    row ∈ t.rows ∧ (⟨row.packageName, row.organizationId⟩ : Scope) = scope ∧ row.present = true ∧
      ∀ r ∈ t.rows, (⟨r.packageName, r.organizationId⟩ : Scope) = scope → r.present = true →
        r = row := by
  rw [CanonicalTable.target, pickSingleActiveRow] at h
  cases hl : (readInstalledExtensionsByPackageName t.rows scope.packageName).filter
      (fun r => r.present && r.organizationId = scope.orgId) with
  | nil =>
    rw [hl] at h
    cases h
  | cons a rest =>
    cases rest with
    | cons b rest =>
      rw [hl] at h
      cases h
    | nil =>
      rw [hl] at h
      obtain rfl : a = row := Option.some.inj h
      have hmem : ∀ r, r ∈ t.rows → (⟨r.packageName, r.organizationId⟩ : Scope) = scope →
          r.present = true → r = a := by
        intro r hr hscope hpresent
        obtain ⟨hpackage, horg⟩ := Scope.mk.inj hscope
        have hin : r ∈ (readInstalledExtensionsByPackageName t.rows scope.packageName).filter
            (fun r => r.present && r.organizationId = scope.orgId) := by
          refine List.mem_filter.mpr ⟨List.mem_filter.mpr ⟨hr, decide_eq_true hpackage⟩, ?_⟩
          rw [hpresent, decide_eq_true horg]
          rfl
        rw [hl] at hin
        exact List.mem_singleton.mp hin
      have ha : a ∈ (readInstalledExtensionsByPackageName t.rows scope.packageName).filter
          (fun r => r.present && r.organizationId = scope.orgId) := by
        rw [hl]
        exact List.mem_singleton.mpr rfl
      obtain ⟨hin, hlive⟩ := List.mem_filter.mp ha
      obtain ⟨hrow, hpackage⟩ := List.mem_filter.mp hin
      obtain ⟨hpresent, horg⟩ := Bool.and_eq_true_iff.mp hlive
      refine ⟨hrow, ?_, hpresent, fun r hr hs hp => hmem r hr hs hp⟩
      rw [of_decide_eq_true hpackage, of_decide_eq_true horg]

theorem RowsAltered.target {t t' : CanonicalTable} (h : RowsAltered scope t t') :
    (t'.target scope).isSome = (t.target scope).isSome := by
  obtain ⟨g, hg, halt⟩ := h
  have hfilter : ∀ (p : InstalledExtension → Bool) (rows : List InstalledExtension),
      (∀ r ∈ rows, p (g r) = p r) → (rows.map g).filter p = (rows.filter p).map g := by
    intro p rows hp
    rw [List.filter_map]
    congr 1
    exact List.filter_congr hp
  have hrows : ∀ r ∈ t.rows, Altered scope r (g r) := halt
  have hmem : ∀ r ∈ readInstalledExtensionsByPackageName t.rows scope.packageName, r ∈ t.rows :=
    fun r hr => (List.mem_filter.mp hr).1
  rw [CanonicalTable.target, CanonicalTable.target, readInstalledExtensionsByPackageName, hg,
    hfilter _ t.rows fun r hr => by rw [(hrows r hr).packageName], pickSingleActiveRow,
    pickSingleActiveRow, hfilter _ _ fun r hr => by
      rw [InstalledExtension.present, InstalledExtension.present, (hrows r (hmem r hr)).status,
        (hrows r (hmem r hr)).organizationId], readInstalledExtensionsByPackageName]
  cases ((t.rows.filter fun r => r.packageName = scope.packageName).filter fun r =>
      r.present && r.organizationId = scope.orgId) with
  | nil => rfl
  | cons a rest =>
    cases rest with
    | nil | cons => rfl

theorem rowsAltered_update {g : InstalledExtension → InstalledExtension} (hg : ∀ r, (g r).id = r.id)
    (h : t.target scope = some row) (hpackage : ∀ r, (g r).packageName = r.packageName)
    (horg : ∀ r, (g r).organizationId = r.organizationId) (hkind : ∀ r, (g r).kind = r.kind)
    (hstatus : ∀ r, (g r).status = r.status) : RowsAltered scope t (t.update row.id g hg) := by
  obtain ⟨hrow, hscope, -⟩ := target_some h
  refine ⟨_, rfl, fun r hr => ?_⟩
  by_cases hid : r.id = row.id
  · rw [if_pos (decide_eq_true hid)]
    refine ⟨hg r, hpackage r, horg r, hkind r, hstatus r, fun hne => absurd hscope ?_⟩
    rw [← eq_of_key t.keyed hr hrow hid]
    exact hne
  · rw [if_neg fun hd => hid (of_decide_eq_true hd)]
    exact Altered.refl scope r

theorem rowsAltered_switchRow {step : String} {refusal : InstalledExtension → Option SagaError}
    {g : InstalledExtension → InstalledExtension} {hg : ∀ r, (g r).id = r.id}
    (hpackage : ∀ r, (g r).packageName = r.packageName)
    (horg : ∀ r, (g r).organizationId = r.organizationId) (hkind : ∀ r, (g r).kind = r.kind)
    (hstatus : ∀ r, (g r).status = r.status) :
    RowsAltered scope w.table (w.switchRow scope step refusal g hg).2.table := by
  rw [World.switchRow]
  split
  · exact RowsAltered.refl _ _
  · rename_i row hrow
    split
    · exact RowsAltered.refl _ _
    · exact rowsAltered_update hg hrow hpackage horg hkind hstatus

theorem serve_rows (hown : c.own scope) : RowsAltered scope w.table (serve host f w c).2.table := by
  by_cases hp : c.writes = some .provenance
  · obtain ⟨r, s, p, rfl⟩ := records hp
    obtain rfl : s = scope := hown
    exact rowsAltered_switchRow (fun _ => rfl) (fun _ => rfl) (fun _ => rfl) (fun _ => rfl)
  · by_cases hd : c.writes = some .dependencies
    · obtain ⟨s, deps, rfl⟩ := persists hd
      obtain rfl : s = scope := hown
      exact rowsAltered_switchRow (fun _ => rfl) (fun _ => rfl) (fun _ => rfl) (fun _ => rfl)
    · rw [serve_table hp hd]
      exact RowsAltered.refl _ _

theorem answer_rows (hown : c.own scope) :
    RowsAltered scope w.table (answer host f c w).2.table := by
  obtain ⟨threw, landed, -, -, -, hmissed, hlanded, -⟩ := answer_cases host f c w
  cases landed with
  | false =>
    rw [(hmissed rfl).table]
    exact RowsAltered.refl _ _
  | true =>
    obtain ⟨-, halike⟩ := hlanded rfl
    rw [halike.table]
    exact serve_rows (w := { w with clock := w.clock + f.elapsedMs }) hown

/-! ## The calls of the pipeline -/

theorem capture_idle (priorOp : Option InstallOp) : Only Call.idle (capture scope priorOp) := by
  rw [capture]
  split
  · refine Only.bind (only_call rfl rfl) fun _ => Only.bind (only_call rfl rfl) fun _ => ?_
    exact Only.bind (only_call rfl rfl) fun _ => only_pure _
  · exact only_pure _

theorem passGates_rule {I : World → Prop}
    (hidle : ∀ w c f, Call.idle c → I w → I (answer host f c w).2) (h : I w) :
    Ends host (passGates host.toSagaHost input drawn)
      (Post (fun x w' => x.1.scope = input.scope ∧ x.1.opId = input.opId drawn ∧ I w')
        (fun _ => I)) w := by
  have hpart : ∀ {α : Type} {p : P α} {w₁ : World}, Only Call.idle p → I w₁ →
      Ends host p (Post (fun _ => I) (fun _ => I)) w₁ :=
    fun hp h₁ => hp.post hidle h₁
  refine Spec.post_bind (hpart (resolveArtifact_idle _ _) h) fun artifact w₁ h₁ => ?_
  refine Spec.post_bind (hpart (only_call rfl rfl) h₁) fun mat w₂ h₂ => ?_
  refine Spec.post_bind (hpart (only_call rfl rfl) h₂) fun requestedPorts w₃ h₃ => ?_
  refine Spec.post_bind (hpart (only_call rfl rfl) h₃) fun priorOp w₄ h₄ => ?_
  refine Spec.post_bind (hpart (hostCompatGate_idle _ _ _ _ _) h₄) fun _ w₅ h₅ => ?_
  refine Spec.post_bind (hpart (readEdges_idle _ _) h₅) fun dependencyEdges w₆ h₆ => ?_
  refine Spec.post_bind (hpart (activationGate_idle _ _ _ _ _) h₆) fun _ w₇ h₇ => ?_
  refine Spec.post_bind (hpart (capture_idle priorOp) h₇) fun cap w₈ h₈ => ?_
  exact ⟨rfl, rfl, h₈⟩

/-- A call of the activation: of the journal it makes at most a finalize. -/
def Call.activates (scope : Scope) (c : Call) : Prop :=
  c.own scope ∧ (c.writes ≠ some .journal ∨ ∃ id, c = .finalizeInstallOp id)

theorem Call.activates_idle (h : c.idle) : c.activates scope := by
  refine ⟨Call.own_idle h, .inl ?_⟩
  rw [h.1]
  exact (Option.some_ne_none _).symm

variable {step : DurableStep} {S : Call → Prop}

theorem restoring_only {path : UnwindPath} {p : P Unit}
    (hp : Only S p) (hemit : ∀ event, S (.emitOperationalEvent event)) :
    Only S (restoring scope path step p) := by
  refine Only.bind hp.attempt fun r => ?_
  split
  · exact only_pure _
  · exact Only.bind (only_perform (hemit _)) fun _ => only_pure _

variable {path : UnwindPath} {cap : Captured} {prior : InstallOp}

theorem emit_activates (event : InstallDurableRestoreFailureEvent) :
    Call.activates scope (.emitOperationalEvent event) :=
  ⟨trivial, .inl (Option.some_ne_none _).symm⟩

variable {α : Type}

theorem restoringSome_only {x : Option α}
    {f : α → P (List DurableStep)} (hf : ∀ y, Only S (f y)) : Only S (restoringSome x f) := by
  cases x with
  | none => exact only_pure _
  | some y => exact hf y

variable {c : Call}

theorem restoreWrite_only (hown : c.own scope)
    (hw : c.writes = some step) (hstep : step ≠ .journal) :
    Only (Call.activates scope) (perform c : P c.Reply) := by
  refine only_perform ⟨hown, .inl ?_⟩
  rw [hw]
  exact fun h => hstep (Option.some.inj h)

theorem restoreSource_only : Only (Call.activates scope) (restoreSource scope path cap) :=
  restoringSome_only fun _ => restoring_only (restoreWrite_only rfl rfl nofun) emit_activates

theorem restoreGrant_only : Only (Call.activates scope) (restoreGrant scope path cap) :=
  restoringSome_only fun _ => restoring_only (restoreWrite_only rfl rfl nofun) emit_activates

theorem restoreEdges_only : Only (Call.activates scope) (restoreEdges scope path cap) :=
  restoringSome_only fun _ => restoring_only (restoreWrite_only rfl rfl nofun) emit_activates

theorem restoreDurableAnchor_only :
    Only (Call.activates scope) (restoreDurableAnchor scope prior cap) := by
  refine Only.bind restoreSource_only fun _ => ?_
  refine Only.bind (restoring_only (only_perform ⟨trivial, .inr ⟨_, rfl⟩⟩) emit_activates)
    fun _ => ?_
  exact Only.bind restoreGrant_only fun _ => Only.bind restoreEdges_only fun _ => only_pure _

theorem only_activates (hw : c.writes = none) (hc : c.fallible = true) :
    Only (Call.activates scope) (perform c : P c.Reply) :=
  only_perform (Call.activates_idle ⟨hw, hc⟩)

theorem hotUpdate_only {newStoreDir : String} {restore : P (List DurableStep)}
    (hr : Only (Call.activates scope) restore) :
    Only (Call.activates scope) (hotUpdateWithDurableRollback scope newStoreDir restore) := by
  refine Only.bind (only_activates rfl rfl) fun superseded => ?_
  split
  · exact Only.bind (only_activates rfl rfl) fun _ => only_pure _
  refine Only.bind (Only.tryCatch (only_activates rfl rfl) fun _ => only_pure _) fun _ => ?_
  refine Only.bind (only_activates rfl rfl) fun _ => ?_
  refine Only.bind (only_activates rfl rfl) fun _ => ?_
  refine Only.bind (Only.tryCatch (only_activates rfl rfl) fun _ => only_pure _) fun results => ?_
  dsimp only
  split
  · exact Only.bind (only_activates rfl rfl) fun _ => only_pure _
  refine Only.bind hr.attempt fun _ => ?_
  refine Only.bind (Only.swallow (only_activates rfl rfl)) fun _ => ?_
  refine Only.bind (Only.swallow (only_activates rfl rfl)) fun _ => ?_
  refine Only.bind (only_activates rfl rfl) fun _ => ?_
  exact Only.bind (Only.swallow (only_activates rfl rfl)) fun _ => only_pure _

variable {a : Attempt}

theorem activate_only {priorOp : Option InstallOp} :
    Only (Call.activates a.scope) (activate a priorOp cap) := by
  rw [activate]
  split
  · refine Only.bind (hotUpdate_only restoreDurableAnchor_only).attempt fun r => ?_
    split
    · exact only_pure _
    · exact Only.bind restoreDurableAnchor_only.attempt fun _ => only_pure _
  · refine Only.tryCatch ?_ fun _ => only_pure _
    exact Only.bind (only_activates rfl rfl) fun _ => only_pure _

variable {err : SagaError}

theorem abort_only : Only (Call.own a.scope) (abort a cap err : P α) := by
  refine Only.bind (Only.swallow ?_) fun _ => Only.bind (onlyIf_only ?_) fun _ => only_throwErr _
  · exact Only.bind (only_perform trivial) fun _ => only_perform trivial
  · refine Only.bind (restoreGrant_only.mono fun _ h => h.1) fun _ => ?_
    refine Only.bind (restoreSource_only.mono fun _ h => h.1) fun _ => ?_
    exact Only.bind (restoreEdges_only.mono fun _ h => h.1) fun _ => only_pure _

theorem abort_throws :
    Ends host (abort a cap err : P α) (Post (fun _ _ => False) (fun _ _ => True)) w := by
  have hpart : ∀ {p : P Unit} {w₁ : World}, Only (fun _ => True) p →
      Ends host p (Post (fun _ _ => True) (fun _ _ => True)) w₁ :=
    fun hp => hp.post (fun _ _ _ _ h => h) trivial
  refine Spec.post_bind (hpart (Only.swallow ?_)) fun _ w₁ _ => ?_
  · exact Only.bind (only_perform trivial) fun _ => only_perform trivial
  refine Spec.post_bind (hpart (onlyIf_only ?_)) fun _ w₂ _ => trivial
  refine Only.bind (restoreGrant_only.mono fun _ _ => trivial) fun _ => ?_
  refine Only.bind (restoreSource_only.mono fun _ _ => trivial) fun _ => ?_
  exact Only.bind (restoreEdges_only.mono fun _ _ => trivial) fun _ => only_pure _

theorem journaled_only : Only (Call.own a.scope) (journaled a) := by
  refine Only.bind ((grantAndMigrate_only a).mono fun _ h => h.1) fun _ => ?_
  refine Only.bind ((lateWrites_only a).mono fun _ h => h.1) fun _ => ?_
  exact only_perform trivial

theorem pipeline_rows (h : RowsAltered input.scope t w.table) :
    Ends host (installExtensionFromRegistry host.toSagaHost input drawn)
      (fun _ w' => RowsAltered input.scope t w'.table) w := by
  have hstep : ∀ w c f, Call.own input.scope c → RowsAltered input.scope t w.table →
      RowsAltered input.scope t (answer host f c w).2.table :=
    fun w c f hown h => h.trans (answer_rows hown)
  refine Spec.bind (Spec.mono (passGates_rule (I := fun w => RowsAltered input.scope t w.table)
    (fun w c f hc => hstep w c f (Call.own_idle hc)) h) ?_)
  intro r w₁ hr
  cases r with
  | error err => exact hr
  | ok x =>
    obtain ⟨a, priorOp, cap⟩ := x
    obtain ⟨hscope, -, hr⟩ := hr
    rw [← hscope] at hstep hr ⊢
    refine Spec.bind (Spec.attempt (Spec.mono (journaled_only.spec hstep hr) ?_))
    intro r w₂ hr
    cases r with
    | error err => exact abort_only.spec hstep hr
    | ok _ =>
      refine Spec.bind (Spec.mono
        ((activate_only.mono fun _ h => h.1).spec hstep hr) fun r w₃ hr => ?_)
      cases r with
      | error | ok => exact hr

/-- **A run drops no row**, changes no status, and leaves the other scopes alone. -/
theorem registryRun_rows (host : RegistryHost) (input : InstallPipelineInput) (drawn : String)
    (s : Nat → Answer) (w : World) :
    RowsAltered input.scope w.table (registryRun host input drawn s w).2.table :=
  (pipeline_rows (RowsAltered.refl input.scope w.table)).run s

/-- **Installs one after another, whatever fails in them**, drop no row, change no status, and
    leave a row alone that is at the scope of none. -/
theorem installs_alter_rows (host : RegistryHost)
    (installs : List (InstallPipelineInput × String × (Nat → Answer))) (w : World) :
    ∃ g, (installs.foldl (fun w i => (registryRun host i.1 i.2.1 i.2.2 w).2) w).table.rows =
        w.table.rows.map g ∧ ∀ r ∈ w.table.rows, (g r).id = r.id ∧ (g r).status = r.status ∧
        ((∀ i ∈ installs, (⟨r.packageName, r.organizationId⟩ : Scope) ≠ i.1.scope) → g r = r) := by
  induction installs generalizing w with
  | nil => exact ⟨id, (List.map_id _).symm, fun r _ => ⟨rfl, rfl, fun _ => rfl⟩⟩
  | cons i installs ih =>
    obtain ⟨g, hg, halt⟩ := registryRun_rows host i.1 i.2.1 i.2.2 w
    obtain ⟨g', hg', halt'⟩ := ih (registryRun host i.1 i.2.1 i.2.2 w).2
    refine ⟨g' ∘ g, by rw [List.foldl_cons, hg', hg, List.map_map], fun r hr => ?_⟩
    have hstep := halt r hr
    obtain ⟨hid, hstatus, hother⟩ := halt' (g r) (hg ▸ List.mem_map_of_mem hr)
    refine ⟨hid.trans hstep.id, hstatus.trans hstep.status, fun hne => ?_⟩
    have hsame := hstep.other (hne i (.head _))
    show g' (g r) = r
    rw [hsame] at hother ⊢
    exact hother fun j hj => hne j (.tail _ hj)

/-! ### The finalized op -/

variable {opId : String}

/-- The op id of an attempt is of its scope alone. -/
def OwnOp (opId : String) (scope : Scope) (w : World) : Prop :=
  ∀ r ∈ w.journal.rows, r.installOpId = opId → r.scope = scope

theorem answer_journal (hw : c.writes ≠ some .journal) :
    (answer host f c w).2.journal = w.journal := by
  obtain ⟨threw, landed, -, -, -, hmissed, hlanded, -⟩ := answer_cases host f c w
  cases landed with
  | false => exact (hmissed rfl).journal
  | true => exact (hlanded rfl).2.journal.trans (serve_journal hw)

theorem OwnOp.journaled (hc : c.journaled opId scope) (h : OwnOp opId scope w) :
    OwnOp opId scope (answer host f c w).2 := by
  obtain ⟨hown, -, -, hjournal⟩ := hc
  intro r hr hid
  rcases hjournal with hw | hof
  · rw [answer_journal hw] at hr
    exact h r hr hid
  rcases journaled_answer hof with heq | hj
  · rw [heq] at hr
    exact h r hr hid
  · rcases hj.attempt r hr hid with hs | ⟨r₀, h₀, hid₀, hs⟩
    · exact hs
    · rw [← hs]
      exact h r₀ h₀ hid₀

theorem Call.journaled_of_idle (h : c.idle) : c.journaled opId scope := by
  have hw : ∀ step, c.writes ≠ some step := by
    intro step
    rw [h.1]
    exact (Option.some_ne_none _).symm
  refine ⟨Call.own_idle h, h.2, ?_, .inl (hw _)⟩
  cases c <;> first | rfl | exact absurd rfl (hw _)

/-- The scope has a finalized op. -/
def Finalized (scope : Scope) (w : World) : Prop := finalizedOps w.journal scope ≠ []

variable {id : String}

/-- A finalize leaves the scope with a finalized op: its own, or another scope's
    was promoted. -/
theorem finalize_finalized {j j' : Journal} {now : Instant}
    (h : finalizeInstallOp now id j = .ok j') :
    (∀ self ∈ j.rows, self.installOpId = id → self.scope = scope) ∨ finalizedOps j scope ≠ [] →
      finalizedOps j' scope ≠ [] := by
  obtain ⟨self, hself, hid, hrows⟩ := finalize_promoted h
  intro hcase
  have hmem : ∃ r ∈ j'.rows, r.phase = .finalized ∧ r.scope = scope := by
    rw [hrows, ExtInstallAnchor.promoted]
    by_cases hscope : self.scope = scope
    · refine ⟨{ self with phase := .finalized, updatedAt := now },
        mem_updateWhere.mpr ⟨self, mem_updateWhere.mpr ⟨self, hself, ?_⟩, ?_⟩, rfl, hscope⟩
      · rw [if_neg (by simp)]
      · rw [if_pos (by simp)]
    · rcases hcase with hown | hfinal
      · exact absurd (hown self hself hid) hscope
      obtain ⟨r, hr⟩ := List.exists_mem_of_ne_nil _ hfinal
      obtain ⟨hrj, hphase, hrs⟩ := mem_finalizedOps.mp hr
      have hother : ¬ r.scope = self.scope := fun heq => hscope (heq.symm.trans hrs)
      have hne : ¬ r.installOpId = self.installOpId := by
        intro heq
        exact hother (congrArg InstallOp.scope (eq_of_opId hrj hself heq))
      refine ⟨r, mem_updateWhere.mpr ⟨r, mem_updateWhere.mpr ⟨r, hrj, ?_⟩, ?_⟩, hphase, hrs⟩
      · simp [hother]
      · simp [hne]
  obtain ⟨r, hr, hphase, hrs⟩ := hmem
  exact List.ne_nil_of_mem (mem_finalizedOps.mpr ⟨hr, hphase, hrs⟩)

theorem answer_finalize : (answer host f (.finalizeInstallOp id) w).2.journal = w.journal ∨
      finalizeInstallOp (w.clock + f.elapsedMs) id w.journal =
        .ok (answer host f (.finalizeInstallOp id) w).2.journal := by
  obtain ⟨threw, landed, -, -, -, hmissed, hlanded, -⟩ :=
    answer_cases host f (.finalizeInstallOp id) w
  cases landed with
  | false => exact .inl (hmissed rfl).journal
  | true =>
    obtain ⟨hok, halike⟩ := hlanded rfl
    obtain ⟨j, hj, hjournal⟩ := statement_ok hok
    refine .inr ?_
    rw [halike.journal]
    exact hj.trans (congrArg Except.ok hjournal.symm)

theorem Finalized.activates (hc : c.activates scope) (h : Finalized scope w) :
    Finalized scope (answer host f c w).2 := by
  obtain ⟨-, hw | ⟨id, rfl⟩⟩ := hc
  · rw [Finalized, answer_journal hw]
    exact h
  have hcases : (answer host f (.finalizeInstallOp id) w).2.journal = w.journal ∨
      finalizeInstallOp (w.clock + f.elapsedMs) id w.journal =
        .ok (answer host f (.finalizeInstallOp id) w).2.journal := answer_finalize
  rcases hcases with heq | hok
  · rw [Finalized, heq]
    exact h
  · exact finalize_finalized hok (.inr h)

theorem journaled_finalizes (h : OwnOp a.opId a.scope w) :
    Ends host (journaled a) (Post (fun _ => Finalized a.scope) (fun _ _ => True)) w := by
  have hpart : ∀ {p : P Unit} {w₁ : World}, Only (Call.journaled a.opId a.scope) p →
      OwnOp a.opId a.scope w₁ → Ends host p
        (Post (fun _ => OwnOp a.opId a.scope) (fun _ _ => True)) w₁ := by
    intro p w₁ hp h₁
    refine Spec.mono (hp.spec (fun _ _ _ hc h => h.journaled hc) h₁) ?_
    intro r w' hr
    cases r with
    | ok _ => exact hr
    | error err => trivial
  refine Spec.post_bind (hpart (grantAndMigrate_only a) h) fun _ w₁ h₁ => ?_
  refine Spec.post_bind (hpart (lateWrites_only a) h₁) fun _ w₂ h₂ => ⟨trivial, fun f => ?_⟩
  show Post _ _ (answer host f (.finalizeInstallOp a.opId) w₂).1
    (answer host f (.finalizeInstallOp a.opId) w₂).2
  cases hr : (answer host f (.finalizeInstallOp a.opId) w₂).1 with
  | error err => trivial
  | ok _ =>
    have hok : isOk (answer host f (.finalizeInstallOp a.opId) w₂).1 = true := by
      rw [hr]
      rfl
    obtain ⟨w₃, halike, hserved, hafter⟩ := answer_ok hok
    obtain ⟨j, hj, hjournal⟩ := statement_ok hserved
    show finalizedOps _ a.scope ≠ []
    rw [hafter.journal.trans hjournal]
    refine finalize_finalized hj (.inl fun self hself hid => ?_)
    rw [halike.journal] at hself
    exact h₂ self hself hid

theorem pipeline_finalizes (h : OwnOp (input.opId drawn) input.scope w) :
    Ends host (installExtensionFromRegistry host.toSagaHost input drawn)
      (Post (fun _ => Finalized input.scope) (fun _ _ => True)) w := by
  refine Spec.bind (Spec.mono (passGates_rule (I := OwnOp (input.opId drawn) input.scope)
    (fun _ _ _ hc h => h.journaled (Call.journaled_of_idle hc)) h) ?_)
  intro r w₁ hr
  cases r with
  | error err => trivial
  | ok x =>
    obtain ⟨a, priorOp, cap⟩ := x
    obtain ⟨hscope, hopId, hr⟩ := hr
    rw [← hscope, ← hopId] at hr
    rw [← hscope]
    refine Spec.bind (Spec.attempt (Spec.mono (journaled_finalizes hr) ?_))
    intro r w₂ hr
    cases r with
    | error err =>
      refine Spec.mono abort_throws fun r w₃ hr => ?_
      cases r with
      | error err => trivial
      | ok res => exact hr.elim
    | ok _ =>
      refine Spec.bind (Spec.mono
        (activate_only.spec (fun _ _ _ hc h => h.activates hc) hr) fun r w₃ hr => ?_)
      cases r with
      | error err => trivial
      | ok res => exact hr

variable {s : Nat → Answer}

/-- **A run that returns leaves a finalized op** in its scope. -/
theorem registryRun_finalized {res : InstallPipelineResult}
    (hfresh : ∀ op ∈ w.journal.rows, op.installOpId ≠ input.opId drawn)
    (hok : (registryRun host input drawn s w).1 = .ok res) :
    Finalized input.scope (registryRun host input drawn s w).2 := by
  have hown : OwnOp (input.opId drawn) input.scope w := fun r hr hid => absurd hid (hfresh r hr)
  have hspec : Ends host (installExtensionFromRegistry host.toSagaHost input drawn)
      (Post (fun _ => Finalized input.scope) (fun _ _ => True)) w := pipeline_finalizes hown
  have h := hspec.run s
  rw [registryRun] at hok ⊢
  rw [hok] at h
  exact h

/-- **An unwound update has the previous source back**, or says that it has not. -/
theorem registryRun_source {prior : InstallOp} (hprior : prior ∈ finalizedOps w.journal input.scope)
    (hfresh : ∀ op ∈ w.journal.rows, op.installOpId ≠ input.opId drawn)
    (hquiet : w.events = []) (hlog : w.log = []) (hsource : Restorable host (w.source input.scope))
    (hback : Unwound (registryRun host input drawn s w).1) :
    (registryRun host input drawn s w).2.source input.scope = w.source input.scope ∨
      Told (registryRun host input drawn s w).2 .provenance := by
  have hid : prior.installOpId ≠ input.opId drawn := hfresh prior (mem_finalizedOps.mp hprior).1
  have hgated : Gated host w input.scope prior (input.opId drawn) w :=
    gated_start hprior hfresh hquiet hlog
  obtain ⟨lost, h⟩ := (update_spec hprior hid hgated hquiet).run s hback
  exact h.done .provenance (mem_durableSteps _) hsource

end ExtRegistry
