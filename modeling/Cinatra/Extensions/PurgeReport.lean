import Cinatra.Extensions.Purge

/-! # PurgeReport — a purge that throws, and what it says

    Up to the disk delete a purge changes neither the row nor the directory.  From
    there on every throw should put the directory back or demand manual recovery,
    and a deleted row should be a success.  Three steps fall outside: the second
    plan is made outside every `try`, a row delete that throws after its commit is
    taken for one that failed, and so is a deleted row whose last audit entry
    cannot be written. -/

namespace ExtPurge

open Process

variable {host : PurgeHost} {input : PurgeInput} {pt : Pattern} {p : PurgePreparation}
  {w v : PurgeWorld}

/-- The audit entry of a rollback says what its error says. -/
def Matches (entry : AuditEntry) (err : PurgeError) : Prop :=
  entry.operation = .purgeRolledBack ∧
    ∃ why disk, err = .rolledBack why disk ∧ entry.reason = some (rollbackReason why disk)

/-- A throw leaves the row and the directory as they were, or demands manual recovery
    in error and audit trail; a deleted row is a success. -/
structure Reported (w : PurgeWorld) (r : Except PurgeError PurgeExtensionResult × PurgeWorld) :
    Prop where
  thrown : ∀ err, r.1 = .error err → (r.2.template = w.template ∧ r.2.disk = w.disk) ∨
    (err.demandsManualRecovery = true ∧
      ∃ new entry, r.2.audit = w.audit ++ new ∧ entry ∈ new ∧ Matches entry err)
  deleted : w.template ≠ none → r.2.template = none → ∃ result, r.1 = .ok result

/-! ## When it is so -/

/-- The world a rollback of a failed disk delete starts from. -/
def afterDiskDelete (pt : Pattern) (w : PurgeWorld) : PurgeWorld :=
  match pt.fault .strictDiskPurge with
  | some f => if f.applied then { w with disk := none } else w
  | none => { w with disk := none }

/-- The tarball the preparation found for a rollback. -/
def usableTarball (p : PurgePreparation) : Option String :=
  if p.rollbackVersionUncertain then none else p.primaryTarball

/-- The second plan. -/
def rescanned (host : PurgeHost) (input : PurgeInput) (pt : Pattern) (w : PurgeWorld) :
    Except PurgeError ExtensionPurgePlan :=
  (exec (environment pt) w (planExtensionPurge host .rescan input.packageName)).1

/-- A rollback from `v` puts back what was in the directory, or its audit entry can be
    written. -/
def RollbackCovered (pt : Pattern) (input : PurgeInput) (p : PurgePreparation)
    (before : Option String) (v : PurgeWorld) : Prop :=
  before = none ∨
    match usableTarball p with
    | none => v.disk = before ∨ pt.fault (.writeAuditEntry .purgeRolledBack) = none
    | some path =>
      let restore := answer pt (.restoreDirFromTarball input.packageName path) v
      restore.2.disk = before ∨
        (restore.1 ≠ .ok () ∧ pt.fault (.writeAuditEntry .purgeRolledBack) = none)

/-- The row delete is reached. -/
def ReachesRowDelete (host : PurgeHost) (input : PurgeInput) (pt : Pattern)
    (p : PurgePreparation) (w : PurgeWorld) : Prop :=
  pt.fault .strictDiskPurge = none ∧ ∃ fresh,
    rescanned host input pt { w with disk := none } = .ok fresh ∧ fresh.blocked = false ∧
      fresh.digest = p.plan.digest

/-- The disk delete throws, the second plan refuses, or the row delete throws. -/
def RollsBack (host : PurgeHost) (input : PurgeInput) (pt : Pattern) (p : PurgePreparation)
    (w : PurgeWorld) : Prop :=
  pt.fault .strictDiskPurge ≠ none ∨
    (∃ fresh, rescanned host input pt { w with disk := none } = .ok fresh ∧
      (fresh.blocked = true ∨ fresh.digest ≠ p.plan.digest)) ∨
    (ReachesRowDelete host input pt p w ∧ pt.fault .dbPurgeAtomic ≠ none)

/-- What a destruction that starts from `w` must be spared. -/
structure Covered (host : PurgeHost) (input : PurgeInput) (pt : Pattern) (p : PurgePreparation)
    (w : PurgeWorld) : Prop where
  /-- A second plan that throws, over a directory that is gone. -/
  rescan : pt.fault .strictDiskPurge = none →
    ∀ err, rescanned host input pt { w with disk := none } = .error err → w.disk = none
  /-- A row delete that throws after its commit. -/
  rowDelete : ReachesRowDelete host input pt p w →
    ∀ f, pt.fault .dbPurgeAtomic = some f → f.applied = true → w.template = none
  /-- A last audit entry that cannot be written. -/
  committed : ReachesRowDelete host input pt p w → pt.fault .dbPurgeAtomic = none →
    pt.fault (.writeAuditEntry .purgeCommitted) ≠ none → w.template = none ∧ w.disk = none
  /-- A rollback that neither restores what was there nor reports it. -/
  rollback : RollsBack host input pt p w → RollbackCovered pt input p w.disk (afterDiskDelete pt w)

/-! ## Readings -/

variable {τ : Type} {f : PurgeWorld → τ} {c : PurgeCall}

/-- A step whose effect, should it come about, leaves something as it is. -/
theorem keeps_step (h : ∀ w, f (serve pt w c).2 = f w) :
    Keeps (environment pt) f (perform c : PurgeProg c.Reply) := by
  intro w
  show f (answer pt c w).2 = f w
  rw [answer]
  cases pt.fault c.step with
  | none => exact h w
  | some fault =>
    show f (if fault.applied then (serve pt w c).2 else w) = f w
    cases fault.applied with
    | true => exact h w
    | false => rfl

variable {α : Type}

theorem keeps_done (r : Except PurgeError α) :
    Keeps (environment pt) f (.done r : PurgeProg α) := fun _ => rfl

/-- **A plan changes nothing**, whatever throws. -/
theorem keeps_plan (f : PurgeWorld → τ) (site : Site) (packageName : String) :
    Keeps (environment pt) f (planExtensionPurge host site packageName) := by
  have hread : ∀ c : PurgeCall, (∀ w, (serve pt w c).2 = w) →
      Keeps (environment pt) f (perform c : PurgeProg c.Reply) :=
    fun c hc => keeps_step fun w => by rw [hc w]
  rw [planExtensionPurge]
  refine Keeps.bind (hread _ fun _ => rfl) fun config => ?_
  refine Keeps.bind (Keeps.attempt (hread _ fun _ => rfl)) fun declared => ?_
  refine Keeps.bind (Keeps.attempt (hread _ fun _ => rfl)) fun detail => ?_
  refine Keeps.bind (hread _ fun _ => rfl) fun published => ?_
  refine Keeps.bind (hread _ fun _ => rfl) fun template => ?_
  refine Keeps.bind (hread _ fun _ => rfl) fun depending => ?_
  refine Keeps.bind (hread _ fun _ => rfl) fun referencing => ?_
  refine Keeps.bind (hread _ fun _ => rfl) fun onDisk => ?_
  exact keeps_done _

/-- The row and the directory. -/
def target (w : PurgeWorld) : Option AgentTemplate × Option String := (w.template, w.disk)

theorem keeps_downloads (packageName quarantineDir : String) : ∀ (versions : List String) (i : Nat),
      Keeps (environment pt) target (downloadTarballs packageName quarantineDir i versions) := by
  intro versions
  induction versions with
  | nil => exact fun _ => keeps_done _
  | cons version rest ih =>
    intro i
    rw [downloadTarballs]
    refine Keeps.bind (keeps_step fun w => ?_) fun got =>
      Keeps.bind (ih (i + 1)) fun _ => keeps_done _
    simp only [serve]
    cases pt.published version <;> rfl

theorem keeps_quarantine (packageName : String) (plan : ExtensionPurgePlan)
    (config : ResolvedVerdaccioConfig) (installed : Option String) :
    Keeps (environment pt) target (quarantineFor packageName plan config installed) := by
  rw [quarantineFor]
  split
  · refine Keeps.bind (Keeps.attempt (keeps_step fun _ => rfl)) fun fetched => ?_
    refine Keeps.bind ?_ fun q => ?_
    · refine Keeps.bind (keeps_step fun _ => rfl) fun dir => ?_
      refine Keeps.bind (keeps_downloads packageName dir plan.versions 0) fun _ => ?_
      refine Keeps.bind (keeps_step fun _ => rfl) fun _ => ?_
      split
      · exact Keeps.bind (keeps_step fun _ => rfl) fun _ => keeps_done _
      · exact keeps_done _
    · split
      · exact keeps_done _
      · exact keeps_done _
  · exact keeps_done _

/-- **Nothing is destroyed in preparation.** -/
theorem keeps_prepare (host : PurgeHost) (input : PurgeInput) (pt : Pattern) :
    Keeps (environment pt) target (preparePurge host input) := by
  rw [preparePurge]
  refine Keeps.bind ?_ fun _ => ?_
  · refine Keeps.bind (Keeps.attempt (keeps_step fun _ => rfl)) fun rows => ?_
    split
    · split
      · exact keeps_done _
      · exact keeps_done _
    · simp only
      split
      · exact keeps_done _
      · exact keeps_done _
  refine Keeps.bind (keeps_plan target .plan _) fun plan => ?_
  refine Keeps.bind (keeps_step fun _ => rfl) fun config => ?_
  split
  · exact keeps_done _
  refine Keeps.bind (keeps_step fun _ => rfl) fun fullRow => ?_
  refine Keeps.bind (keeps_quarantine _ plan config _) fun _ => ?_
  refine Keeps.bind (keeps_step fun _ => rfl) fun _ => ?_
  refine Keeps.bind (keeps_step fun _ => rfl) fun _ => ?_
  refine Keeps.bind ?_ fun _ => keeps_done _
  rw [dirPresentFor]
  split
  · exact keeps_step fun _ => rfl
  · exact keeps_done _

/-! ## What a run leaves behind -/

/-- **The audit trail only grows.** -/
theorem audit_grows (pt : Pattern) (q : PurgeProg α) :
    ∀ w, w.audit <+: (exec (environment pt) w q).2.audit := by
  have hserve : ∀ (c : PurgeCall) (w : PurgeWorld), w.audit <+: (serve pt w c).2.audit := by
    intro c w
    cases c with
    | writeAuditEntry entry => exact List.prefix_append _ _
    | downloadTarball index packageName version destPath =>
      simp only [serve]
      cases pt.published version <;> exact List.prefix_rfl
    | restoreDirFromTarball packageName path =>
      simp only [serve]
      cases w.tarballs.lookup path <;> exact List.prefix_rfl
    | _ => exact List.prefix_rfl
  induction q with
  | done r => exact fun w => List.prefix_rfl
  | call c k ih =>
    intro w
    refine List.IsPrefix.trans ?_ (ih _ _)
    show w.audit <+: (answer pt c w).2.audit
    rw [answer]
    cases pt.fault c.step with
    | none => exact hserve c w
    | some f =>
      show w.audit <+: (if f.applied then (serve pt w c).2 else w).audit
      cases f.applied with
      | true => exact hserve c w
      | false => exact List.prefix_rfl

variable {err : PurgeError}

theorem answer_error (h : (answer pt c w).1 = .error err) : err.demandsManualRecovery = false := by
  rw [answer] at h
  cases hf : pt.fault c.step with
  | some f =>
    rw [hf] at h
    cases h
    rfl
  | none =>
    rw [hf] at h
    cases c with
    | downloadTarball index packageName version destPath =>
      simp only [serve] at h
      cases hv : pt.published version <;> rw [hv] at h <;> cases h
    | restoreDirFromTarball packageName path =>
      simp only [serve] at h
      cases hl : w.tarballs.lookup path with
      | none =>
        rw [hl] at h
        cases h
        rfl
      | some tarball =>
        rw [hl] at h
        cases h
    | _ => cases h

theorem throws_step (c : PurgeCall) :
    Throws (environment pt) (fun err => err.demandsManualRecovery = false)
      (perform c : PurgeProg c.Reply) :=
  fun _ _ h => answer_error h

theorem throws_plan (site : Site) (packageName : String) :
    Throws (environment pt) (fun err => err.demandsManualRecovery = false)
      (planExtensionPurge host site packageName) := by
  rw [planExtensionPurge]
  refine Throws.bind (throws_step _) fun config => ?_
  refine Throws.bind Throws.attempt fun declared => ?_
  refine Throws.bind Throws.attempt fun detail => ?_
  refine Throws.bind (throws_step _) fun published => ?_
  refine Throws.bind (throws_step _) fun template => ?_
  refine Throws.bind (throws_step _) fun depending => ?_
  refine Throws.bind (throws_step _) fun referencing => ?_
  refine Throws.bind (throws_step _) fun onDisk => ?_
  intro w err h
  cases h

theorem prepared (h : exec (environment pt) w (preparePurge host input) = (.ok p, v))
    (hremoves : p.removesDiskDb = true) : p.dirPresentAtStart = v.disk.isSome := by
  rw [preparePurge] at h
  obtain ⟨_, w₁, _, h⟩ := exec_bind_ok h
  obtain ⟨plan, w₂, _, h⟩ := exec_bind_ok h
  obtain ⟨config, w₃, _, h⟩ := exec_bind_ok h
  split at h
  · cases h
  obtain ⟨fullRow, w₄, _, h⟩ := exec_bind_ok h
  obtain ⟨q, w₅, _, h⟩ := exec_bind_ok h
  obtain ⟨dangling, w₆, _, h⟩ := exec_bind_ok h
  obtain ⟨_, w₇, _, h⟩ := exec_bind_ok h
  obtain ⟨present, w₈, hpresent, h⟩ := exec_bind_ok h
  cases h
  have hdir : present = w₇.disk.isSome ∧ v = w₇ := by
    rw [dirPresentFor, if_pos hremoves] at hpresent
    have hanswer : answer pt (.extensionDirPresent input.packageName) w₇ = (.ok present, v) :=
      hpresent
    rw [answer] at hanswer
    split at hanswer
    · cases hanswer
    · cases hanswer
      exact ⟨rfl, rfl⟩
  rw [hdir.2]
  exact hdir.1

/-! ## The rollback -/

theorem prefix_text (rest : String) :
    "NOT restored".toList.isPrefixOf ("NOT restored" ++ rest).toList = true := by
  rw [String.toList_append]
  exact List.isPrefixOf_iff_prefix.mpr (List.prefix_append _ _)

theorem reported_untouched {r : Except PurgeError PurgeExtensionResult}
    (htemplate : v.template = w.template) (hdisk : v.disk = w.disk) : Reported w (r, v) := by
  refine ⟨fun err _ => .inl ⟨htemplate, hdisk⟩, fun hsome hnone => ?_⟩
  exact absurd (htemplate ▸ hnone) hsome

theorem reported_error (hdemand : err.demandsManualRecovery = false)
    (htemplate : v.template = w.template) : Reported w (.error err, v) ↔ v.disk = w.disk := by
  constructor
  · intro h
    rcases h.thrown err rfl with ⟨_, hdisk⟩ | ⟨hmanual, _⟩
    · exact hdisk
    · rw [hdemand] at hmanual
      cases hmanual
  · exact reported_untouched htemplate

theorem auditEntry_operation (input : PurgeInput) (ref : PackageRef)
    (fullRow : Option AgentTemplate) (dangling : DanglingReferences) (operation : AuditOperation)
    (reason : Option String) :
    (auditEntry input ref fullRow dangling operation reason).operation = operation := rfl

theorem exec_audit (pt : Pattern) (v : PurgeWorld) (entry : AuditEntry) :
    ∃ v', target v' = target v ∧ exec (environment pt) v (perform <| PurgeCall.writeAuditEntry entry) =
        (match pt.fault (.writeAuditEntry entry.operation) with
          | some f => .error (.step f.message)
          | none => .ok (), v') := by
  refine ⟨(answer pt (.writeAuditEntry entry) v).2, keeps_step (f := target) (fun _ => rfl) v, ?_⟩
  refine Prod.ext ?_ rfl
  show (answer pt (.writeAuditEntry entry) v).1 = _
  simp only [answer, PurgeCall.step]
  cases pt.fault (.writeAuditEntry entry.operation) <;> rfl

/-- The end of a rollback: the audit entry, and the refusal. -/
def closeRollback (input : PurgeInput) (p : PurgePreparation) (why : String) (d : DiskState) :
    PurgeProg PurgeExtensionResult := do
  perform <| PurgeCall.writeAuditEntry (auditEntry input p.ref p.fullRow p.danglingReferences
    .purgeRolledBack (some (rollbackReason why d)))
  throwErr (.rolledBack why d)

theorem reported_close (htemplate : v.template = w.template) (haudit : w.audit <+: v.audit)
    (why : String) (d : DiskState) :
    Reported w (exec (environment pt) v (closeRollback input p why d)) ↔ v.disk = w.disk ∨
        (notRestored d = true ∧ pt.fault (.writeAuditEntry .purgeRolledBack) = none) := by
  rw [closeRollback, exec_bind]
  cases hf : pt.fault (.writeAuditEntry .purgeRolledBack) with
  | some f =>
    obtain ⟨v', htarget, hexec⟩ := exec_audit pt v (auditEntry input p.ref
      p.fullRow p.danglingReferences .purgeRolledBack (some (rollbackReason why d)))
    rw [auditEntry_operation, hf] at hexec
    rw [hexec]
    show Reported w (.error (.step f.message), v') ↔ _
    rw [reported_error rfl ((congrArg Prod.fst htarget).trans htemplate),
      show v'.disk = v.disk from congrArg Prod.snd htarget]
    simp
  | none =>
    have hexec : exec (environment pt) v (perform <| PurgeCall.writeAuditEntry (auditEntry input p.ref
        p.fullRow p.danglingReferences .purgeRolledBack (some (rollbackReason why d)))) =
        (.ok (), { v with audit := v.audit ++ [auditEntry input p.ref p.fullRow
          p.danglingReferences .purgeRolledBack (some (rollbackReason why d))] }) := by
      show answer pt (.writeAuditEntry _) v = _
      simp only [answer, PurgeCall.step, auditEntry_operation, hf, serve]
    rw [hexec]
    show Reported w (.error (.rolledBack why d), _) ↔ _
    cases hd : notRestored d with
    | false =>
      refine Iff.trans (reported_error hd htemplate) ?_
      simp
    | true =>
      refine ⟨fun _ => .inr ⟨rfl, rfl⟩, fun _ => ⟨?_, ?_⟩⟩
      · rintro err herr
        cases herr
        obtain ⟨new, hnew⟩ := haudit
        refine .inr ⟨hd, new ++ [auditEntry input p.ref p.fullRow p.danglingReferences
          .purgeRolledBack (some (rollbackReason why d))], _, ?_,
          List.mem_append_right _ (.head _), rfl, why, d, rfl, rfl⟩
        show v.audit ++ _ = _
        rw [← hnew, List.append_assoc]
      · intro hsome hnone
        exact absurd (htemplate ▸ hnone) hsome

theorem exec_rollback (why : String) (g : α → PurgeProg PurgeExtensionResult) :
    exec (environment pt) v (rollbackDiskAndThrow input p why >>= g) =
      exec (environment pt) v (rollbackDisk input p >>= closeRollback input p why) := by
  simp only [rollbackDiskAndThrow, closeRollback, exec_bind, exec_throwErr]
  cases exec (environment pt) v (rollbackDisk input p) with
  | mk r v₁ =>
    cases r with
    | error err => rfl
    | ok d =>
      simp only
      cases exec (environment pt) v₁ (perform <| PurgeCall.writeAuditEntry (auditEntry input p.ref
        p.fullRow p.danglingReferences .purgeRolledBack (some (rollbackReason why d)))) with
      | mk r v₂ => cases r <;> rfl

theorem rollbackDisk_none (input : PurgeInput) (hpresent : p.dirPresentAtStart = true)
    (hu : usableTarball p = none) : ∃ d, notRestored d = true ∧ rollbackDisk input p = pure d := by
  rw [usableTarball] at hu
  rw [rollbackDisk, hpresent]
  cases huncertain : p.rollbackVersionUncertain with
  | true => exact ⟨.versionUncertain _ _, prefix_text _, rfl⟩
  | false =>
    rw [huncertain, if_neg Bool.false_ne_true] at hu
    rw [hu]
    exact ⟨.noTarball _, prefix_text _, rfl⟩

theorem exec_rollbackDisk_some {path : String} (hpresent : p.dirPresentAtStart = true)
    (hu : usableTarball p = some path) :
    exec (environment pt) v (rollbackDisk input p) =
      (.ok (match (answer pt (.restoreDirFromTarball input.packageName path) v).1 with
        | .ok _ => .restored
        | .error err => .restoreFailed err.message p.quarantineDir),
        (answer pt (.restoreDirFromTarball input.packageName path) v).2) := by
  rw [usableTarball] at hu
  cases huncertain : p.rollbackVersionUncertain with
  | true =>
    rw [huncertain, if_pos rfl] at hu
    cases hu
  | false =>
    rw [huncertain, if_neg Bool.false_ne_true] at hu
    rw [rollbackDisk, hpresent, huncertain, hu]
    simp only [Bool.not_true, Bool.false_eq_true, if_false, exec_bind, exec_attempt]
    have hexec : exec (environment pt) v (perform <| PurgeCall.restoreDirFromTarball input.packageName path) =
        answer pt (.restoreDirFromTarball input.packageName path) v := rfl
    rw [hexec]
    cases (answer pt (.restoreDirFromTarball input.packageName path) v).1 <;> rfl

theorem keeps_restore (path : String) : Keeps (environment pt) PurgeWorld.template
      (perform <| PurgeCall.restoreDirFromTarball input.packageName path) := by
  refine keeps_step fun u => ?_
  simp only [serve]
  cases u.tarballs.lookup path <;> rfl

/-- **What a rollback reports.** -/
theorem reported_rollback (hdir : p.dirPresentAtStart = w.disk.isSome)
    (hgone : w.disk = none → v.disk = none) (htemplate : v.template = w.template)
    (haudit : w.audit <+: v.audit) (why : String) (g : α → PurgeProg PurgeExtensionResult) :
    Reported w (exec (environment pt) v (rollbackDiskAndThrow input p why >>= g)) ↔
      RollbackCovered pt input p w.disk v := by
  rw [exec_rollback, exec_bind, RollbackCovered]
  by_cases hdisk : w.disk = none
  · have habsent : rollbackDisk input p = pure .absentAtStart := by
      rw [rollbackDisk, hdir, hdisk]
      rfl
    rw [habsent]
    refine ⟨fun _ => .inl hdisk, fun _ => ?_⟩
    refine (reported_close htemplate haudit why .absentAtStart).mpr (.inl ?_)
    rw [hgone hdisk, hdisk]
  have hpresent : p.dirPresentAtStart = true := by
    rw [hdir]
    exact Option.isSome_iff_ne_none.mpr hdisk
  simp only [hdisk, false_or]
  cases hu : usableTarball p with
  | none =>
    obtain ⟨d, hd, heq⟩ := rollbackDisk_none input hpresent hu
    rw [heq]
    refine (reported_close htemplate haudit why d).trans ?_
    rw [hd]
    simp
  | some path =>
    have hkeep : (answer pt (.restoreDirFromTarball input.packageName path) v).2.template =
          v.template := keeps_restore path v
    have hgrows : w.audit <+:
        (answer pt (.restoreDirFromTarball input.packageName path) v).2.audit :=
      haudit.trans (audit_grows pt (perform <| PurgeCall.restoreDirFromTarball input.packageName path) v)
    rw [exec_rollbackDisk_some hpresent hu]
    refine (reported_close (hkeep.trans htemplate) hgrows why _).trans ?_
    cases hr : (answer pt (.restoreDirFromTarball input.packageName path) v).1 with
    | ok _ =>
      have hd : notRestored .restored = false := by decide
      simp [hd, hr]
    | error err =>
      have hd : notRestored (.restoreFailed err.message p.quarantineDir) = true :=
        prefix_text _
      simp [hd, hr]

theorem keeps_rollback (why : String) : Keeps (environment pt) PurgeWorld.template
      (rollbackDisk input p >>= closeRollback input p why) := by
  refine Keeps.bind ?_ fun d => Keeps.bind (keeps_step fun _ => rfl) fun _ => keeps_done _
  rw [rollbackDisk]
  split
  · exact keeps_done _
  split
  · exact keeps_done _
  split
  · exact keeps_done _
  · refine Keeps.bind (Keeps.attempt (keeps_restore _)) fun restored => ?_
    cases restored with
    | ok | error => exact keeps_done _

theorem not_reported_rollback (hsome : w.template ≠ none) (hnone : v.template = none)
    (why : String) (g : α → PurgeProg PurgeExtensionResult) :
    ¬ Reported w (exec (environment pt) v (rollbackDiskAndThrow input p why >>= g)) := by
  rw [exec_rollback]
  intro h
  obtain ⟨result, hok⟩ := h.deleted hsome ((keeps_rollback why v).trans hnone)
  obtain ⟨d, v₁, _, hclose⟩ := exec_bind_ok (Prod.ext hok rfl)
  obtain ⟨_, v₂, _, hthrow⟩ := exec_bind_ok hclose
  cases hthrow

/-! ## The destruction, step by step -/

theorem step_message (message : String) : (PurgeError.step message).message = message := rfl

section Destroy

variable (hremoves : p.removesDiskDb = true)

include hremoves

variable {f : StepFault}

theorem exec_deleteDisk_fault (hf : pt.fault .strictDiskPurge = some f)
    (g : Unit → PurgeProg PurgeExtensionResult) :
    exec (environment pt) w (deleteDisk input p >>= g) =
      exec (environment pt) (afterDiskDelete pt w)
        (rollbackDiskAndThrow input p ("disk delete/reload failed (" ++ f.message ++ ")") >>= g) := by
  have hexec : exec (environment pt) w (perform <| PurgeCall.strictDiskPurge input.packageName) =
      (.error (.step f.message), afterDiskDelete pt w) := by
    show answer pt (.strictDiskPurge input.packageName) w = _
    simp only [answer, PurgeCall.step, hf, afterDiskDelete, serve]
  simp only [exec_bind, deleteDisk, if_pos hremoves, exec_tryCatch, hexec, step_message]

theorem exec_deleteDisk (hf : pt.fault .strictDiskPurge = none) :
    exec (environment pt) w (deleteDisk input p) = (.ok (), { w with disk := none }) := by
  have hexec : exec (environment pt) w (perform <| PurgeCall.strictDiskPurge input.packageName) =
      (.ok (), { w with disk := none }) := by
    show answer pt (.strictDiskPurge input.packageName) w = _
    simp only [answer, PurgeCall.step, hf, serve]
  simp only [deleteDisk, if_pos hremoves, exec_tryCatch, hexec]

theorem exec_deleteRow_fault (hf : pt.fault .dbPurgeAtomic = some f)
    (g : Bool → PurgeProg PurgeExtensionResult) :
    exec (environment pt) w (deleteRow input p >>= g) =
      exec (environment pt) (if f.applied then { w with template := none } else w)
        (rollbackDiskAndThrow input p ("DB delete failed (" ++ f.message ++ ")") >>= g) := by
  have hexec : exec (environment pt) w (perform <| PurgeCall.dbPurgeAtomic input.packageName) =
      (.error (.step f.message), if f.applied then { w with template := none } else w) := by
    show answer pt (.dbPurgeAtomic input.packageName) w = _
    simp only [answer, PurgeCall.step, hf, serve]
  simp only [exec_bind, deleteRow, if_pos hremoves, exec_tryCatch, hexec, step_message]

theorem exec_deleteRow (hf : pt.fault .dbPurgeAtomic = none) :
    exec (environment pt) w (deleteRow input p) =
      (.ok w.template.isSome, { w with template := none }) := by
  have hexec : exec (environment pt) w (perform <| PurgeCall.dbPurgeAtomic input.packageName) =
      (.ok w.template.isSome, { w with template := none }) := by
    show answer pt (.dbPurgeAtomic input.packageName) w = _
    simp only [answer, PurgeCall.step, hf, serve]
  simp only [deleteRow, if_pos hremoves, exec_tryCatch, hexec]

omit hremoves in
theorem exec_rescan : exec (environment pt) w (planExtensionPurge host .rescan input.packageName) =
    (rescanned host input pt w, w) :=
  Prod.ext rfl (keeps_plan id .rescan input.packageName w)

variable {fresh : ExtensionPurgePlan}

theorem exec_finalRescan_refused (hr : rescanned host input pt w = .ok fresh)
    (hrefused : fresh.blocked = true ∨ fresh.digest ≠ p.plan.digest)
    (g : Unit → PurgeProg PurgeExtensionResult) :
    ∃ why, exec (environment pt) w (finalRescan host input p >>= g) =
      exec (environment pt) w (rollbackDiskAndThrow input p why >>= g) := by
  simp only [exec_bind, finalRescan, exec_rescan, hr]
  by_cases hblocked : fresh.blocked = true
  · simp only [if_pos hblocked, if_pos hremoves]
    exact ⟨_, rfl⟩
  · simp only [if_neg hblocked, if_pos (hrefused.resolve_left hblocked), if_pos hremoves]
    exact ⟨_, rfl⟩

omit hremoves in
theorem exec_finalRescan
    (hr : rescanned host input pt w = .ok fresh) (hblocked : fresh.blocked = false)
    (hdigest : fresh.digest = p.plan.digest) :
    exec (environment pt) w (finalRescan host input p) = (.ok (), w) := by
  simp only [exec_bind, finalRescan, exec_rescan, hr, hblocked, hdigest, Bool.false_eq_true,
    if_false, ne_eq, not_true_eq_false, exec_pure]

end Destroy

/-- The teardown is swallowed, and touches neither row nor directory. -/
theorem exec_teardown (input : PurgeInput) (pt : Pattern) (p : PurgePreparation) (w : PurgeWorld)
    (dbDeleted : Bool) : ∃ v, target v = target w ∧
      exec (environment pt) w (teardown input p dbDeleted) = (.ok (), v) := by
  have hswallow : ∀ (c : PurgeCall) (v : PurgeWorld), (∀ w, target (serve pt w c).2 = target w) →
      ∃ v', target v' = target v ∧ exec (environment pt) v (swallow (perform c)) = (.ok (), v') :=
    fun c v hc => ⟨(answer pt c v).2, keeps_step hc v, rfl⟩
  rw [teardown]
  split
  · obtain ⟨v₁, h₁, hexec₁⟩ := hswallow (.capabilityTeardown input.packageName) w fun _ => rfl
    obtain ⟨v₂, h₂, hexec₂⟩ := hswallow (.dataTeardown input.packageName) v₁ fun _ => rfl
    refine ⟨v₂, h₂.trans h₁, ?_⟩
    rw [exec_bind, hexec₁]
    exact hexec₂
  · exact ⟨w, rfl, rfl⟩

/-- What a commit comes to: the last audit entry is written, or throws. -/
theorem exec_commit (input : PurgeInput) (pt : Pattern) (p : PurgePreparation) (w : PurgeWorld)
    (dbDeleted : Bool) :
    ∃ v, target v = target w ∧ exec (environment pt) w (commitPurge input p dbDeleted) =
        match pt.fault (.writeAuditEntry .purgeCommitted) with
        | some f => (.error (.step f.message), v)
        | none =>
          (.ok ⟨input.packageName, false, dbDeleted, p.quarantineDir, p.plan.digest⟩, v) := by
  obtain ⟨v, htarget, hteardown⟩ := exec_teardown input pt p w dbDeleted
  obtain ⟨v', htarget', haudit⟩ := exec_audit pt v (auditEntry input p.ref p.fullRow
    p.danglingReferences .purgeCommitted (some (input.reason.getD committedReason)))
  refine ⟨v', htarget'.trans htarget, ?_⟩
  rw [auditEntry_operation] at haudit
  simp only [commitPurge, exec_bind, hteardown, haudit]
  cases pt.fault (.writeAuditEntry .purgeCommitted) <;> rfl

/-! ## The destruction as a whole -/

variable {w₁ : PurgeWorld}

/-- The destruction of `w₁`, where the call began in `w`. -/
structure Begins (p : PurgePreparation) (w w₁ : PurgeWorld) : Prop where
  removes : p.removesDiskDb = true
  dir : p.dirPresentAtStart = w₁.disk.isSome
  same : target w₁ = target w
  audit : w.audit <+: w₁.audit

theorem Begins.template (h : Begins p w w₁) : w₁.template = w.template := congrArg Prod.fst h.same

theorem Begins.disk (h : Begins p w w₁) : w₁.disk = w.disk := congrArg Prod.snd h.same

theorem Begins.rollback (h : Begins p w w₁) (hgone : w.disk = none → v.disk = none)
    (htemplate : v.template = w₁.template) (haudit : w₁.audit = v.audit) (why : String)
    (g : α → PurgeProg PurgeExtensionResult) :
    Reported w (exec (environment pt) v (rollbackDiskAndThrow input p why >>= g)) ↔
      RollbackCovered pt input p w₁.disk v := by
  rw [h.disk]
  exact reported_rollback (h.disk ▸ h.dir) hgone (htemplate.trans h.template) (haudit ▸ h.audit)
    why g

theorem Begins.rollback_gone (h : Begins p w w₁) (why : String)
    (g : α → PurgeProg PurgeExtensionResult) :
    Reported w (exec (environment pt) { w₁ with disk := none }
        (rollbackDiskAndThrow input p why >>= g)) ↔
      RollbackCovered pt input p w₁.disk { w₁ with disk := none } := by
  have htemplate : ({ w₁ with disk := none } : PurgeWorld).template = w₁.template := rfl
  have haudit : w₁.audit = ({ w₁ with disk := none } : PurgeWorld).audit := rfl
  exact h.rollback (fun _ => rfl) htemplate haudit why g

theorem afterDiskDelete_none (hs : pt.fault .strictDiskPurge = none) :
    afterDiskDelete pt w = { w with disk := none } := by
  rw [afterDiskDelete, hs]

section

variable (h : Begins p w w₁)

include h

theorem reported_diskFault {f : StepFault} (hs : pt.fault .strictDiskPurge = some f) :
    Reported w (exec (environment pt) w₁ (destroy host input p)) ↔ Covered host input pt p w₁ := by
  have hne : pt.fault .strictDiskPurge ≠ none := by
    rw [hs]
    exact Option.some_ne_none f
  have hafter : (w.disk = none → (afterDiskDelete pt w₁).disk = none) ∧
      (afterDiskDelete pt w₁).template = w₁.template ∧
      w₁.audit = (afterDiskDelete pt w₁).audit := by
    rw [afterDiskDelete, hs]
    simp only
    cases f.applied with
    | true => exact ⟨fun _ => rfl, rfl, rfl⟩
    | false => exact ⟨fun hnone => h.disk.trans hnone, rfl, rfl⟩
  rw [destroy, exec_deleteDisk_fault h.removes hs, h.rollback hafter.1 hafter.2.1 hafter.2.2]
  constructor
  · exact fun hcovered => ⟨fun hc => absurd hc hne, fun hc => absurd hc.1 hne,
      fun hc => absurd hc.1 hne, fun _ => hcovered⟩
  · exact fun hcovered => hcovered.rollback (.inl hne)

theorem reported_rescanFault (hs : pt.fault .strictDiskPurge = none)
    (hr : rescanned host input pt { w₁ with disk := none } = .error err) :
    Reported w (exec (environment pt) w₁ (destroy host input p)) ↔ Covered host input pt p w₁ := by
  have hexec : exec (environment pt) w₁ (destroy host input p) =
      (.error err, { w₁ with disk := none }) := by
    rw [destroy, exec_bind, exec_deleteDisk h.removes hs]
    simp only [exec_bind, finalRescan, exec_rescan, hr]
  have hdemand : err.demandsManualRecovery = false :=
    throws_plan .rescan input.packageName _ err hr
  have htemplate : ({ w₁ with disk := none } : PurgeWorld).template = w.template := h.template
  rw [hexec]
  refine (reported_error hdemand htemplate).trans ?_
  rw [← h.disk]
  constructor
  · intro hdisk
    refine ⟨fun _ _ _ => hdisk.symm, fun hc => ?_, fun hc => ?_, fun hc => ?_⟩
    · obtain ⟨_, fresh, hfresh, _⟩ := hc
      rw [hr] at hfresh
      cases hfresh
    · obtain ⟨_, fresh, hfresh, _⟩ := hc
      rw [hr] at hfresh
      cases hfresh
    · rcases hc with hc | ⟨fresh, hfresh, _⟩ | ⟨⟨_, fresh, hfresh, _⟩, _⟩
      · exact absurd hs hc
      · rw [hr] at hfresh
        cases hfresh
      · rw [hr] at hfresh
        cases hfresh
  · exact fun hcovered => (hcovered.rescan hs err hr).symm

theorem reported_refused (hs : pt.fault .strictDiskPurge = none)
    {fresh : ExtensionPurgePlan} (hr : rescanned host input pt { w₁ with disk := none } = .ok fresh)
    (hrefused : fresh.blocked = true ∨ fresh.digest ≠ p.plan.digest) :
    Reported w (exec (environment pt) w₁ (destroy host input p)) ↔ Covered host input pt p w₁ := by
  obtain ⟨why, hexec⟩ := exec_finalRescan_refused h.removes hr hrefused fun _ => do
    let dbDeleted ← deleteRow input p
    commitPurge input p dbDeleted
  have hnot : ¬ ReachesRowDelete host input pt p w₁ := by
    rintro ⟨_, fresh', hfresh', hblocked, hdigest⟩
    rw [hr] at hfresh'
    cases hfresh'
    rcases hrefused with hb | hd
    · rw [hblocked] at hb
      cases hb
    · exact hd hdigest
  rw [destroy, exec_bind, exec_deleteDisk h.removes hs]
  show Reported w (exec (environment pt) { w₁ with disk := none } (finalRescan host input p >>= _)) ↔ _
  rw [hexec, h.rollback_gone, ← afterDiskDelete_none hs]
  constructor
  · intro hcovered
    refine ⟨fun _ err herr => ?_, fun hc => absurd hc hnot, fun hc => absurd hc hnot,
      fun _ => hcovered⟩
    rw [hr] at herr
    cases herr
  · exact fun hcovered => hcovered.rollback (.inr (.inl ⟨fresh, hr, hrefused⟩))

theorem reported_reached (hreach : ReachesRowDelete host input pt p w₁) :
    Reported w (exec (environment pt) w₁ (destroy host input p)) ↔ Covered host input pt p w₁ := by
  obtain ⟨hs, fresh, hr, hblocked, hdigest⟩ := hreach
  have hexec : exec (environment pt) w₁ (destroy host input p) =
      exec (environment pt) { w₁ with disk := none } (do
        let dbDeleted ← deleteRow input p
        commitPurge input p dbDeleted) := by
    rw [destroy, exec_bind, exec_deleteDisk h.removes hs]
    show exec (environment pt) { w₁ with disk := none } (finalRescan host input p >>= _) = _
    rw [exec_bind, exec_finalRescan hr hblocked hdigest]
  have hrescan : pt.fault .strictDiskPurge = none → ∀ err,
      rescanned host input pt { w₁ with disk := none } = .error err → w₁.disk = none := by
    intro _ err herr
    rw [hr] at herr
    cases herr
  rw [hexec]
  cases hd : pt.fault .dbPurgeAtomic with
  | some f =>
    rw [exec_deleteRow_fault h.removes hd]
    have hrolls : RollsBack host input pt p w₁ := by
      refine .inr (.inr ⟨⟨hs, fresh, hr, hblocked, hdigest⟩, ?_⟩)
      rw [hd]
      exact Option.some_ne_none f
    have hcommitted : pt.fault .dbPurgeAtomic ≠ none := by
      rw [hd]
      exact Option.some_ne_none f
    by_cases happlied : f.applied = true ∧ w₁.template ≠ none
    · -- the row is gone, and the error says it is not
      rw [if_pos happlied.1]
      refine ⟨fun hreported => absurd hreported ?_, fun hcovered => ?_⟩
      · exact not_reported_rollback (h.template ▸ happlied.2) rfl _ _
      · exact absurd (hcovered.rowDelete ⟨hs, fresh, hr, hblocked, hdigest⟩ f hd happlied.1)
          happlied.2
    · have hsame : (if f.applied = true then
          ({ w₁ with disk := none, template := none } : PurgeWorld)
          else { w₁ with disk := none }) = { w₁ with disk := none } := by
        by_cases ha : f.applied = true
        · rw [if_pos ha, not_not.mp fun hne => happlied ⟨ha, hne⟩]
        · rw [if_neg ha]
      rw [hsame, h.rollback_gone, ← afterDiskDelete_none hs]
      constructor
      · intro hcovered
        refine ⟨hrescan, fun _ f' hf' ha => ?_, fun _ hnone => absurd hnone hcommitted,
          fun _ => hcovered⟩
        rw [hd] at hf'
        cases hf'
        exact not_not.mp fun hne => happlied ⟨ha, hne⟩
      · exact fun hcovered => hcovered.rollback hrolls
  | none =>
    rw [exec_bind, exec_deleteRow h.removes hd]
    obtain ⟨v, htarget, hcommit⟩ := exec_commit input pt p
      { w₁ with disk := none, template := none } w₁.template.isSome
    show Reported w (exec (environment pt) { w₁ with disk := none, template := none }
      (commitPurge input p w₁.template.isSome)) ↔ _
    rw [hcommit]
    have hnorolls : ¬ RollsBack host input pt p w₁ := by
      rintro (hc | ⟨fresh', hfresh', hrefused⟩ | ⟨_, hc⟩)
      · exact hc hs
      · rw [hr] at hfresh'
        cases hfresh'
        rcases hrefused with hb | hne
        · rw [hblocked] at hb
          cases hb
        · exact hne hdigest
      · exact hc hd
    have hrow : ReachesRowDelete host input pt p w₁ → ∀ f, pt.fault .dbPurgeAtomic = some f →
        f.applied = true → w₁.template = none := by
      intro _ f hf
      rw [hd] at hf
      cases hf
    cases ha : pt.fault (.writeAuditEntry .purgeCommitted) with
    | none =>
      refine ⟨fun _ => ⟨hrescan, hrow, fun _ _ hne => absurd ha hne,
        fun hc => absurd hc hnorolls⟩, fun _ => ⟨fun err herr => ?_, fun _ _ => ⟨_, rfl⟩⟩⟩
      cases herr
    | some f =>
      have hne : pt.fault (.writeAuditEntry .purgeCommitted) ≠ none := by
        rw [ha]
        exact Option.some_ne_none f
      constructor
      · intro hreported
        refine ⟨hrescan, hrow, fun _ _ _ => ?_, fun hc => absurd hc hnorolls⟩
        rcases hreported.thrown _ rfl with ⟨htemplate, hdisk⟩ | ⟨hmanual, _⟩
        · rw [← h.template, ← h.disk] at *
          exact ⟨htemplate.symm.trans (congrArg Prod.fst htarget),
            hdisk.symm.trans (congrArg Prod.snd htarget)⟩
        · cases hmanual
      · intro hcovered
        obtain ⟨htemplate, hdisk⟩ := hcovered.committed ⟨hs, fresh, hr, hblocked, hdigest⟩ hd hne
        refine reported_untouched ?_ ?_
        · exact (congrArg Prod.fst htarget).trans (htemplate.symm.trans h.template)
        · exact (congrArg Prod.snd htarget).trans (hdisk.symm.trans h.disk)

/-- **When a destruction reports the truth.** -/
theorem reported_destroy :
    Reported w (exec (environment pt) w₁ (destroy host input p)) ↔ Covered host input pt p w₁ := by
  cases hs : pt.fault .strictDiskPurge with
  | some f => exact reported_diskFault h hs
  | none =>
    cases hr : rescanned host input pt { w₁ with disk := none } with
    | error err => exact reported_rescanFault h hs hr
    | ok fresh =>
      by_cases hrefused : fresh.blocked = true ∨ fresh.digest ≠ p.plan.digest
      · exact reported_refused h hs hr hrefused
      · rw [not_or, not_not, Bool.not_eq_true] at hrefused
        exact reported_reached h ⟨hs, fresh, hr, hrefused.1, hrefused.2⟩

end

theorem keeps_destroy (host : PurgeHost) (input : PurgeInput) (pt : Pattern)
    (hremoves : p.removesDiskDb = false) :
    Keeps (environment pt) target (destroy host input p) := by
  have hne : ¬ p.removesDiskDb = true := by
    rw [hremoves]
    exact Bool.false_ne_true
  rw [destroy]
  refine Keeps.bind ?_ fun _ => Keeps.bind ?_ fun _ => Keeps.bind ?_ fun dbDeleted => ?_
  · rw [deleteDisk, if_neg hne]
    exact keeps_done _
  · refine Keeps.bind (keeps_plan target .rescan _) fun fresh => ?_
    simp only [if_neg hne]
    split
    · exact keeps_done _
    · split
      · exact keeps_done _
      · exact keeps_done _
  · rw [deleteRow, if_neg hne]
    exact keeps_done _
  · intro w
    obtain ⟨v, htarget, hexec⟩ := exec_commit input pt p w dbDeleted
    rw [hexec]
    cases pt.fault (.writeAuditEntry .purgeCommitted) with
    | some | none => exact htarget

/-- **A purge that is never silently half done.**  It throws with everything in place,
    or demands manual recovery, and it succeeds if it has deleted the row, exactly when
    the destruction it comes to, if it comes to one, is spared the throws of `Covered`. -/
theorem reported_iff (host : PurgeHost) (input : PurgeInput) (pt : Pattern) (w : PurgeWorld) :
    Reported w (exec (environment pt) w (purgeExtension host input)) ↔
      ∀ p w₁, exec (environment pt) w (preparePurge host input) = (.ok p, w₁) →
        p.removesDiskDb = true → Covered host input pt p w₁ := by
  rw [purgeExtension, exec_bind]
  have htarget := keeps_prepare host input pt w
  have haudit := audit_grows pt (preparePurge host input) w
  cases hprepare : exec (environment pt) w (preparePurge host input) with
  | mk r w₁ =>
    rw [hprepare] at htarget haudit
    cases r with
    | error err =>
      refine ⟨fun _ p w₂ h => ?_, fun _ => ?_⟩
      · cases h
      · exact reported_untouched (congrArg Prod.fst htarget) (congrArg Prod.snd htarget)
    | ok p =>
      cases hremoves : p.removesDiskDb with
      | false =>
        refine ⟨fun _ p' w₂ h hp => ?_, fun _ => ?_⟩
        · cases h
          rw [hremoves] at hp
          cases hp
        · have hkept := (keeps_destroy host input pt hremoves
            w₁).trans htarget
          exact reported_untouched (congrArg Prod.fst hkept) (congrArg Prod.snd hkept)
      | true =>
        have hbegins : Begins p w w₁ := ⟨hremoves, prepared hprepare hremoves, htarget, haudit⟩
        refine (reported_destroy hbegins).trans ⟨fun h p' w₂ hp' _ => ?_, fun h => ?_⟩
        · cases hp'
          exact h
        · exact h p w₁ rfl hremoves

/-- A host outside production, with a digest of its own. -/
def devHost : PurgeHost where
  sha256 := fun _ => "digest"
  localeLe := fun _ _ => true
  isSystemExtension := fun _ => false
  supabaseDbUrl := none
  dbProdHosts := none
  urlHostname := fun _ => none

/-- What the registry and the rest answer for a published agent. -/
def agentReply : (c : PurgeCall) → c.Reply
  | .readInstalledStatuses _ => []
  | .loadVerdaccioConfig _ => ⟨"http://localhost:4873", "@cinatra-ai"⟩
  | .resolvePackageKind _ _ _ => some "agent"
  | .getAgentPackage _ _ _ => ⟨some "private", some "@cinatra-ai"⟩
  | .listVersions _ _ _ => ⟨["0.1.0"], [("latest", "0.1.0")]⟩
  | .readTemplateByPackageName _ _ => none
  | .readTemplatesDependingOn _ _ => []
  | .readTemplatesReferencingChild _ _ => []
  | .listOnDiskOasDependents _ _ => []
  | .fetchPackument _ _ => none
  | .makeQuarantineDir _ => "/data/extension-quarantine/foo"
  | .downloadTarball _ _ _ _ => true
  | .writeManifest _ => ()
  | .writePackument _ _ => ()
  | .computeDanglingReferences _ => ⟨"0", false, [], false⟩
  | .writeAuditEntry _ => ()
  | .extensionDirPresent _ => true
  | .strictDiskPurge _ => ()
  | .restoreDirFromTarball _ _ => ()
  | .dbPurgeAtomic _ => true
  | .capabilityTeardown _ => ()
  | .dataTeardown _ => ()

/-- The registry is gone when the second plan asks for the versions. -/
def registryLost : Pattern where
  fault := fun step => if step = .listVersions .rescan then some ⟨false, "ECONNREFUSED"⟩ else none
  reply := agentReply
  published := fun _ => some "package"
  extractOver := fun tarball _ => tarball

def installedAgent : PurgeWorld where
  template := some ⟨"tmpl-1", some "0.1.0", .null⟩
  disk := some "package"
  tarballs := []
  audit := []

def purgeInput : PurgeInput where
  packageName := "@cinatra-ai/foo-agent"
  expectedDigest := some "digest"
  reason := none
  actor := ⟨"human", some "ada", none⟩

theorem rescan_unreported :
    ¬ ∀ (host : PurgeHost) (input : PurgeInput) (pt : Pattern) (w : PurgeWorld),
      Reported w (exec (environment pt) w (purgeExtension host input)) := by
  intro h
  rcases (h devHost purgeInput registryLost installedAgent).thrown (.step "ECONNREFUSED") rfl with
    ⟨_, hdisk⟩ | ⟨hmanual, _⟩
  · cases hdisk
  · cases hmanual

end ExtPurge
