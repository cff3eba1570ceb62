import Cinatra.Extensions.RegistryWorld

/-! # RegistryEffects — what one call does to the axes of an install

    A call either leaves the tables alone or has the effect it is served with, and
    the log says which (`answer_cases`).  Each write is of one axis (`Call.writes`)
    and leaves the others as they are. -/

namespace ExtRegistry

open RowTable ExtCanonical ExtClosure ExtInstallOps
open ExtWorkflowSaga (SagaHost SagaError Provenance truthy)
open ExtSagaWorld (GrantStatus HostPortGrant normalizePorts)

/-- The axis a call writes. -/
def Call.writes : Call → Option DurableStep
  | .beginInstallOp _ _ _ | .advanceInstallOpPhase _ _ | .finalizeInstallOp _ => some .journal
  | .recordRequestedGrant _ _ | .approveGrant _ _ _ _ | .restoreGrant _ _ => some .grant
  | .recordProvenance _ _ _ => some .provenance
  | .persistDependencyEdges _ _ => some .dependencies
  | _ => none

/-- A call that writes nothing and tells nothing. -/
def Call.idle (c : Call) : Prop := c.writes = none ∧ c.fallible = true

/-- The restore of a source. -/
def Call.restoresSource : Call → Bool
  | .recordProvenance .restore _ _ => true
  | _ => false

def World.source (w : World) (scope : Scope) : Option Provenance :=
  (w.table.target scope).bind (fun r => currentSource r.source)

def World.edges (w : World) (scope : Scope) : Option (List ExtensionDependency) :=
  (w.table.target scope).map InstalledExtension.dependencies

variable {host : RegistryHost} {f : Answer} {w w' : World} {c : Call} {scope : Scope}

variable {t : CanonicalTable} {id : String}

/-- A row-wise change that leaves a row's place leaves the pick. -/
theorem target_update {g : InstalledExtension → InstalledExtension} {hg : ∀ r, (g r).id = r.id}
    (hpackage : ∀ r, (g r).packageName = r.packageName) (hstatus : ∀ r, (g r).status = r.status)
    (horg : ∀ r, (g r).organizationId = r.organizationId) : (t.update id g hg).target scope =
      (t.target scope).map (fun r => if r.id = id then g r else r) := by
  have hmap : ∀ (rows : List InstalledExtension) (p : InstalledExtension → Bool),
      (∀ r, p (g r) = p r) →
      (updateWhere (fun r => r.id = id) g rows).filter p =
        updateWhere (fun r => r.id = id) g (rows.filter p) := by
    intro rows p hp
    rw [updateWhere, updateWhere, List.filter_map]
    congr 1
    apply List.filter_congr
    intro r _
    show p (if decide (r.id = id) = true then g r else r) = p r
    split
    · exact hp r
    · rfl
  rw [CanonicalTable.target, CanonicalTable.target, readInstalledExtensionsByPackageName,
    readInstalledExtensionsByPackageName, CanonicalTable.update, pickSingleActiveRow,
    pickSingleActiveRow, hmap _ _ fun r => by rw [hpackage], hmap _ _ fun r => by
      rw [InstalledExtension.present, InstalledExtension.present, hstatus, horg]]
  cases ((t.rows.filter fun r => r.packageName = scope.packageName).filter fun r =>
      r.present && r.organizationId = scope.orgId) with
  | nil => rfl
  | cons a rest =>
    cases rest with
    | nil =>
      show some (if decide (a.id = id) = true then g a else a) = some (if a.id = id then g a else a)
      simp only [decide_eq_true_eq]
    | cons b rest => rfl

variable {source : ExtensionSource} {deps : List ExtensionDependency}

/-! ## One call -/

theorem statement_error {r : Except JournalError Journal} (h : isOk (w.statement r).1 = false) :
    (w.statement r).2 = w := by
  cases r with
  | ok j => cases h
  | error e => rfl

variable {r : Except SagaError HostPortGrant}

theorem setGrant_error (h : isOk (w.setGrant scope r).1 = false) : (w.setGrant scope r).2 = w := by
  cases r with
  | ok g => cases h
  | error e => rfl

section Switch

variable {step : String} {refusal : InstalledExtension → Option SagaError}
variable {g : InstalledExtension → InstalledExtension} {hg : ∀ r, (g r).id = r.id}

theorem switchRow_error (h : isOk (w.switchRow scope step refusal g hg).1 = false) :
    (w.switchRow scope step refusal g hg).2 = w := by
  revert h
  rw [World.switchRow]
  cases w.table.target scope with
  | none => exact fun _ => rfl
  | some row =>
    dsimp only
    cases refusal row with
    | none => exact fun h => by cases h
    | some err => exact fun _ => rfl

theorem switchRow_rest : (w.switchRow scope step refusal g hg).2.journal = w.journal ∧
      (w.switchRow scope step refusal g hg).2.grants = w.grants ∧
      (w.switchRow scope step refusal g hg).2.events = w.events := by
  rw [World.switchRow]
  cases w.table.target scope with
  | none => exact ⟨rfl, rfl, rfl⟩
  | some row =>
    dsimp only
    cases refusal row <;> exact ⟨rfl, rfl, rfl⟩

variable (hpackage : ∀ r, (g r).packageName = r.packageName) (hstatus : ∀ r, (g r).status = r.status)
variable (horg : ∀ r, (g r).organizationId = r.organizationId)
include hpackage hstatus horg

/-- **A write that is answered** is on the row that was the pick, and is. -/
theorem switchRow_ok (h : isOk (w.switchRow scope step refusal g hg).1 = true) :
    ∃ row, w.table.target scope = some row ∧
      (w.switchRow scope step refusal g hg).2.table.target scope = some (g row) := by
  revert h
  rw [World.switchRow]
  cases hrow : w.table.target scope with
  | none => exact fun h => by cases h
  | some row =>
    dsimp only
    cases refusal row with
    | none =>
      refine fun _ => ⟨row, rfl, ?_⟩
      rw [target_update hpackage hstatus horg, hrow, Option.map_some, if_pos rfl]
    | some err => exact fun h => by cases h

theorem switchRow_target : ((w.switchRow scope step refusal g hg).2.table.target scope).isSome =
    (w.table.target scope).isSome := by
  cases hok : isOk (w.switchRow scope step refusal g hg).1 with
  | true =>
    obtain ⟨row, hrow, hnew⟩ := switchRow_ok hpackage hstatus horg hok
    rw [hrow, hnew]
    rfl
  | false => rw [switchRow_error hok]

end Switch

theorem serve_error (h : isOk (serve host f w c).1 = false) : (serve host f w c).2 = w := by
  cases c with
  | beginInstallOp | advanceInstallOpPhase | finalizeInstallOp => exact statement_error h
  | recordRequestedGrant | approveGrant | restoreGrant => exact setGrant_error h
  | recordProvenance => exact switchRow_error h
  | persistDependencyEdges => exact switchRow_error h
  | _ => cases h

/-- The axes and the events, without clock and log. -/
structure World.Alike (w w' : World) : Prop where
  journal : w'.journal = w.journal
  table : w'.table = w.table
  grants : w'.grants = w.grants
  events : w'.events = w.events

theorem World.Alike.refl (w : World) : w.Alike w := ⟨rfl, rfl, rfl, rfl⟩

theorem World.Alike.trans {w'' : World} (h : w.Alike w') (h' : w'.Alike w'') : w.Alike w'' :=
  ⟨h'.journal.trans h.journal, h'.table.trans h.table, h'.grants.trans h.grants,
    h'.events.trans h.events⟩

/-- **One call**: it is logged; where it took effect it was served, where not the
    tables are as they were. -/
theorem answer_cases (host : RegistryHost) (f : Answer) (c : Call) (w : World) :
    ∃ threw landed, (answer host f c w).2.log = w.log ++ [⟨c, threw, landed⟩] ∧
      isOk (answer host f c w).1 = !threw ∧ (threw = false → landed = true) ∧
      (landed = false → w.Alike (answer host f c w).2) ∧
      (landed = true → isOk (serve host f { w with clock := w.clock + f.elapsedMs } c).1 = true ∧
        (serve host f { w with clock := w.clock + f.elapsedMs } c).2.Alike (answer host f c w).2) ∧
      (threw = false →
        (answer host f c w).1 = (serve host f { w with clock := w.clock + f.elapsedMs } c).1) := by
  simp only [answer, attemptStep]
  have hno : ∀ {r : Except SagaError (Call.Reply c)}, isOk r = false → ¬ isOk r = true := by
    intro r h h'
    rw [h] at h'
    cases h'
  cases hfault : (if c.fallible then f.fault else none) with
  | none =>
    refine ⟨_, _, rfl, by simp, ?_, ?_, ?_, fun _ => rfl⟩
    · intro h
      simpa using h
    · intro h
      simp only [serve_error h]
      exact ⟨rfl, rfl, rfl, rfl⟩
    · exact fun h => ⟨h, rfl, rfl, rfl, rfl⟩
  | some fault =>
    cases hl : fault.landed with
    | false =>
      simp only [hl, Bool.false_eq_true, if_false, Bool.false_and]
      refine ⟨_, _, rfl, rfl, fun h => ?_, fun _ => ⟨rfl, rfl, rfl, rfl⟩, fun h => ?_, fun h => ?_⟩
      · cases h
      · cases h
      · cases h
    | true =>
      simp only [hl, if_true, Bool.true_and]
      refine ⟨_, _, rfl, rfl, fun h => ?_, fun h => ?_, fun h => ⟨h, rfl, rfl, rfl, rfl⟩,
        fun h => ?_⟩
      · cases h
      · rw [serve_error h]
        exact ⟨rfl, rfl, rfl, rfl⟩
      · cases h

/-! ## What a served call leaves -/

theorem statement_rest {r : Except JournalError Journal} :
    (w.statement r).2.table = w.table ∧ (w.statement r).2.grants = w.grants ∧
      (w.statement r).2.events = w.events := by
  cases r <;> exact ⟨rfl, rfl, rfl⟩

theorem setGrant_rest :
    (w.setGrant scope r).2.journal = w.journal ∧ (w.setGrant scope r).2.table = w.table ∧
      (w.setGrant scope r).2.events = w.events := by
  cases r <;> exact ⟨rfl, rfl, rfl⟩

theorem serve_journal (h : c.writes ≠ some .journal) :
    (serve host f w c).2.journal = w.journal := by
  cases c with
  | beginInstallOp | advanceInstallOpPhase | finalizeInstallOp => exact absurd rfl h
  | recordRequestedGrant | approveGrant | restoreGrant => exact setGrant_rest.1
  | recordProvenance => exact switchRow_rest.1
  | persistDependencyEdges => exact switchRow_rest.1
  | _ => rfl

theorem serve_grants (h : c.writes ≠ some .grant) : (serve host f w c).2.grants = w.grants := by
  cases c with
  | recordRequestedGrant | approveGrant | restoreGrant => exact absurd rfl h
  | beginInstallOp | advanceInstallOpPhase | finalizeInstallOp => exact statement_rest.2.1
  | recordProvenance => exact switchRow_rest.2.1
  | persistDependencyEdges => exact switchRow_rest.2.1
  | _ => rfl

theorem serve_table (hsource : c.writes ≠ some .provenance)
    (hedges : c.writes ≠ some .dependencies) : (serve host f w c).2.table = w.table := by
  cases c with
  | recordProvenance => exact absurd rfl hsource
  | persistDependencyEdges => exact absurd rfl hedges
  | recordRequestedGrant | approveGrant | restoreGrant => exact setGrant_rest.2.1
  | beginInstallOp | advanceInstallOpPhase | finalizeInstallOp => exact statement_rest.1
  | _ => rfl

theorem serve_events (h : c.fallible = true) : (serve host f w c).2.events = w.events := by
  cases c with
  | emitOperationalEvent => cases h
  | recordRequestedGrant | approveGrant | restoreGrant => exact setGrant_rest.2.2
  | beginInstallOp | advanceInstallOpPhase | finalizeInstallOp => exact statement_rest.2.2
  | recordProvenance => exact switchRow_rest.2.2
  | persistDependencyEdges => exact switchRow_rest.2.2
  | _ => rfl

/-! ## What a served write makes of its axis -/

theorem switchSource_ok (h : isOk (w.switchSource scope source).1 = true) :
    (w.switchSource scope source).2.source scope = currentSource source ∧
      (w.switchSource scope source).2.edges scope = w.edges scope := by
  obtain ⟨row, hrow, hnew⟩ := switchRow_ok (g := fun r => { r with source := source })
    (fun _ => rfl) (fun _ => rfl) (fun _ => rfl) h
  simp [World.source, World.edges, World.switchSource, hrow, hnew]

theorem switchDependencies_ok (h : isOk (w.switchDependencies scope deps).1 = true) :
    (w.switchDependencies scope deps).2.edges scope = some deps ∧
      (w.switchDependencies scope deps).2.source scope = w.source scope := by
  obtain ⟨row, hrow, hnew⟩ := switchRow_ok (g := fun r => { r with dependencies := deps })
    (fun _ => rfl) (fun _ => rfl) (fun _ => rfl) h
  simp [World.source, World.edges, World.switchDependencies, hrow, hnew]

theorem currentSource_provenance (host : RegistryHost) (p : Provenance) (packageName : String) :
    currentSource (provenanceSource host p packageName) = some
      { p with
        registryUrl := if host.gatekept then host.finalRegistryUrl else p.registryUrl
        contentHash := truthy p.contentHash
        attestedSha256 := truthy p.attestedSha256
        signature := truthy p.signature
        closureHash := truthy p.closureHash } := rfl

theorem truthy_truthy (x : Option String) : truthy (truthy x) = truthy x := by
  rw [truthy, truthy, Option.filter_filter]
  simp

theorem truthy_getD (x : Option String) : truthy (some (x.getD "")) = truthy x := by
  cases x with
  | none | some => rfl

/-- **A captured source comes back as it was**, unless its registry is renamed. -/
theorem currentSource_restored {p : Provenance} (hp : currentSource source = some p)
    (hurl : host.gatekept = true → p.registryUrl = host.finalRegistryUrl) (packageName : String) :
    currentSource (provenanceSource host (restored p) packageName) = some p := by
  cases source with
  | github => cases hp
  | «local» => cases hp
  | verdaccio v =>
    cases hp
    rw [currentSource_provenance]
    simp only [restored, truthy_getD, truthy_truthy]
    have hname : (if host.gatekept = true then host.finalRegistryUrl else v.registryUrl) =
        v.registryUrl := by
      split
      · rename_i hg
        exact (hurl hg).symm
      · rfl
    rw [hname]

theorem setGrant_ok
    (h : isOk (w.setGrant scope r).1 = true) : (w.setGrant scope r).2.grant scope ≠ none := by
  cases r with
  | error e => cases h
  | ok g =>
    show (Function.update w.grants scope (some (StoredGrant.of g)) scope).map _ ≠ none
    rw [Function.update_self]
    exact Option.some_ne_none _

theorem setGrant_stored (g : StoredGrant) :
    (w.setGrant scope (.ok g.toHostPortGrant)).2.grant scope = some g.toHostPortGrant := by
  show (Function.update w.grants scope (some (StoredGrant.of g.toHostPortGrant)) scope).map _ = _
  rw [Function.update_self, StoredGrant.of_stored]
  rfl

end ExtRegistry
