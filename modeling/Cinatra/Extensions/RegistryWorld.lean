import Cinatra.Extensions.InstallAnchor
import Cinatra.Extensions.RegistryPipeline

/-! # RegistryWorld — what the pipeline's steps do

    The journal, the canonical rows and the host-port grants.  A step may fail, and
    a write that fails may still have taken effect; what a step that touches none of
    the tables replies is left open.  The world keeps the restore failures it has
    been told of, and of every call whether it threw and whether it took effect. -/

namespace ExtRegistry

open Process RowTable ExtCanonical ExtClosure ExtInstallOps
open ExtWorkflowSaga (SagaHost SagaError Provenance truthy)
open ExtSagaWorld (GrantStatus HostPortGrant normalizePorts computeRequestedPortsHash
  recordRequestedGrant approveGrant recordedSource)

theorem normalizePorts_idem (ports : List String) :
    normalizePorts (normalizePorts ports) = normalizePorts ports := by
  have hnodup : (normalizePorts ports).Nodup :=
    (CodeUnits.jsSort_perm _).symm.nodup (List.nodup_dedup ports)
  rw [normalizePorts, List.dedup_eq_self.mpr hnodup]
  exact (CodeUnits.sortBy_sorted id ports.dedup).insertionSort_eq

/-- A grant as its writers leave it. -/
structure StoredGrant extends HostPortGrant where
  normalized : normalizePorts approvedPorts = approvedPorts

@[ext] theorem StoredGrant.ext {g g' : StoredGrant} (h : g.toHostPortGrant = g'.toHostPortGrant) :
    g = g' := by
  cases g
  cases g'
  cases h
  rfl

/-- The row a writer makes of a grant. -/
def StoredGrant.of (g : HostPortGrant) : StoredGrant where
  toHostPortGrant := { g with approvedPorts := normalizePorts g.approvedPorts }
  normalized := normalizePorts_idem g.approvedPorts

theorem StoredGrant.of_stored (g : StoredGrant) : StoredGrant.of g.toHostPortGrant = g := by
  apply StoredGrant.ext
  show { g.toHostPortGrant with approvedPorts := normalizePorts g.approvedPorts } = _
  rw [g.normalized]

/-! ## Canonical rows -/

/-- The table `installed_extension`, under its primary key. -/
structure CanonicalTable where
  rows : List InstalledExtension
  keyed : (rows.map InstalledExtension.id).Nodup

/-- `UPDATE … WHERE id = …`. -/
def CanonicalTable.update (t : CanonicalTable) (id : String)
    (f : InstalledExtension → InstalledExtension) (hf : ∀ r, (f r).id = r.id) : CanonicalTable where
  rows := updateWhere (fun r => r.id = id) f t.rows
  keyed := by
    rw [map_updateWhere _ _ hf]
    exact t.keyed

def readInstalledExtensionsByPackageName (rows : List InstalledExtension) (packageName : String) :
    List InstalledExtension := rows.filter (fun r => r.packageName = packageName)

/-- The single live row of an organisation, if there is exactly one. -/
def pickSingleActiveRow (rows : List InstalledExtension) (orgId : Option String) :
    Option InstalledExtension :=
  match rows.filter (fun r => r.present && r.organizationId = orgId) with
  | [r] => some r
  | _ => none

/-- The row an install of the scope writes to. -/
def CanonicalTable.target (t : CanonicalTable) (scope : Scope) : Option InstalledExtension :=
  pickSingleActiveRow (readInstalledExtensionsByPackageName t.rows scope.packageName) scope.orgId

/-- `readCurrentSource`: the source, when it is verdaccio's. -/
def currentSource : ExtensionSource → Option Provenance
  | .verdaccio v => some ⟨v.version, v.registryUrl, v.integrity, truthy v.contentHash,
      truthy v.attestedSha256, truthy v.signature, truthy v.closureHash⟩
  | .github _ _ _ _ => none
  | .local _ _ => none

/-- The source `recordProvenance` writes: a gatekept install names the final registry. -/
def provenanceSource (host : RegistryHost) (p : Provenance) (packageName : String) :
    ExtensionSource :=
  recordedSource
    { p with registryUrl := if host.gatekept then host.finalRegistryUrl else p.registryUrl }
    packageName

/-! ## The world -/

/-- What became of a call. -/
structure Entry where
  call : Call
  threw : Bool
  landed : Bool

structure World where
  clock : Instant
  journal : Journal
  table : CanonicalTable
  grants : Scope → Option StoredGrant
  events : List InstallDurableRestoreFailureEvent
  log : List Entry

/-- A failure; the call may have taken effect. -/
structure Fault where
  error : SagaError
  landed : Bool

structure Answer where
  fault : Option Fault := none
  elapsedMs : Nat := 0
  /-- What a call that touches no table replies. -/
  reply : (c : Call) → Call.Reply c

def World.statement (w : World) (r : Except JournalError Journal) : Except SagaError Unit × World :=
  match r with
  | .ok j => (.ok (), { w with journal := j })
  | .error err => (.error (.journal err), w)

def World.setGrant (w : World) (scope : Scope) (r : Except SagaError HostPortGrant) :
    Except SagaError Unit × World :=
  match r with
  | .ok g => (.ok (), { w with grants := Function.update w.grants scope (some (StoredGrant.of g)) })
  | .error err => (.error err, w)

/-- A write to the single live row of a scope, unless the row refuses it. -/
def World.switchRow (w : World) (scope : Scope) (step : String)
    (refusal : InstalledExtension → Option SagaError)
    (f : InstalledExtension → InstalledExtension) (hf : ∀ r, (f r).id = r.id) :
    Except SagaError Unit × World :=
  match w.table.target scope with
  | none => (.error (.noSingleRow step scope), w)
  | some row =>
    match refusal row with
    | some err => (.error err, w)
    | none => (.ok (), { w with table := w.table.update row.id f hf })

/-- `sourceSwitchExtension`. -/
def World.switchSource (w : World) (scope : Scope) (source : ExtensionSource) :
    Except SagaError Unit × World :=
  w.switchRow scope "recordProvenance"
    (fun _ => if validateExtensionSource source = [] then none
      else some (.sourceRefused (validateExtensionSource source)))
    (fun r => { r with source := source }) (fun _ => rfl)

/-- The problems of edges, as `recordExtensionDependencies` finds them. -/
def edgeProblems (deps : List ExtensionDependency) (packageName : String) : List String :=
  deps.flatMap (fun dep => validateExtensionDependencyShape dep packageName)

/-- `recordExtensionDependencies`. -/
def World.switchDependencies (w : World) (scope : Scope) (deps : List ExtensionDependency) :
    Except SagaError Unit × World :=
  w.switchRow scope "persistDependencyEdges"
    (fun row => if edgeProblems deps row.packageName = [] then none
      else some (.edgeRefused (edgeProblems deps row.packageName)))
    (fun r => { r with dependencies := deps }) (fun _ => rfl)

/-- The grant of a scope, as it is read. -/
def World.grant (w : World) (scope : Scope) : Option HostPortGrant :=
  (w.grants scope).map StoredGrant.toHostPortGrant

def serve (host : RegistryHost) (f : Answer) (w : World) :
    (c : Call) → Except SagaError (Call.Reply c) × World
  | .readInstallOp scope => (.ok (readInstallOp w.journal scope), w)
  | .readGrantForScope scope => (.ok (w.grant scope), w)
  | .readCurrentSource scope =>
    (.ok ((w.table.target scope).bind (fun r => currentSource r.source)), w)
  | .readCurrentDependencies scope =>
    (.ok ((w.table.target scope).map InstalledExtension.dependencies), w)
  | .beginInstallOp installOpId scope digest =>
    w.statement (beginInstallOp w.clock
      { installOpId := installOpId, packageName := scope.packageName, orgId := scope.orgId,
        digest := some digest } w.journal)
  | .advanceInstallOpPhase installOpId phase =>
    w.statement (advanceInstallOpPhase w.clock installOpId phase none w.journal)
  | .finalizeInstallOp installOpId =>
    w.statement (finalizeInstallOp w.clock installOpId w.journal)
  | .recordRequestedGrant scope ports =>
    w.setGrant scope (.ok (recordRequestedGrant host.toSagaHost ports (w.grant scope)))
  | .approveGrant scope approved requested approvedBy =>
    w.setGrant scope (approveGrant host.toSagaHost approved requested approvedBy (w.grant scope))
  | .restoreGrant scope grant => w.setGrant scope (.ok grant)
  | .recordProvenance _ scope p =>
    w.switchSource scope (provenanceSource host p scope.packageName)
  | .persistDependencyEdges scope deps => w.switchDependencies scope deps
  | .emitOperationalEvent event => (.ok (), { w with events := w.events ++ [event] })
  | c => (.ok (f.reply c), w)

def isOk {ε α : Type} : Except ε α → Bool
  | .ok _ => true
  | .error _ => false

/-- The console takes an event and does not fail. -/
def Call.fallible : Call → Bool
  | .emitOperationalEvent _ => false
  | _ => true

/-- Time passes; the call is served, or it fails, before it has taken effect or after. -/
def attemptStep (host : RegistryHost) (f : Answer) (c : Call) (w : World) :
    Except SagaError (Call.Reply c) × World × Bool :=
  let r := serve host f w c
  match if c.fallible then f.fault else none with
  | none => (r.1, r.2, isOk r.1)
  | some fault =>
    (.error fault.error, if fault.landed then r.2 else w, fault.landed && isOk r.1)

def answer (host : RegistryHost) (f : Answer) (c : Call) (w : World) :
    Except SagaError (Call.Reply c) × World :=
  let r := attemptStep host f c { w with clock := w.clock + f.elapsedMs }
  (r.1, { r.2.1 with log := w.log ++ [⟨c, !isOk r.1, r.2.2⟩] })

def environment (host : RegistryHost) : Environment Call Call.Reply SagaError World Answer :=
  ⟨answer host⟩

/-- What holds at the end of every run of a program. -/
abbrev Ends {α : Type} (host : RegistryHost) (p : P α)
    (Q : Except SagaError α → World → Prop) (w : World) : Prop :=
  Spec (environment host) (fun _ _ => True) p Q w

def registryRun (host : RegistryHost) (input : InstallPipelineInput) (drawn : String)
    (s : Nat → Answer) (start : World) : Except SagaError InstallPipelineResult × World :=
  run (environment host) (installExtensionFromRegistry host.toSagaHost input drawn) s start

end ExtRegistry
