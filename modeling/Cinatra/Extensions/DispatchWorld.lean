import Cinatra.Extensions.Dispatcher

/-! # DispatchWorld — what the dispatcher's calls do

    The canonical rows, the journal and the grants are those of the pipeline, which
    is run to its end by one call.  A handler that is not the connectors' may do
    anything to them.  Of the dispatcher's own calls the world keeps those that
    threw; a write that threw may have taken effect. -/

namespace ExtDispatch

open Process RowTable ExtCanonical ExtClosure ExtInstallOps
open ExtWorkflowSaga (SagaError truthy)
open ExtRegistry (RegistryHost InstallPipelineInput InstallPipelineResult CanonicalTable
  pickSingleActiveRow registryRun isOk)

def setStatus (t : CanonicalTable) (id : String) (status : ExtensionLifecycleStatus) :
    CanonicalTable := t.update id (fun r => { r with status := status }) (fun _ => rfl)

/-- The primary key is checked. -/
def insertRow (t : CanonicalTable) (row : InstalledExtension) :
    Except DispatchError CanonicalTable :=
  if h : row.id ∈ t.rows.map InstalledExtension.id then .error (.rowExists row.id)
  else .ok {
    rows := t.rows ++ [row]
    keyed := nodup_concat t.keyed fun _ ha hab => h (hab ▸ List.mem_map_of_mem ha) }

def deleteRow (t : CanonicalTable) (id : String) : CanonicalTable where
  rows := t.rows.filter (fun r => r.id ≠ id)
  keyed := (List.filter_sublist.map InstalledExtension.id).nodup t.keyed

/-- A locked row keeps its lock. -/
def activated : ExtensionLifecycleStatus → ExtensionLifecycleStatus
  | .locked => .locked
  | .active => .active
  | .archived => .active

def activateRow (t : CanonicalTable) (id : String) : Except DispatchError CanonicalTable :=
  match t.rows.find? (fun r => r.id = id) with
  | none => .error (.rowNotFound id)
  | some row => .ok (setStatus t id (activated row.status))

/-! ## The world -/

structure World where
  registry : ExtRegistry.World
  /-- The dispatcher's calls that threw. -/
  threw : List Call

structure Fault where
  message : String
  landed : Bool

structure Answer where
  fault : Option Fault := none
  /-- How the pipeline's own steps are answered. -/
  pipeline : Nat → ExtRegistry.Answer

/-- A statement on the canonical rows. -/
def tableStatement (w : ExtRegistry.World) (r : Except DispatchError CanonicalTable) :
    Except DispatchError Unit × ExtRegistry.World :=
  match r with
  | .ok t => (.ok (), { w with table := t })
  | .error err => (.error err, w)

def serve (host : DispatchHost) (drawn : Drawn) (f : Answer) (w : ExtRegistry.World) :
    (c : Call) → Except DispatchError c.Reply × ExtRegistry.World
  | .listInstalledExtensions => (.ok w.table.rows, w)
  | .readInstalledExtensionsByPackageName packageName =>
    (.ok (ExtRegistry.readInstalledExtensionsByPackageName w.table.rows packageName), w)
  | .readInstalledExtensionById id => (.ok (w.table.rows.find? (fun r => r.id = id)), w)
  | .readExtensionInstallOpPhase scope =>
    (.ok ((readInstallOp w.journal scope).map InstallOp.phase), w)
  | .activateRow id => tableStatement w (activateRow w.table id)
  | .insertInstalledExtension row => tableStatement w (insertRow w.table row)
  | .deleteInstalledExtension id => tableStatement w (.ok (deleteRow w.table id))
  | .handle kind _ => (.ok (), if usesActivateHook kind then w else host.handled w)
  | .installExtensionFromRegistry input =>
    let r := registryRun host.toRegistryHost input drawn.op f.pipeline w
    (.ok r.1, r.2)

/-- The pipeline's failures are its own. -/
def Call.fallible : Call → Bool
  | .installExtensionFromRegistry _ => false
  | _ => true

def answer (host : DispatchHost) (drawn : Drawn) (f : Answer) (c : Call) (w : World) :
    Except DispatchError c.Reply × World :=
  let r := serve host drawn f w.registry c
  match if c.fallible then f.fault else none with
  | none => (r.1, ⟨r.2, if isOk r.1 then w.threw else w.threw ++ [c]⟩)
  | some fault =>
    (.error (.step fault.message), ⟨if fault.landed then r.2 else w.registry, w.threw ++ [c]⟩)

def environment (host : DispatchHost) (drawn : Drawn) :
    Environment Call Call.Reply DispatchError World Answer := ⟨answer host drawn⟩

/-- What holds at the end of every run of a program. -/
abbrev Ends {α : Type} (host : DispatchHost) (drawn : Drawn) (p : P α)
    (Q : Except DispatchError α → World → Prop) (w : World) : Prop :=
  Spec (environment host drawn) (fun _ _ => True) p Q w

def dispatchRun (host : DispatchHost) (req : Request) (drawn : Drawn) (s : Nat → Answer)
    (start : World) : Except DispatchError Unit × World :=
  run (environment host drawn) (runHostInstallLocked host req drawn) s start

end ExtDispatch
