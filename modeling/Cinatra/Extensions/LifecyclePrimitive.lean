import Cinatra.Extensions.ManifestLifecycle
import Cinatra.Lib.Pool

/-! # LifecyclePrimitive — status transitions of one row, as requests run at once

    `transitionExtensionLifecycle` reads the row, decides on what it read, and
    writes or deletes by the row's id alone.  Requests take turns at the store, a
    call at a time.  A request's view is what it asks for, the row it has read, and
    whether it has made its write. -/

namespace ExtTransition

open Process ExtCanonical ExtClosure ExtLifecycle

inductive LifecycleTransitionOp where
  | install | archive | activate | uninstall | forceDelete | purge | registryRemove
  | update | lock | unlock | sourceSwitch
deriving DecidableEq

def LifecycleTransitionOp.text : LifecycleTransitionOp → String
  | .install => "install"
  | .archive => "archive"
  | .activate => "activate"
  | .uninstall => "uninstall"
  | .forceDelete => "force_delete"
  | .purge => "purge"
  | .registryRemove => "registry_remove"
  | .update => "update"
  | .lock => "lock"
  | .unlock => "unlock"
  | .sourceSwitch => "source_switch"

/-- `DESTRUCTIVE_OPS`. -/
def destructiveOps : List LifecycleTransitionOp :=
  [.archive, .uninstall, .forceDelete, .purge, .registryRemove]

/-- `LOCKED_REJECTED_OPS`. -/
def lockedRejectedOps : List LifecycleTransitionOp :=
  [.archive, .uninstall, .forceDelete, .purge, .registryRemove]

/-- The ops that take the row out of the manifest. -/
def removalOps : List LifecycleTransitionOp := [.uninstall, .forceDelete, .purge, .registryRemove]

structure TransitionOpts where
  roles : List String
  allowUnlock : Bool

/-- `LifecycleTransitionError`, and what the store throws. -/
inductive TransitionError where
  | lockedRejectsOp (message : String)
  | illegalTransition (message : String)
  | extNotFound (message : String)
  | store (message : String)

def statusText : ExtensionLifecycleStatus → String
  | .active => "active"
  | .archived => "archived"
  | .locked => "locked"

def transitionMatrix (current : ExtensionLifecycleStatus) (op : LifecycleTransitionOp) :
    Except TransitionError ExtensionLifecycleStatus :=
  if op = .update then .ok current
  else if current = .locked && lockedRejectedOps.contains op then
    .error (.lockedRejectsOp ("Cannot " ++ op.text ++
      " — extension is locked. Update is allowed; archive is not."))
  else if op = .install then
    if current ≠ .active then
      .error (.illegalTransition ("install op cannot be applied to an existing " ++
        statusText current ++ " row; use activate/unlock/source_switch"))
    else .ok .active
  else if op = .archive then .ok .archived
  -- a package-wide restore must not unlock a locked row
  else if op = .activate then .ok (if current = .locked then .locked else .active)
  else if op = .lock then .ok .locked
  else if op = .unlock then .ok (if current = .locked then .active else current)
  else if op = .sourceSwitch then .ok current
  else if destructiveOps.contains op then .ok .archived
  else .error (.illegalTransition ("unknown lifecycle op '" ++ op.text ++ "'"))

/-- The actor the unlock gate lets through. -/
def unlockAuthorised (opts : TransitionOpts) : Bool :=
  opts.allowUnlock && opts.roles.contains "platform_admin"

def gateUnlock (op : LifecycleTransitionOp) (opts : TransitionOpts) : Except TransitionError Unit :=
  if op = .unlock && !unlockAuthorised opts then
    .error (.lockedRejectsOp
      "unlock requires opts.allowUnlock=true AND actor.roles must include 'platform_admin'")
  else .ok ()

/-- What a request makes of the row it has read. -/
inductive Decision where
  | unchanged
  | write (status : ExtensionLifecycleStatus)
  | remove

/-- The decision of `transitionExtensionLifecycle`, between its read and its write. -/
def decideTransition (op : LifecycleTransitionOp) (opts : TransitionOpts)
    (ext : InstalledExtension) : Except TransitionError Decision := do
  gateUnlock op opts
  let newStatus ← transitionMatrix ext.status op
  if removalOps.contains op then
    if ext.status = .locked then
      .error (.lockedRejectsOp ("Cannot " ++ op.text ++ " locked extension"))
    else if op = .uninstall && isStaticBundleAnchorSource ext.source then
      -- a bundled anchor leaves its tombstone
      if ext.status = .archived then .ok .unchanged else .ok (.write .archived)
    else .ok .remove
  else if newStatus = ext.status && op ≠ .update then .ok .unchanged
  else .ok (.write newStatus)

/-! ## The request -/

inductive StoreCall where
  | readInstalledExtensionById (id : String)
  | updateInstalledExtensionStatus (id : String) (status : ExtensionLifecycleStatus)
  | deleteInstalledExtension (id : String)
  | deleteExtensionPermissions (kind : ExtensionKind) (id : String)

abbrev StoreCall.Reply : StoreCall → Type
  | .readInstalledExtensionById _ => Option InstalledExtension
  | .updateInstalledExtensionStatus _ _ => InstalledExtension
  | .deleteInstalledExtension _ => Unit
  | .deleteExtensionPermissions _ _ => Unit

abbrev StoreProg := Prog StoreCall StoreCall.Reply TransitionError

/-- The kinds whose permissions are keyed by the row's id. -/
def permissionsKeyedByRow (kind : ExtensionKind) : Bool :=
  kind = .connector || kind = .artifact || kind = .workflow

/-- Carry out a decision, by the row's id alone. -/
def applyDecision (id : String) (ext : InstalledExtension) :
    Decision → StoreProg (Option InstalledExtension)
  | .unchanged => pure (some ext)
  | .write status => do
    let row : InstalledExtension ← perform (StoreCall.updateInstalledExtensionStatus id status)
    pure (some row)
  | .remove => do
    let _ ← perform (StoreCall.deleteInstalledExtension id)
    if permissionsKeyedByRow ext.kind then
      swallow (perform (StoreCall.deleteExtensionPermissions ext.kind id))
      pure none
    else pure none

def transitionExtensionLifecycle (id : String) (op : LifecycleTransitionOp)
    (opts : TransitionOpts) : StoreProg (Option InstalledExtension) := do
  let read : Option InstalledExtension ← perform (StoreCall.readInstalledExtensionById id)
  match read with
  | none => throwErr (.extNotFound ("installed_extension '" ++ id ++ "' not found"))
  | some ext =>
    match decideTransition op opts ext with
    | .error err => throwErr err
    | .ok decision => applyDecision id ext decision

/-! ## The store, and the requests on it -/

abbrev Manifest := String → Option InstalledExtension

def serve (w : Manifest) : (c : StoreCall) → Except TransitionError c.Reply × Manifest
  | .readInstalledExtensionById id => (.ok (w id), w)
  | .updateInstalledExtensionStatus id status =>
    match w id with
    | some row =>
      (.ok { row with status := status },
        Function.update w id (some { row with status := status }))
    | none =>
      (.error (.store ("installed_extension " ++ id ++ " not found for status update")), w)
  | .deleteInstalledExtension id => (.ok (), Function.update w id none)
  | .deleteExtensionPermissions _ _ => (.ok (), w)

structure Request where
  id : String
  op : LifecycleTransitionOp
  opts : TransitionOpts

/-- What a request has learnt and done. -/
structure RequestView where
  request : Request
  seen : Option InstalledExtension := none
  wrote : Bool := false

def see (v : RequestView) : (c : StoreCall) → Except TransitionError c.Reply → RequestView
  | .readInstalledExtensionById _, .ok row => { v with seen := row }
  | .readInstalledExtensionById _, .error _ => v
  | .updateInstalledExtensionStatus _ _, _ => { v with wrote := true }
  | .deleteInstalledExtension _, _ => { v with wrote := true }
  | .deleteExtensionPermissions _ _, _ => v

def Request.task (r : Request) : Task StoreCall StoreCall.Reply TransitionError RequestView :=
  Task.of (transitionExtensionLifecycle r.id r.op r.opts) { request := r }

/-- A call is answered, or the store fails it and nothing is written. -/
def store : Host StoreCall StoreCall.Reply TransitionError Manifest (Option String) where
  ready _ _ _ := true
  answer fault _ c w :=
    match fault with
    | some message => (.error (.store message), w)
    | none => serve w c
  leave _ w := w

abbrev RequestPool := Pool StoreCall StoreCall.Reply TransitionError RequestView Manifest

def transitionStep : RequestPool → Event Request (Option String) → RequestPool :=
  step store see Request.task

/-- No request is under way. -/
def Idle (s : RequestPool) : Prop := ∀ i, s.tasks i = none

end ExtTransition
