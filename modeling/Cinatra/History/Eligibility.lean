import Cinatra.History.ObjectRows

/-! # Eligibility — may an event be undone

    A verdict on each event of a change set, from the event, the freshness of its
    remote source, and the reachability of what it refers to.  It looks at neither
    the snapshots nor, apart from a hard delete, the operation. -/

namespace History

open JsonValue

/-- What a connector says about the remote source. -/
inductive FreshnessState where
  | unsupported
  | unknown (reason : Option String)
  | missing
  | changed (baseRevision : String) (changedFields : Option (List String))
  | fresh (baseRevision : String)

/-- Whether a restore may go ahead, or why not. -/
def freshnessAllowsRestore (isCmsObject : Bool) : FreshnessState → Except String Unit
  | .fresh _ => .ok ()
  | .missing => .error "remote source-of-truth is missing"
  | .changed _ _ => .error "remote source-of-truth has changed since capture"
  | .unknown reason => .error (reason.getD "remote freshness unknown")
  | .unsupported =>
    if isCmsObject then
      .error ("remote freshness check unsupported by connector; cannot confirm CMS state " ++
        "matches snapshot")
    else .ok ()

/-- The reason a freshness that blocks is reported under. -/
def FreshnessState.blockReason : FreshnessState → RestoreIneligibleReason
  | .missing => .externalSourceMissing
  | .changed _ _ => .externalSourceChanged
  | _ => .externalSourceUnknown

inductive Reachability where
  | ok | hardDeleted | archivedProject | unwritable
deriving DecidableEq

structure EligibilityContext where
  externalFreshness : List (String × FreshnessState) := []
  referencedObjectsReachable : List (String × Reachability) := []

/-- A reason not to restore, and its details. -/
structure Block where
  reason : RestoreIneligibleReason
  details : String

def supportedSchemaVersions : List String := ["v1"]

/-- The effect class. -/
def effectBlock (event : ObjectChangeEvent) : Option Block :=
  match event.historyEffect with
  | .irreversibleLogged => some
      { reason := .irreversibleNoCompensating
        details := "irreversible-logged events require a compensating-action template" }
  | .compensatingAction =>
    if event.compensatingTemplateId.all (fun id => id = "") then some
      { reason := .irreversibleNoCompensating
        details := "compensating-action event missing template id" }
    else none
  | .reversibleInternal => none

def referenceBlock : String × Reachability → Option Block
  | (_, .ok) => none
  | (id, .hardDeleted) => some
      { reason := .referencedObjectHardDeleted
        details := "referenced object " ++ id ++ " is hard-deleted" }
  | (id, .archivedProject) => some
      { reason := .referencedObjectArchivedProject
        details := "referenced object " ++ id ++ " is in an archived project" }
  | (id, .unwritable) => some
      { reason := .referencedObjectUnwritable
        details := "referenced object " ++ id ++ " is not writable by current actor" }

def freshnessBlock (context : EligibilityContext) (event : ObjectChangeEvent) : Option Block :=
  match context.externalFreshness.find? (fun f => f.1 = event.objectId) with
  | none => none
  | some (_, freshness) =>
    match freshnessAllowsRestore event.remoteRevisionRef.isSome freshness with
    | .ok () => none
    | .error reason => some { reason := freshness.blockReason, details := reason }

/-- The flag of the write, where it comes with a reason. -/
def writtenBlock (event : ObjectChangeEvent) : Option Block :=
  if event.restoreEligible then none
  else event.restoreIneligibleReason.map (fun reason =>
    { reason := reason, details := "write-time eligibility check rejected this event" })

/-- `none` where the event may be undone. -/
def checkEventEligibility (context : EligibilityContext) (event : ObjectChangeEvent) :
    Option Block :=
  if !supportedSchemaVersions.contains event.objectSchemaVersion then some
    { reason := .schemaVersionMismatch
      details := "object_schema_version=" ++ event.objectSchemaVersion ++ " not supported" }
  else (effectBlock event).or
    (if event.operation = .hardDelete then some
        { reason := .hardDeleted, details := "hard-delete events are not restorable" }
      else (context.referencedObjectsReachable.findSome? referenceBlock).or
        ((freshnessBlock context event).or (writtenBlock event)))

structure ChangeSetEligibility where
  reasons : List RestoreIneligibleReason
  details : List String

/-- `none` where every event may be undone. -/
def summarizeChangeSetEligibility (context : EligibilityContext)
    (events : List ObjectChangeEvent) : Option ChangeSetEligibility :=
  let blocks := events.filterMap (checkEventEligibility context)
  if blocks.isEmpty then none
  else some
    { reasons := (blocks.map Block.reason).eraseDups
      details := blocks.map Block.details }

end History
