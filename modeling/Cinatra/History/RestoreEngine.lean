import Cinatra.History.CanonicalWriter

/-! # RestoreEngine — the inverse of a change set

    A change set is undone by a new one.  After the verdict, the engine opens that
    container, reads the version of every object, builds the inverse of each event,
    the last first, on the version the ones before it will have left, and makes all
    of them in one transaction.  What it does not read it takes from the events: the
    state before an inverse is, it assumes, what the event left. -/

namespace History

open Process

/-- What is known of an object while the inverses are built. -/
structure Tracked where
  version : Nat
  deleted : Bool

structure InverseContext where
  currentVersion : Nat
  restoreChangeSetId : String
  sequence : Nat
  eventId : String
  idempotencyKey : String
  actor : HistoryActor

def inverseEventArgs (ctx : InverseContext) : EventArgs where
  changeSetId := ctx.restoreChangeSetId
  eventId := ctx.eventId
  sequence := ctx.sequence
  idempotencyKey := ctx.idempotencyKey

/-- The columns an inverse update is given. -/
def inverseColumns (actor : HistoryActor) (before : ObjectRow) : Columns
  | .runId => actor.runId
  | .agentId | .packageVersion | .agentSpecVersion => none
  | c => before.columns c

def inverseWriteArgs (ctx : InverseContext) (event : ObjectChangeEvent) (before : ObjectRow) :
    WriteArgs where
  id := event.objectId
  type := event.objectType
  parentId := before.parentId
  parentType := before.parentType
  data := before.data
  columns := inverseColumns ctx.actor before
  orgId := event.orgId
  event := inverseEventArgs ctx

/-- The state before an inverse, as far as the engine knows: what the event left. -/
def assumedBefore (ctx : InverseContext) (event : ObjectChangeEvent) : Option ObjectRow :=
  event.afterSnapshot.map (fun r => { r with version := ctx.currentVersion })

/-- The inverse of an event, and whether it leaves the object deleted. -/
def buildInverseStatement (event : ObjectChangeEvent) (ctx : InverseContext) :
    Except HistoryError (Statement × Bool) :=
  match event.operation with
  | .create => .ok (.softDelete event.objectId event.orgId (inverseEventArgs ctx)
      ctx.currentVersion event.afterSnapshot, true)
  | .update =>
    match event.beforeSnapshot with
    | none => .error (.thrown ("buildInverseStatement: update event " ++ event.id ++
        " missing before_snapshot"))
    | some before => .ok (.update (inverseWriteArgs ctx event before) ctx.currentVersion
        (assumedBefore ctx event), false)
  | .softDelete | .tombstone =>
    match event.beforeSnapshot with
    | none => .error (.thrown ("buildInverseStatement: soft-delete event " ++ event.id ++
        " missing before_snapshot"))
    | some before => .ok (.undelete event.objectId event.orgId (inverseEventArgs ctx)
        ctx.currentVersion before.data
        ((assumedBefore ctx event).map (fun r => { r with deleted := true })), false)
  | .restore => .error (.thrown ("buildInverseStatement: refusing to invert a restore event; " ++
      "restore the original change_set again instead"))
  | .hardDelete =>
    .error (.thrown "buildInverseStatement: hard-deleted events are non-restorable")

/-- What the building of the inverses comes to: statements, an object that is gone, or
    an error of the builder. -/
inductive Built where
  | statements (statements : List Statement)
  | missing (objectId : String)
  | thrown (err : HistoryError)

/-- The ids minted for a restore: of the container, and of each inverse. -/
structure RestoreIds where
  changeSetId : String
  eventId : Nat → String
  idempotencyKey : Nat → String

abbrev Trackers := String → Option Tracked

def Trackers.bump (t : Trackers) (objectId : String) (version : Nat) (becomesDeleted : Bool) :
    Trackers :=
  Function.update t objectId (some { version := version + 1, deleted := becomesDeleted })

/-- The inverses of the events, the last of which comes first; `seq` have been built. -/
def buildInverses (ids : RestoreIds) (actor : HistoryActor) :
    List ObjectChangeEvent → Nat → Trackers → Built
  | [], _, _ => .statements []
  | event :: rest, seq, trackers =>
    match trackers event.objectId with
    | none => .missing event.objectId
    | some tracked =>
      match buildInverseStatement event
        { currentVersion := tracked.version
          restoreChangeSetId := ids.changeSetId
          sequence := seq + 1
          eventId := ids.eventId (seq + 1)
          idempotencyKey := "che_restore_" ++ ids.idempotencyKey (seq + 1)
          actor := actor } with
      | .error err => .thrown err
      | .ok (statement, becomesDeleted) =>
        match buildInverses ids actor rest (seq + 1)
          (trackers.bump event.objectId tracked.version becomesDeleted) with
        | .statements statements => .statements (statement :: statements)
        | other => other

structure RestoreChangeSetInput where
  changeSetId : String
  actor : HistoryActor
  bypassEligibility : Bool := false
  externalFreshness : List (String × FreshnessState) := []

structure RestoreResult where
  restoreChangeSetId : String
  appliedEventCount : Nat
  affectedObjects : List String
deriving DecidableEq

/-- The objects of a change set. -/
def affectedObjectIds (events : List ObjectChangeEvent) : List String :=
  (events.map ObjectChangeEvent.objectId).eraseDups

/-- The version of every object, in turn. -/
def readVersions (orgId : Option String) : List String → HistoryProg Trackers
  | [] => pure (fun _ => none)
  | id :: ids => do
    let scope : Option ObjectScope ← perform (HistoryCall.readObjectScope id orgId)
    let trackers ← readVersions orgId ids
    pure (Function.update trackers id
      (scope.map (fun s => { version := s.version, deleted := s.deleted })))

def loadChangeSet (id : String) (orgId : Option String) :
    HistoryProg (Option (ChangeSetRow × List ObjectChangeEvent)) := do
  let row : Option ChangeSetRow ← perform (HistoryCall.readChangeSet id orgId)
  let events : List ObjectChangeEvent ← perform (HistoryCall.readChangeSetEvents id orgId)
  pure (row.map (fun row => (row, events)))

/-- The verdict on a change set that has been loaded. -/
def checkRestorable (input : RestoreChangeSetInput) (changeSet : ChangeSetRow)
    (events : List ObjectChangeEvent) : Except HistoryError Unit :=
  match (if input.bypassEligibility then none
    else summarizeChangeSetEligibility { externalFreshness := input.externalFreshness } events) with
  | some summary =>
    .error (.restoreNotEligible input.changeSetId summary.reasons summary.details)
  | none =>
    if changeSet.restorable then .ok ()
    else .error (.restoreNotEligible input.changeSetId [.irreversibleNoCompensating]
      [changeSet.restorableReason.getD "change_set marked non-restorable"])

def HistoryError.message : HistoryError → String
  | .sql .divisionByZero => "division by zero"
  | .sql .uniqueViolation => "duplicate key value violates unique constraint"
  | .versionConflict objectId _ _ reason => "VersionConflict (" ++ reason ++ "): object=" ++ objectId
  | .contract _ message | .authz _ _ message => message
  | .restoreNotEligible changeSetId _ _ => "RestoreNotEligible: change_set " ++ changeSetId
  | .thrown message => message

/-- The inverses have been built, in a container that is open. -/
def applyInverses (input : RestoreChangeSetInput) (container : String)
    (events : List ObjectChangeEvent) : Built → HistoryProg RestoreResult
  | .missing objectId => do
    let _ ← closeChangeSet container
      (some ("restore-blocked: object " ++ objectId ++ " no longer exists"))
    throwErr (.restoreNotEligible input.changeSetId [.referencedObjectHardDeleted]
      ["object " ++ objectId ++ " is hard-deleted"])
  | .thrown err => throwErr err
  | .statements [] => do
    let _ ← closeChangeSet container (some "restore-empty")
    pure { restoreChangeSetId := container, appliedEventCount := 0,
           affectedObjects := affectedObjectIds events }
  | .statements statements => do
    tryCatch (perform (HistoryCall.transaction statements)) (fun err => do
      let _ ← closeChangeSet container (some ("restore-failed: " ++ err.message))
      throwErr err)
    let _ ← closeChangeSet container (some "restore-complete")
    pure { restoreChangeSetId := container, appliedEventCount := statements.length,
           affectedObjects := affectedObjectIds events }

def restoreLoaded (ids : RestoreIds) (input : RestoreChangeSetInput) (changeSet : ChangeSetRow)
    (events : List ObjectChangeEvent) : HistoryProg RestoreResult := do
  lift (checkRestorable input changeSet events)
  let container ← openChangeSet ids.changeSetId input.actor (some input.changeSetId)
  let trackers ← readVersions input.actor.orgId (affectedObjectIds events)
  applyInverses input container events (buildInverses ids input.actor events.reverse 0 trackers)

def restoreChangeSet (ids : RestoreIds) (input : RestoreChangeSetInput) :
    HistoryProg RestoreResult := do
  let loaded ← loadChangeSet input.changeSetId input.actor.orgId
  match loaded with
  | none => throwErr (.thrown ("restoreChangeSet: change_set " ++ input.changeSetId ++
      " not found"))
  | some (changeSet, events) => restoreLoaded ids input changeSet events

/-! ## One object, to a version of its own -/

/-- The columns a version restore is given. -/
def versionColumns (target : ObjectRow) : Columns
  | .ownerLevel => target.columns .ownerLevel
  | .ownerId => target.columns .ownerId
  | .visibility => target.columns .visibility
  | _ => none

def versionInput (objectId : String) (actor : HistoryActor) (event : ObjectChangeEvent)
    (target : ObjectRow) : HistoryAwareUpsertInput where
  id := objectId
  type := event.objectType
  data := target.data
  parentId := target.parentId
  parentType := target.parentType
  columns := versionColumns target
  orgId := actor.orgId

/-- Four cases: live or deleted, now and then. -/
def restoreVersion (minted : Minted) (projectId : Option String) (objectId : String)
    (targetVersion : Nat) (actor : HistoryActor) (current : ObjectScope)
    (event : ObjectChangeEvent) (target : ObjectRow) : HistoryProg RestoreResult :=
  let options : HistoryWriteOptions :=
    { expectedBaseVersion := some current.version, actor := actor }
  let result (w : WriteResult) : HistoryProg RestoreResult :=
    pure { restoreChangeSetId := w.changeSetId, appliedEventCount := 1,
           affectedObjects := [objectId] }
  match current.deleted, target.deleted with
  | false, false =>
    historyAwareUpsert minted projectId (versionInput objectId actor event target) options
      >>= result
  | false, true => historyAwareSoftDelete minted objectId actor.orgId options >>= result
  | true, false =>
    historyAwareUndelete minted objectId actor.orgId target.data options >>= result
  | true, true =>
    pure { restoreChangeSetId := "cs_noop_" ++ objectId ++ "_" ++ toString targetVersion
           appliedEventCount := 0, affectedObjects := [objectId] }

/-- The event that produced a version, and whether it may be restored. -/
def checkTarget (objectId : String) (targetVersion : Nat) (freshness : FreshnessState)
    (events : List ObjectChangeEvent) : Except HistoryError (ObjectChangeEvent × ObjectRow) :=
  match events.find? (fun e => e.resultVersion = targetVersion && e.objectId = objectId) with
  | none => .error (.thrown ("restoreObjectToVersion: no event found for object=" ++ objectId ++
      " version=" ++ toString targetVersion))
  | some event =>
    if event.operation = .hardDelete then
      .error (.restoreNotEligible "object_version_restore" [.hardDeleted]
        ["event at version " ++ toString targetVersion ++ " was a hard-delete"])
    else
      match event.afterSnapshot with
      | none => .error (.thrown ("restoreObjectToVersion: event at version " ++
          toString targetVersion ++ " has no after_snapshot"))
      | some target =>
        if event.remoteRevisionRef.isNone then .ok (event, target)
        else
          match freshnessAllowsRestore true freshness with
          | .error reason => .error (.restoreNotEligible "object_version_restore"
              [.externalSourceChanged] [reason])
          | .ok () => .ok (event, target)

/-- `freshness` is what the connector says of an event with a remote source. -/
def restoreObjectToVersion (minted : Minted) (projectId : Option String) (objectId : String)
    (targetVersion : Nat) (actor : HistoryActor) (freshness : FreshnessState) :
    HistoryProg RestoreResult := do
  let current : Option ObjectScope ← perform (HistoryCall.readObjectScope objectId actor.orgId)
  match current with
  | none => throwErr (.restoreNotEligible "object_version_restore" [.referencedObjectHardDeleted]
      ["object " ++ objectId ++ " no longer exists"])
  | some current =>
    if current.version < targetVersion then
      throwErr (.restoreNotEligible "object_version_restore" [.schemaVersionMismatch]
        ["target version " ++ toString targetVersion ++ " is greater than current version " ++
          toString current.version ++
          " — refusing to restore from possibly stale or cross-tenant history"])
    else
      let events : List ObjectChangeEvent ←
        perform (HistoryCall.listEventsForObject objectId current.orgId)
      let (event, target) ← lift (checkTarget objectId targetVersion freshness events)
      restoreVersion minted projectId objectId targetVersion actor current event target

end History
