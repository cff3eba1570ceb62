import Cinatra.History.HistoryStore

/-! # CanonicalWriter — history-aware writes

    A write opens a change set of its own unless it is given one, reads the next
    sequence number and the row as it is, and then makes its one statement, which
    asks for the version the caller expects.  The row that was read is only what the
    event will show as the state before. -/

namespace History

open Process

def RestoreIneligibleReason.text : RestoreIneligibleReason → String
  | .schemaVersionMismatch => "schema-version-mismatch"
  | .irreversibleNoCompensating => "irreversible-no-compensating"
  | .compensatingTemplateUnapproved => "compensating-template-unapproved"
  | .hardDeleted => "hard-deleted"
  | .referencedObjectHardDeleted => "referenced-object-hard-deleted"
  | .referencedObjectArchivedProject => "referenced-object-archived-project"
  | .referencedObjectUnwritable => "referenced-object-unwritable"
  | .retentionExpired => "retention-expired"
  | .externalSourceMissing => "external-source-missing"
  | .externalSourceChanged => "external-source-changed"
  | .externalSourceUnknown => "external-source-unknown"

/-- `id` is the id minted for it. -/
def openChangeSet (id : String) (actor : HistoryActor) (restoreOfChangeSetId : Option String) :
    HistoryProg String := do
  perform (HistoryCall.insertChangeSet
    { id := id, orgId := actor.orgId, restoreOfChangeSetId := restoreOfChangeSetId })
  pure id

def Rollup.effect (agg : Rollup) : HistoryEffect :=
  if 2 ≤ agg.severity then .irreversibleLogged
  else if 1 ≤ agg.severity then .compensatingAction
  else .reversibleInternal

def Rollup.restorable (agg : Rollup) : Bool := agg.allRestorable && !agg.hasBlock

def Rollup.restorableReason (agg : Rollup) : Option String :=
  if agg.restorable then none
  else if agg.reasons.isEmpty then some "non-restorable-event-present"
  else some (", ".intercalate (agg.reasons.map RestoreIneligibleReason.text).mergeSort)

def closeChangeSet (id : String) (closureReason : Option String) : HistoryProg ChangeSetRow := do
  let agg : Rollup ← perform (HistoryCall.rollupEvents id)
  let row : Option ChangeSetRow ← perform (HistoryCall.closeChangeSet id closureReason agg.effect
    agg.restorable agg.restorableReason)
  match row with
  | none => throwErr (.thrown ("closeChangeSet: no row updated for id=" ++ id))
  | some row => pure row

/-! ## Writes -/

structure HistoryAwareUpsertInput where
  id : String
  type : String
  data : Data
  parentId : Option String := none
  parentType : Option String := none
  columns : Columns := fun _ => none
  orgId : Option String := none

structure HistoryWriteOptions where
  expectedBaseVersion : Option Nat
  historyEffect : HistoryEffect := .reversibleInternal
  compensatingTemplateId : Option String := none
  remoteRevisionRef : Option JsonValue.Json := none
  changeSet : Option String := none
  idempotencyKey : Option String := none
  objectSchemaVersion : Option String := none
  actor : HistoryActor

/-- The ids minted for a write. -/
structure Minted where
  changeSetId : String
  eventId : String
  idempotencyKey : String

structure WriteResult where
  objectId : String
  resultVersion : Nat
  eventId : String
  changeSetId : String

/-- A change set of its own, unless one is given. -/
def autoChangeSet (minted : Minted) (actor : HistoryActor) : Option String → HistoryProg String
  | some id => pure id
  | none => openChangeSet minted.changeSetId actor none

/-- It is closed if it was opened for the write; a failure is logged. -/
def maybeAutoClose (options : HistoryWriteOptions) (id closureReason : String) : HistoryProg Unit :=
  if options.changeSet.isSome then pure ()
  else swallow (closeChangeSet id (some closureReason))

/-- Whether an event of that class may be undone, as its write sees it. -/
def eligibilityForEffect (historyEffect : HistoryEffect) (compensatingTemplateId : Option String)
    (schemaVersion : String) : Option RestoreIneligibleReason :=
  if !supportedSchemaVersions.contains schemaVersion then some .schemaVersionMismatch
  else if historyEffect = .irreversibleLogged then some .irreversibleNoCompensating
  else if historyEffect = .compensatingAction &&
      compensatingTemplateId.all (fun id => id = "") then some .irreversibleNoCompensating
  else none

def schemaVersionOf (options : HistoryWriteOptions) : String :=
  options.objectSchemaVersion.getD "v1"

def eventArgs (minted : Minted) (options : HistoryWriteOptions) (changeSetId : String)
    (sequence : Nat) : EventArgs :=
  let blocked := eligibilityForEffect options.historyEffect options.compensatingTemplateId
    (schemaVersionOf options)
  { changeSetId := changeSetId
    eventId := minted.eventId
    sequence := sequence
    historyEffect := options.historyEffect
    compensatingTemplateId := options.compensatingTemplateId
    remoteRevisionRef := options.remoteRevisionRef
    schemaVersion := schemaVersionOf options
    restoreEligible := blocked.isNone
    restoreIneligibleReason := blocked
    idempotencyKey := options.idempotencyKey.getD minted.idempotencyKey }

def ensureEffect (options : HistoryWriteOptions) : Except HistoryError Unit :=
  if options.historyEffect = .compensatingAction &&
      options.compensatingTemplateId.all (fun id => id = "") then
    .error (.contract "missing-compensating-template"
      ("history-aware writer requires compensatingTemplateId when historyEffect === " ++
        "'compensating-action'"))
  else .ok ()

/-- `MAX(sequence) + 1`. -/
def getNextEventSequence (changeSetId : String) : HistoryProg Nat := do
  let max : Nat ← perform (HistoryCall.maxSequence changeSetId)
  pure (max + 1)

def conflictReason (isUpdate : Bool) (current : Option ObjectRow) : String :=
  if isUpdate then (if current.isSome then "stale-write" else "row-missing")
  else if current.isSome then "row-exists" else "stale-write"

/-- Make the statement; a division by zero is a version conflict. -/
def write (id : String) (expectedBaseVersion : Option Nat) (reason : Option ObjectRow → String)
    (statement : Statement) : HistoryProg Unit :=
  tryCatch (perform (HistoryCall.transaction [statement]))
    (fun err =>
      if err = .sql .divisionByZero then do
        let current : Option ObjectRow ← perform (HistoryCall.readObject id)
        throwErr (.versionConflict id (current.map ObjectRow.version) expectedBaseVersion
          (reason current))
      else throwErr err)

/-- The types that no project scopes. -/
def substrateObjectTypes : List String :=
  ["@cinatra-ai/contact", "@cinatra-ai/account", "@cinatra-ai/skill", "@cinatra-ai/extension",
    "@cinatra-ai/entity-contacts:contact", "@cinatra-ai/entity-accounts:account"]

def resolveProjectInheritanceForType (frameProjectId : Option String) (objectType : String) :
    Option String :=
  frameProjectId.filter (fun id => id ≠ "" && !substrateObjectTypes.contains objectType)

/-- `assertProjectWritableSync`, of the project that a row inherits. -/
def assertProjectWritable : Option String → HistoryProg Unit
  | none => pure ()
  | some projectId => do
    let row : Option ProjectRow ← perform (HistoryCall.readProject projectId)
    match row with
    | none => throwErr (.authz 404 "hidden" ("Project not found: " ++ projectId))
    | some row =>
      if row.archived then throwErr (.authz 403 "forbidden"
        ("Project is archived; new writes rejected (" ++ projectId ++ ")"))
      else pure ()

/-- `runId` falls back on the actor's, the project is inherited from the frame. -/
def writeColumns (input : HistoryAwareUpsertInput) (actor : HistoryActor)
    (projectId : Option String) : Columns
  | .runId => (input.columns .runId).or actor.runId
  | .projectId => resolveProjectInheritanceForType projectId input.type
  | c => input.columns c

def writeArgs (input : HistoryAwareUpsertInput) (actor : HistoryActor) (projectId : Option String)
    (event : EventArgs) : WriteArgs where
  id := input.id
  type := input.type
  parentId := input.parentId
  parentType := input.parentType
  data := input.data
  columns := writeColumns input actor projectId
  orgId := input.orgId
  event := event

/-- The statement of an upsert: an update of the version expected, or an insert. -/
def upsertStatement (args : WriteArgs) (before : Option ObjectRow) : Option Nat → Statement
  | some version => .update args version before
  | none => .create args

/-- `projectId` is the one of the frame the write is made in. -/
def historyAwareUpsert (minted : Minted) (projectId : Option String)
    (input : HistoryAwareUpsertInput) (options : HistoryWriteOptions) :
    HistoryProg WriteResult := do
  lift (ensureEffect options)
  assertProjectWritable (resolveProjectInheritanceForType projectId input.type)
  let changeSetId ← autoChangeSet minted options.actor options.changeSet
  let sequence ← getNextEventSequence changeSetId
  let before : Option ObjectRow ← perform (HistoryCall.readObject input.id)
  let args := writeArgs input options.actor projectId
    (eventArgs minted options changeSetId sequence)
  write input.id options.expectedBaseVersion
    (conflictReason options.expectedBaseVersion.isSome)
    (upsertStatement args before options.expectedBaseVersion)
  maybeAutoClose options changeSetId "single-mutation-close"
  pure { objectId := input.id, resultVersion := options.expectedBaseVersion.elim 1 (· + 1),
         eventId := minted.eventId, changeSetId := changeSetId }

/-- A change of a row that is there. -/
def changeReason (current : Option ObjectRow) : String :=
  if current.isSome then "concurrent-mutation" else "row-missing"

def historyAwareSoftDelete (minted : Minted) (objectId : String) (orgId : Option String)
    (options : HistoryWriteOptions) : HistoryProg WriteResult := do
  lift (ensureEffect options)
  match options.expectedBaseVersion with
  | none => throwErr (.contract "missing-base-version"
      "historyAwareSoftDelete requires concrete expectedBaseVersion")
  | some version =>
    let before : Option ObjectRow ← perform (HistoryCall.readObject objectId)
    match before with
    | none => throwErr (.versionConflict objectId none (some version) "row-missing")
    | some before =>
      let changeSetId ← autoChangeSet minted options.actor options.changeSet
      let sequence ← getNextEventSequence changeSetId
      write objectId (some version) changeReason
        (.softDelete objectId orgId (eventArgs minted options changeSetId sequence) version
          (some before))
      maybeAutoClose options changeSetId "soft-delete-close"
      pure { objectId := objectId, resultVersion := version + 1,
             eventId := minted.eventId, changeSetId := changeSetId }

def historyAwareUndelete (minted : Minted) (objectId : String) (orgId : Option String)
    (restoredData : Data) (options : HistoryWriteOptions) : HistoryProg WriteResult :=
  match options.expectedBaseVersion with
  | none => throwErr (.contract "missing-base-version"
      "historyAwareUndelete requires concrete expectedBaseVersion")
  | some version => do
    let before : Option ObjectRow ← perform (HistoryCall.readObject objectId)
    match before with
    | none => throwErr (.versionConflict objectId none (some version) "row-missing")
    | some before =>
      if !before.deleted then
        throwErr (.contract "invalid-effect" "historyAwareUndelete: row is not soft-deleted")
      else
        let changeSetId ← autoChangeSet minted options.actor options.changeSet
        let sequence ← getNextEventSequence changeSetId
        write objectId (some version) changeReason
          (.undelete objectId orgId (eventArgs minted options changeSetId sequence) version
            restoredData (some before))
        maybeAutoClose options changeSetId "undelete-close"
        pure { objectId := objectId, resultVersion := version + 1,
               eventId := minted.eventId, changeSetId := changeSetId }

end History
