import Cinatra.Lib.Json
import Cinatra.Lib.Table

/-! # ObjectRows — versioned objects and the statements that write them

    Every write of an object is one statement that changes the row, by
    compare-and-swap on its version, and appends the event that records it: the row
    before, as the caller has read it, and the row after, as the statement leaves
    it.  A statement that finds no row divides by zero, and so aborts its
    transaction.  Timestamps are left out, a row is deleted or not; so are the
    columns these statements never write, and the projection's. -/

namespace History

open JsonValue RowTable

/-- The columns that an update leaves where it is given null. -/
inductive Column where
  | createdBy | source | runId | agentId | packageVersion | agentSpecVersion | projectId
  | ownerLevel | ownerId | visibility
deriving DecidableEq

abbrev Columns := Column → Option String

instance : DecidableEq Columns := fun a b =>
  decidable_of_iff (∀ c ∈ [Column.createdBy, .source, .runId, .agentId, .packageVersion,
      .agentSpecVersion, .projectId, .ownerLevel, .ownerId, .visibility], a c = b c)
    ⟨fun h => funext fun c => h c (by cases c <;> decide), fun h _ _ => h ▸ rfl⟩

/-- The fields of the JSON object an object holds. -/
abbrev Data := List (String × Json)

structure ObjectRow where
  id : String
  type : String
  data : Data
  parentId : Option String
  parentType : Option String
  columns : Columns
  orgId : Option String
  version : Nat
  deleted : Bool
deriving DecidableEq

inductive HistoryEffect where
  | reversibleInternal | irreversibleLogged | compensatingAction
deriving DecidableEq

inductive HistoryOperation where
  | create | update | softDelete | hardDelete | tombstone | restore
deriving DecidableEq

inductive RestoreIneligibleReason where
  | schemaVersionMismatch | irreversibleNoCompensating | compensatingTemplateUnapproved
  | hardDeleted | referencedObjectHardDeleted | referencedObjectArchivedProject
  | referencedObjectUnwritable | retentionExpired | externalSourceMissing
  | externalSourceChanged | externalSourceUnknown
deriving DecidableEq

/-- What a statement is given about the event it records. -/
structure EventArgs where
  changeSetId : String
  eventId : String
  sequence : Nat
  historyEffect : HistoryEffect := .reversibleInternal
  compensatingTemplateId : Option String := none
  remoteRevisionRef : Option Json := none
  schemaVersion : String := "v1"
  restoreEligible : Bool := true
  restoreIneligibleReason : Option RestoreIneligibleReason := none
  idempotencyKey : String

/-- A row of `object_change_event`. -/
structure ObjectChangeEvent where
  id : String
  changeSetId : String
  sequence : Nat
  objectId : String
  objectType : String
  operation : HistoryOperation
  historyEffect : HistoryEffect
  beforeSnapshot : Option ObjectRow
  afterSnapshot : Option ObjectRow
  baseVersion : Option Nat
  resultVersion : Nat
  objectSchemaVersion : String
  restoreEligible : Bool
  restoreIneligibleReason : Option RestoreIneligibleReason
  compensatingTemplateId : Option String
  remoteRevisionRef : Option Json
  orgId : Option String
  idempotencyKey : String

/-- A row of `change_set`. -/
structure ChangeSetRow where
  id : String
  orgId : Option String
  closed : Bool := false
  closureReason : Option String := none
  effectRollup : HistoryEffect := .reversibleInternal
  restorable : Bool := true
  restorableReason : Option String := none
  restoreOfChangeSetId : Option String := none

/-! ## Statements -/

structure WriteArgs where
  id : String
  type : String
  parentId : Option String
  parentType : Option String
  data : Data
  columns : Columns
  orgId : Option String
  event : EventArgs

/-- What the statement builders build. -/
inductive Statement where
  | create (args : WriteArgs)
  | update (args : WriteArgs) (expectedBaseVersion : Nat) (beforeSnapshot : Option ObjectRow)
  | softDelete (id : String) (orgId : Option String) (event : EventArgs)
      (expectedBaseVersion : Nat) (beforeSnapshot : Option ObjectRow)
  | undelete (id : String) (orgId : Option String) (event : EventArgs)
      (expectedBaseVersion : Nat) (restoredData : Data) (beforeSnapshot : Option ObjectRow)

/-- `org_id = $n OR $n IS NULL OR org_id IS NULL`. -/
def visibleTo (orgId rowOrgId : Option String) : Bool :=
  orgId.isNone || rowOrgId.isNone || rowOrgId = orgId

/-- The row an `INSERT` makes. -/
def insertedRow (args : WriteArgs) : ObjectRow where
  id := args.id
  type := args.type
  data := args.data
  parentId := args.parentId
  parentType := args.parentType
  orgId := args.orgId
  version := 1
  deleted := false
  columns
    | .ownerLevel => (args.columns .ownerLevel).or (some "organization")
    | .ownerId => ((args.columns .ownerId).or args.orgId).or
        ((args.columns .createdBy).or (some ""))
    | .visibility => (args.columns .visibility).or (some "organization")
    | c => args.columns c

/-- The object a statement is about. -/
def Statement.objectId : Statement → String
  | .create args => args.id
  | .update args _ _ => args.id
  | .softDelete id _ _ _ _ => id
  | .undelete id _ _ _ _ _ => id

/-- `WHERE`. -/
def Statement.finds : Statement → ObjectRow → Bool
  | .create _, _ => false
  | .update args version _, r =>
    r.id = args.id && r.version = version && visibleTo args.orgId r.orgId
  | .softDelete id orgId _ version _, r =>
    r.id = id && r.version = version && visibleTo orgId r.orgId && !r.deleted
  | .undelete id orgId _ version _ _, r =>
    r.id = id && r.version = version && visibleTo orgId r.orgId && r.deleted

/-- `SET`. -/
def Statement.sets : Statement → ObjectRow → ObjectRow
  | .create _, r => r
  | .update args _ _, r =>
    { r with
      type := args.type
      data := args.data
      parentId := args.parentId
      parentType := args.parentType
      columns := fun c => (args.columns c).or (r.columns c)
      version := r.version + 1 }
  | .softDelete _ _ _ _ _, r => { r with deleted := true, version := r.version + 1 }
  | .undelete _ _ _ _ data _, r =>
    { r with deleted := false, data := data, version := r.version + 1 }

/-- The event that records a row. -/
def recordOf (args : EventArgs) (operation : HistoryOperation) (before : Option ObjectRow)
    (baseVersion : Option Nat) (row : ObjectRow) : ObjectChangeEvent where
  id := args.eventId
  changeSetId := args.changeSetId
  sequence := args.sequence
  objectId := row.id
  objectType := row.type
  operation := operation
  historyEffect := args.historyEffect
  beforeSnapshot := before
  afterSnapshot := some row
  baseVersion := baseVersion
  resultVersion := row.version
  objectSchemaVersion := args.schemaVersion
  restoreEligible := args.restoreEligible
  restoreIneligibleReason := args.restoreIneligibleReason
  compensatingTemplateId := args.compensatingTemplateId
  remoteRevisionRef := args.remoteRevisionRef
  orgId := row.orgId
  idempotencyKey := args.idempotencyKey

/-- An undelete is restorable, whatever the caller says. -/
def undeleteArgs (args : EventArgs) : EventArgs :=
  { args with
    historyEffect := .reversibleInternal
    compensatingTemplateId := none
    remoteRevisionRef := none
    restoreEligible := true
    restoreIneligibleReason := none }

/-- The event a statement records, given the row it leaves. -/
def Statement.record : Statement → ObjectRow → ObjectChangeEvent
  | .create args => recordOf args.event .create none none
  | .update args version before => recordOf args.event .update before (some version)
  | .softDelete _ _ event version before => recordOf event .softDelete before (some version)
  | .undelete _ _ event version _ before =>
    recordOf (undeleteArgs event) .restore before (some version)

/-! ## The database -/

inductive MergeProposalStatus where
  | pending | applying | approved | rejected | applied | appliedWithConflict
deriving DecidableEq

/-- A row of `merge_proposal`; a proposed field may come without a value. -/
structure MergeProposal where
  id : String
  objectId : String
  objectType : String
  baseVersion : Nat
  proposedFields : List (String × Option Json)
  status : MergeProposalStatus
  reviewedBy : Option String := none
  reviewNotes : Option String := none
  appliedChangeEventId : Option String := none
  orgId : Option String

structure ProjectRow where
  id : String
  archived : Bool

structure Db where
  objects : List ObjectRow := []
  events : List ObjectChangeEvent := []
  changeSets : List ChangeSetRow := []
  proposals : List MergeProposal := []
  projects : List ProjectRow := []

inductive SqlError where
  | divisionByZero | uniqueViolation
deriving DecidableEq

/-- The unique indices of `object_change_event`. -/
def clashes (e e' : ObjectChangeEvent) : Bool :=
  e.id = e'.id || e.idempotencyKey = e'.idempotencyKey ||
    e.changeSetId = e'.changeSetId && e.sequence = e'.sequence

def Db.append (db : Db) (e : ObjectChangeEvent) : Except SqlError Db :=
  if db.events.any (clashes e) then .error .uniqueViolation
  else .ok { db with events := db.events ++ [e] }

/-- One statement: the row, and the event that records it. -/
def Statement.apply (db : Db) : Statement → Except SqlError Db
  | .create args =>
    if db.objects.any (fun r => r.id = args.id) then .error .divisionByZero
    else { db with objects := db.objects ++ [insertedRow args] }.append
      ((Statement.create args).record (insertedRow args))
  | s =>
    match db.objects.find? s.finds with
    | none => .error .divisionByZero
    | some r => { db with objects := updateWhere s.finds s.sets db.objects }.append
        (s.record (s.sets r))

/-- `BEGIN`, the statements, `COMMIT`. -/
def transaction (db : Db) (statements : List Statement) : Except SqlError Db :=
  statements.foldlM Statement.apply db

end History
