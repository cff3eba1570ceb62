import Cinatra.History.Eligibility
import Cinatra.Lib.Pool

/-! # HistoryStore — the database calls of the history

    Each call of `runPostgresQueriesSync` outside a transaction is one call a query;
    a transaction is one call.  What is read may have changed by the time of the next
    call. -/

namespace History

open Process RowTable

/-- The actor of an operation. -/
structure HistoryActor where
  actorId : Option String
  orgId : Option String
  runId : Option String := none

/-- What is thrown. -/
inductive HistoryError where
  | sql (e : SqlError)
  | versionConflict (objectId : String) (currentVersion : Option Nat)
      (expectedBaseVersion : Option Nat) (reason : String)
  | contract (code message : String)
  | restoreNotEligible (changeSetId : String) (reasons : List RestoreIneligibleReason)
      (details : List String)
  | authz (statusCode : Nat) (reason message : String)
  | thrown (message : String)
deriving DecidableEq

instance : Inhabited HistoryError := ⟨.thrown ""⟩

/-- What `closeChangeSet` computes of the events of a change set. -/
structure Rollup where
  severity : Nat
  allRestorable : Bool
  hasBlock : Bool
  reasons : List RestoreIneligibleReason

structure ObjectScope where
  type : String
  orgId : Option String
  version : Nat
  deleted : Bool

inductive HistoryCall where
  | readChangeSet (id : String) (orgId : Option String)
  | readChangeSetEvents (id : String) (orgId : Option String)
  | insertChangeSet (row : ChangeSetRow)
  | rollupEvents (changeSetId : String)
  | closeChangeSet (id : String) (closureReason : Option String) (effectRollup : HistoryEffect)
      (restorable : Bool) (restorableReason : Option String)
  | readObject (id : String)
  | readObjectScope (id : String) (orgId : Option String)
  | readProject (id : String)
  | maxSequence (changeSetId : String)
  | listEventsForObject (objectId : String) (orgId : Option String)
  | transaction (statements : List Statement)
  | claimProposal (id : String) (actor : HistoryActor) (reviewNotes : Option String)
  | markApplied (id eventId : String)
  | releaseClaim (id : String)
  | readProposal (id : String) (orgId : Option String)
  | rejectProposal (id : String) (actor : HistoryActor) (reviewNotes : Option String)

abbrev HistoryCall.Reply : HistoryCall → Type
  | .readChangeSet _ _ => Option ChangeSetRow
  | .readChangeSetEvents _ _ | .listEventsForObject _ _ => List ObjectChangeEvent
  | .rollupEvents _ => Rollup
  | .closeChangeSet _ _ _ _ _ => Option ChangeSetRow
  | .readObject _ => Option ObjectRow
  | .readObjectScope _ _ => Option ObjectScope
  | .readProject _ => Option ProjectRow
  | .maxSequence _ => Nat
  | .claimProposal _ _ _ | .readProposal _ _ | .rejectProposal _ _ _ => Option MergeProposal
  | _ => Unit

abbrev HistoryProg := Prog HistoryCall HistoryCall.Reply HistoryError

/-! ## Replies -/

def effectSeverity : HistoryEffect → Nat
  | .reversibleInternal => 0
  | .compensatingAction => 1
  | .irreversibleLogged => 2

def rollup (events : List ObjectChangeEvent) : Rollup where
  severity := events.foldl (fun n e => max n (effectSeverity e.historyEffect)) 0
  allRestorable := events.all ObjectChangeEvent.restoreEligible
  hasBlock := events.any (fun e => e.restoreIneligibleReason.isSome)
  reasons := (events.filterMap ObjectChangeEvent.restoreIneligibleReason).eraseDups

/-- `org_id = $2 OR org_id IS NULL`, where an organization is given. -/
def ofOrg (orgId rowOrgId : Option String) : Bool :=
  orgId.isNone || rowOrgId.isNone || rowOrgId = orgId

/-- The events of a change set, in their order; the sort is by sequence. -/
def Db.eventsOf (db : Db) (id : String) (orgId : Option String) : List ObjectChangeEvent :=
  (db.events.filter (fun e => e.changeSetId = id && ofOrg orgId e.orgId)).mergeSort
    (fun a b => a.sequence ≤ b.sequence)

def Db.object (db : Db) (id : String) : Option ObjectRow := db.objects.find? (fun r => r.id = id)

def scopeOf (r : ObjectRow) : ObjectScope where
  type := r.type
  orgId := r.orgId
  version := r.version
  deleted := r.deleted

def Db.scope (db : Db) (id : String) (orgId : Option String) : Option ObjectScope :=
  (db.objects.find? (fun r => r.id = id && visibleTo orgId r.orgId)).map scopeOf

/-- The newest events first, five hundred at most. -/
def Db.newestEvents (db : Db) (objectId : String) (orgId : Option String) :
    List ObjectChangeEvent :=
  ((db.events.filter (fun e => e.objectId = objectId && ofOrg orgId e.orgId)).reverse).take 500

def Db.updateProposals (db : Db) (p : MergeProposal → Bool) (f : MergeProposal → MergeProposal) :
    Db :=
  { db with proposals := updateWhere p f db.proposals }

/-- A proposal that is pending in the reviewer's organization. -/
def claimable (id : String) (actor : HistoryActor) (p : MergeProposal) : Bool :=
  p.id = id && p.status = .pending && p.orgId = actor.orgId

def MergeProposal.claimed (actor : HistoryActor) (reviewNotes : Option String)
    (p : MergeProposal) : MergeProposal :=
  { p with status := .applying, reviewedBy := actor.actorId, reviewNotes := reviewNotes }

def MergeProposal.applied (eventId : String) (p : MergeProposal) : MergeProposal :=
  { p with status := .applied, appliedChangeEventId := some eventId }

def MergeProposal.released (p : MergeProposal) : MergeProposal :=
  { p with status := .pending, reviewedBy := none, reviewNotes := none }

def MergeProposal.rejected (actor : HistoryActor) (reviewNotes : Option String)
    (p : MergeProposal) : MergeProposal :=
  { p with status := .rejected, reviewedBy := actor.actorId, reviewNotes := reviewNotes }

def ChangeSetRow.close (closureReason : Option String) (effectRollup : HistoryEffect)
    (restorable : Bool) (restorableReason : Option String) (c : ChangeSetRow) : ChangeSetRow :=
  { c with
    closed := true
    closureReason := c.closureReason.or closureReason
    effectRollup := effectRollup
    restorable := restorable
    restorableReason := restorableReason }

def Db.closeChangeSet (db : Db) (id : String) (f : ChangeSetRow → ChangeSetRow) : Db :=
  { db with changeSets := updateWhere (fun c => c.id = id) f db.changeSets }

/-- What a call replies, and the database it leaves. -/
def answerHistory (db : Db) : (c : HistoryCall) → Except SqlError c.Reply × Db
  | .readChangeSet id orgId =>
    (.ok (db.changeSets.find? (fun c => c.id = id && ofOrg orgId c.orgId)), db)
  | .readChangeSetEvents id orgId => (.ok (db.eventsOf id orgId), db)
  | .insertChangeSet row =>
    if db.changeSets.any (fun c => c.id = row.id) then (.error .uniqueViolation, db)
    else (.ok (), { db with changeSets := db.changeSets ++ [row] })
  | .rollupEvents id => (.ok (rollup (db.events.filter (fun e => e.changeSetId = id))), db)
  | .closeChangeSet id closureReason effectRollup restorable restorableReason =>
    (.ok ((db.changeSets.find? (fun c => c.id = id)).map
        (ChangeSetRow.close closureReason effectRollup restorable restorableReason)),
      db.closeChangeSet id
        (ChangeSetRow.close closureReason effectRollup restorable restorableReason))
  | .readObject id => (.ok (db.object id), db)
  | .readObjectScope id orgId => (.ok (db.scope id orgId), db)
  | .readProject id => (.ok (db.projects.find? (fun p => p.id = id)), db)
  | .maxSequence id =>
    (.ok ((db.events.filter (fun e => e.changeSetId = id)).foldl
      (fun n e => max n e.sequence) 0), db)
  | .listEventsForObject objectId orgId => (.ok (db.newestEvents objectId orgId), db)
  | .transaction statements =>
    match History.transaction db statements with
    | .ok db' => (.ok (), db')
    | .error e => (.error e, db)
  | .claimProposal id actor reviewNotes =>
    (.ok ((db.proposals.find? (claimable id actor)).map (MergeProposal.claimed actor reviewNotes)),
      db.updateProposals (claimable id actor) (MergeProposal.claimed actor reviewNotes))
  | .markApplied id eventId =>
    (.ok (), db.updateProposals (fun p => p.id = id && p.status = .applying)
      (MergeProposal.applied eventId))
  | .releaseClaim id =>
    (.ok (), db.updateProposals (fun p => p.id = id && p.status = .applying) MergeProposal.released)
  | .readProposal id orgId =>
    (.ok (db.proposals.find? (fun p => p.id = id && ofOrg orgId p.orgId)), db)
  | .rejectProposal id actor reviewNotes =>
    (.ok ((db.proposals.find? (fun p => p.id = id && p.status = .pending)).map
        (MergeProposal.rejected actor reviewNotes)),
      db.updateProposals (fun p => p.id = id && p.status = .pending)
        (MergeProposal.rejected actor reviewNotes))

/-- How a call ends: answered, failed before it took effect, or with its reply lost. -/
inductive Fault where
  | answered
  | failed (message : String)
  | lost (message : String)
deriving DecidableEq

def history : Environment HistoryCall HistoryCall.Reply HistoryError Db Fault where
  answer fault c db :=
    match fault with
    | .answered => ((answerHistory db c).1.mapError HistoryError.sql, (answerHistory db c).2)
    | .failed message => (.error (.thrown message), db)
    | .lost message => (.error (.thrown message), (answerHistory db c).2)

end History
