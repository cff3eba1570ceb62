import Cinatra.History.CanonicalWriter

/-! # MergeProposals — proposed fields, approved or rejected

    An approval claims its proposal, writes the object through the upsert, and then
    marks the proposal applied: three transactions.  Whatever fails after the claim
    gives the proposal back.  The fields are composed in an object literal, and a
    selected name is looked up in another: both have what `Object.prototype` has. -/

namespace History

open Process JsonValue

def getField (data : Data) (name : String) : Option Json :=
  (data.find? (fun f => f.1 = name)).map Prod.snd

def hasField (data : Data) (name : String) : Bool := data.any (fun f => f.1 = name)

/-- A field that is set to `undefined` is not written. -/
def eraseField (data : Data) (name : String) : Data := data.filter (fun f => f.1 ≠ name)

def setField (data : Data) (name : String) (value : Json) : Data :=
  if hasField data name then data.map (fun f => if f.1 = name then (name, value) else f)
  else data ++ [(name, value)]

/-- The names of `Object.prototype`. -/
def prototypeNames : List String :=
  ["constructor", "hasOwnProperty", "isPrototypeOf", "propertyIsEnumerable", "toLocaleString",
    "toString", "valueOf", "__defineGetter__", "__defineSetter__", "__lookupGetter__",
    "__lookupSetter__", "__proto__"]

abbrev ProposedFields := List (String × Option Json)

def ownProposed (proposed : ProposedFields) (name : String) : Option (Option Json) :=
  (proposed.find? (fun f => f.1 = name)).map Prod.snd

/-- `if (proposed) mergedData[fieldKey] = proposed.value`.  An inherited function, and
    `Object.prototype` itself, is an object without a value; and `__proto__`, where it is no
    field yet, is not one afterwards. -/
def mergeField (proposed : ProposedFields) (merged : Data) (name : String) : Data :=
  match ownProposed proposed name with
  | some (some value) =>
    if name = "__proto__" && !hasField merged name then merged else setField merged name value
  | some none => eraseField merged name
  | none => if prototypeNames.contains name then eraseField merged name else merged

def mergedData (proposed : ProposedFields) (selectedFields : Option (List String))
    (currentData : Data) : Data :=
  ((selectedFields.getD (proposed.map Prod.fst)).eraseDups).foldl (mergeField proposed) currentData

/-! ## Approval -/

structure ApproveMergeProposalInput where
  proposalId : String
  actor : HistoryActor
  reviewNotes : Option String := none
  selectedFields : Option (List String) := none
  currentData : Data

structure ApproveResult where
  proposal : MergeProposal
  changeEventId : String
  resultVersion : Nat

def approvedInput (input : ApproveMergeProposalInput) (proposal : MergeProposal) :
    HistoryAwareUpsertInput where
  id := proposal.objectId
  type := proposal.objectType
  data := mergedData proposal.proposedFields input.selectedFields input.currentData
  orgId := input.actor.orgId

def approvedOptions (input : ApproveMergeProposalInput) (proposal : MergeProposal) :
    HistoryWriteOptions where
  expectedBaseVersion := some proposal.baseVersion
  actor := input.actor

/-- A proposal that has been claimed. -/
def applyClaimed (minted : Minted) (projectId : Option String) (input : ApproveMergeProposalInput)
    (proposal : MergeProposal) : HistoryProg ApproveResult :=
  tryCatch (do
    let result ← historyAwareUpsert minted projectId (approvedInput input proposal)
      (approvedOptions input proposal)
    perform (HistoryCall.markApplied proposal.id result.eventId)
    pure { proposal := proposal.applied result.eventId, changeEventId := result.eventId,
           resultVersion := result.resultVersion })
    (fun err => do
      perform (HistoryCall.releaseClaim proposal.id)
      throwErr err)

def approveMergeProposal (minted : Minted) (projectId : Option String)
    (input : ApproveMergeProposalInput) : HistoryProg ApproveResult := do
  let claimed : Option MergeProposal ←
    perform (HistoryCall.claimProposal input.proposalId input.actor input.reviewNotes)
  match claimed with
  | none => throwErr (.thrown ("approveMergeProposal: proposal " ++ input.proposalId ++
      " not found, not pending, or not visible in this org"))
  | some proposal => applyClaimed minted projectId input proposal

structure RejectMergeProposalInput where
  proposalId : String
  actor : HistoryActor
  reviewNotes : Option String := none

def rejectMergeProposal (input : RejectMergeProposalInput) : HistoryProg MergeProposal := do
  let proposal : Option MergeProposal ←
    perform (HistoryCall.readProposal input.proposalId input.actor.orgId)
  match proposal with
  | none => throwErr (.thrown ("rejectMergeProposal: proposal " ++ input.proposalId ++
      " not found"))
  | some proposal =>
    let row : Option MergeProposal ←
      perform (HistoryCall.rejectProposal proposal.id input.actor input.reviewNotes)
    match row with
    | none => throwErr (.thrown
        "rejectMergeProposal: update failed (proposal not pending?)")
    | some row => pure row

end History
