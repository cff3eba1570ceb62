import Cinatra.Lib.Table
import Cinatra.Lib.Loop

/-! # Assertions — the types an artifact is asserted to have

    An assertion says that an artifact is of the type of some extension.  A row is
    written once and only ever archived; one statement archives what a new assertion
    supersedes, the next inserts it, and two more restore the floor: the default type,
    for an artifact no other type of which is eligible.  A transaction holds the
    artifact's lock throughout and is rolled back whole. -/

namespace ArtifactAssertions

open RowTable

inductive AssertionSource where
  | user | authoringSkill | agent | matcher
deriving DecidableEq

inductive Eligibility where
  | eligible | draft | archived
deriving DecidableEq

/-- `SOURCE_RANK`. -/
def sourceRank : AssertionSource → Nat
  | .user => 3
  | .authoringSkill => 2
  | .agent => 1
  | .matcher => 0

def initialEligibility : AssertionSource → Eligibility
  | .matcher => .draft
  | .user | .authoringSkill | .agent => .eligible

/-- An artifact, in its organisation. -/
structure ArtifactKey where
  orgId : String
  artifactId : String
deriving DecidableEq

/-- A row of `semantic_assertion`: the columns some statement reads. -/
structure Assertion where
  id : Nat
  artifact : ArtifactKey
  extension : String
  assertedBy : AssertionSource
  eligibility : Eligibility

/-- Not archived. -/
def Assertion.active (r : Assertion) : Bool := r.eligibility ≠ .archived

/-- The artifact's active assertion of an extension. -/
def inSlot (k : ArtifactKey) (ext : String) (r : Assertion) : Bool :=
  r.artifact = k && r.extension = ext && r.active

/-- The artifact has another eligible type. -/
def eligibleOther (floor : String) (k : ArtifactKey) (r : Assertion) : Bool :=
  r.artifact = k && r.eligibility = .eligible && r.extension ≠ floor

/-! ## What the table itself refuses -/

inductive Failure where
  | floorNotAssertable | check | activeUnique | frozen | objectKey
deriving DecidableEq

/-- `sa_matcher_draft_chk` and `sa_nonmatcher_nodraft_chk`. -/
def checkOk (r : Assertion) : Bool :=
  (r.assertedBy ≠ .matcher || r.eligibility = .draft || r.eligibility = .archived) &&
    (r.assertedBy = .matcher || r.eligibility ≠ .draft)

/-- `fn_semantic_assertion_frozen` raises. -/
def frozenRaises (old new : Assertion) : Bool :=
  new.extension ≠ old.extension || new.assertedBy ≠ old.assertedBy || new.artifact ≠ old.artifact ||
    (new.eligibility ≠ old.eligibility &&
      (old.eligibility = .archived || new.eligibility ≠ .archived))

/-- `INSERT`, under the checks and the unique index on active rows. -/
def insertAssertion (r : Assertion) (rows : List Assertion) : Except Failure (List Assertion) :=
  if !checkOk r then .error .check
  else if r.active && rows.any (inSlot r.artifact r.extension) then .error .activeUnique
  else .ok (rows ++ [r])

def archive (r : Assertion) : Assertion := { r with eligibility := .archived }

/-- `UPDATE … SET eligibility = 'archived' WHERE p`, under the trigger and the checks. -/
def archiveWhere (p : Assertion → Bool) (rows : List Assertion) : Except Failure (List Assertion) :=
  if rows.any (fun r => p r && frozenRaises r (archive r)) then .error .frozen
  else if rows.any (fun r => p r && !checkOk (archive r)) then .error .check
  else .ok (updateWhere p archive rows)

/-! ## The statements -/

/-- Some row of the slot meets the condition. -/
def slotHas (k : ArtifactKey) (ext : String) (q : AssertionSource → Bool)
    (rows : List Assertion) : Bool :=
  rows.any (fun s => inSlot k ext s && q s.assertedBy)

/-- Archive what an assertion of this rank supersedes, unless a higher one blocks it. -/
def supersede (k : ArtifactKey) (ext : String) (rank : Nat) (rows : List Assertion) :
    Except Failure (List Assertion) :=
  let blocked := slotHas k ext (fun s => rank < sourceRank s) rows
  archiveWhere (fun r => inSlot k ext r && sourceRank r.assertedBy ≤ rank && !blocked) rows

/-- Insert a row unless some row of its slot blocks it; whether a row came back. -/
def insertUnless (blocks : AssertionSource → Bool) (r : Assertion) (rows : List Assertion) :
    Except Failure (List Assertion × Bool) :=
  if slotHas r.artifact r.extension blocks rows then .ok (rows, false)
  else do return (← insertAssertion r rows, true)

/-- `floorRebalanceSql`. -/
def floorRebalance (floor : String) (k : ArtifactKey) (id : Nat) (source : AssertionSource)
    (rows : List Assertion) : Except Failure (List Assertion) := do
  let rows ←
    if rows.any (eligibleOther floor k) || rows.any (inSlot k floor) then pure rows
    else insertAssertion ⟨id, k, floor, source, .eligible⟩ rows
  archiveWhere (fun r => inSlot k floor r && rows.any (eligibleOther floor k)) rows

/-- `buildAssertionOps`: the rows after, and whether the assertion was inserted. -/
def assertionOps (floor : String) (k : ArtifactKey) (ext : String) (assertedBy : AssertionSource)
    (id : Nat) (rows : List Assertion) : Except Failure (List Assertion × Bool) :=
  if ext = floor then .error .floorNotAssertable
  else do
    let rank := sourceRank assertedBy
    let rows ← supersede k ext rank rows
    insertUnless (fun s => (if assertedBy = .matcher then 0 else rank + 1) ≤ sourceRank s)
      ⟨id, k, ext, assertedBy, initialEligibility assertedBy⟩ rows

/-- The statements of `confirmAssertion`. -/
def confirmOps (floor : String) (k : ArtifactKey) (ext : String) (confirmedBy : AssertionSource)
    (id : Nat) (rows : List Assertion) : Except Failure (List Assertion × Bool) :=
  if ext = floor then .error .floorNotAssertable
  else do
    let rank := sourceRank confirmedBy
    let rows ← supersede k ext rank rows
    insertUnless (fun s => rank < sourceRank s) ⟨id, k, ext, confirmedBy, .eligible⟩ rows

/-- The statement of `archiveAssertion`. -/
def archiveOps (k : ArtifactKey) (ext : String) (_ : Nat) (rows : List Assertion) :
    Except Failure (List Assertion × Bool) := do
  return (← archiveWhere (inSlot k ext) rows, false)

/-! ## The transactions -/

/-- A row of `objects`. -/
structure ObjectRow where
  id : String
  orgId : String
  version : Nat

structure Store where
  assertions : List Assertion
  objects : List ObjectRow
  /-- `graphiti_projection_outbox`: each object enqueued, at which version. -/
  outbox : List (String × Nat)
  nextId : Nat

def Store.empty : Store := ⟨[], [], [], 0⟩

/-- The version bump and the outbox row every mutation ends with. -/
def refresh (k : ArtifactKey) (σ : Store) : Store :=
  let mine := fun (o : ObjectRow) => o.id = k.artifactId && o.orgId = k.orgId
  let objects := updateWhere mine (fun o => { o with version := o.version + 1 }) σ.objects
  { σ with objects := objects
           outbox := σ.outbox ++ (objects.filter mine).map (fun o => (o.id, o.version)) }

/-- The floor is never asserted by the matcher. -/
def floorSourceOf (source : AssertionSource) : AssertionSource :=
  if source = .matcher then .agent else source

/-- `runOneLockedTx`: the operation's statements, the floor, the refresh. -/
def runOneLockedTx (floor : String) (k : ArtifactKey) (floorSource : AssertionSource)
    (ops : Nat → List Assertion → Except Failure (List Assertion × Bool)) (σ : Store) :
    Except Failure (Store × Bool) := do
  let (rows, inserted) ← ops σ.nextId σ.assertions
  let rows ← floorRebalance floor k (σ.nextId + 1) (floorSourceOf floorSource) rows
  return (refresh k { σ with assertions := rows, nextId := σ.nextId + 2 }, inserted)

/-- Whether the assertion landed: `inserted`, or else blocked by precedence. -/
def assertSemanticType (floor : String) (k : ArtifactKey) (ext : String)
    (assertedBy : AssertionSource) (σ : Store) : Except Failure (Store × Bool) :=
  runOneLockedTx floor k assertedBy (assertionOps floor k ext assertedBy) σ

/-- Who may confirm: `Exclude<AssertionSource, "matcher">`. -/
abbrev Confirmer : Type := { s : AssertionSource // s ≠ .matcher }

def confirmAssertion (floor : String) (k : ArtifactKey) (ext : String) (confirmedBy : Confirmer)
    (σ : Store) : Except Failure (Store × Bool) :=
  runOneLockedTx floor k confirmedBy (confirmOps floor k ext confirmedBy) σ

def archiveAssertion (floor : String) (k : ArtifactKey) (ext : String)
    (archivedBy : Option AssertionSource) (σ : Store) : Except Failure (Store × Bool) :=
  runOneLockedTx floor k (archivedBy.getD .user) (archiveOps k ext) σ

/-- The extensions a producing agent declares: distinct, neither empty nor the floor. -/
def producerPlan (floor : String) (refs : List String) : List String :=
  refs.foldl (fun produces ext =>
    if ext = "" || produces.contains ext then produces
    else if ext = floor then produces
    else produces ++ [ext]) []

/-- One produced extension, asserted by the agent. -/
def assertProduced (floor : String) (k : ArtifactKey) (st : List Assertion × Nat) (ext : String) :
    Except Failure (List Assertion × Nat) := do
  let (rows, _) ← assertionOps floor k ext .agent st.2 st.1
  return (rows, st.2 + 1)

/-- `createSemanticArtifact`, the transaction that creates the artifact. -/
def createSemanticArtifact (floor : String) (k : ArtifactKey) (refs : List String) (σ : Store) :
    Except Failure Store :=
  if σ.objects.any (fun o => o.id = k.artifactId) then .error .objectKey
  else do
    let (rows, id) ← (producerPlan floor refs).foldlM (assertProduced floor k)
      (σ.assertions, σ.nextId)
    let rows ← floorRebalance floor k id .agent rows
    return { assertions := rows, nextId := id + 1,
             objects := σ.objects ++ [⟨k.artifactId, k.orgId, 1⟩],
             outbox := σ.outbox ++ [(k.artifactId, 1)] }

inductive Op where
  | create (k : ArtifactKey) (refs : List String)
  | assert_ (k : ArtifactKey) (ext : String) (assertedBy : AssertionSource)
  | confirm (k : ArtifactKey) (ext : String) (confirmedBy : Confirmer)
  | archive (k : ArtifactKey) (ext : String) (archivedBy : Option AssertionSource)

/-- Run one operation. -/
def exec (floor : String) (σ : Store) : Op → Except Failure Store
  | .create k refs => createSemanticArtifact floor k refs σ
  | .assert_ k ext assertedBy => Prod.fst <$> assertSemanticType floor k ext assertedBy σ
  | .confirm k ext confirmedBy => Prod.fst <$> confirmAssertion floor k ext confirmedBy σ
  | .archive k ext archivedBy => Prod.fst <$> archiveAssertion floor k ext archivedBy σ

/-- What fails is rolled back. -/
def step (floor : String) (σ : Store) (op : Op) : Store :=
  match exec floor σ op with
  | .ok σ' => σ'
  | .error _ => σ

end ArtifactAssertions
