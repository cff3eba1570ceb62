import Cinatra.Lib.Pool
import Cinatra.Lib.Table

/-! # ByteStore — where the bytes of artifacts are kept

    The bytes of an upload are a file.  A resource stands for all uploads of the same
    bytes: it names a blob row, which names the file.  An upload writes its file first,
    resolves its resource in one transaction and binds a representation to it in
    another; when it finds a resource of its bytes, or fails, it removes its own file
    again.  Garbage collection reclaims resources that nothing live and no pin holds on
    to, and then removes their files.

    A transaction that decides on what it reads is made of its statements and a
    `commit`: by then others may have committed.  Any call may fail, before or after it
    has taken effect. -/

namespace ArtifactBytes

open Process RowTable

variable {Content : Type}

/-- A row of `resource` of kind `blob`. -/
structure Resource where
  id : Nat
  substanceKey : String
  storageKey : Option Nat
  blobId : Option Nat
  retainUntil : Option Nat

/-- A row of `artifact_blobs`. -/
structure Blob where
  id : Nat
  storageKey : Nat
  sha256 : String

/-- A row of `objects` that is an artifact. -/
structure ArtifactObject where
  id : Nat
  latestDigest : String
  deletedAt : Option Nat

structure Representation where
  id : Nat
  artifactId : Nat
  resourceId : Nat
deriving DecidableEq

/-- A row of `artifact_refs`, by its natural key: a pin. -/
structure ArtifactRef where
  artifactId : Nat
  representationRevisionId : Nat
  referrer : String
deriving DecidableEq

/-- What a transaction has decided, and not committed. -/
inductive Pending where
  | reclaim (resourceId : Nat) (blobId : Option Nat)
  | pins (lock : Option String) (insert delete : List ArtifactRef)

/-- The files, the rows, the transactions under way by the task that makes them, how many
    ids have been given out, and the time. -/
structure Store (Content : Type) where
  files : Nat → Option Content
  resources : List Resource
  blobs : List Blob
  objects : List ArtifactObject
  representations : List Representation
  refs : List ArtifactRef
  pending : List (Nat × Pending)
  minted : Nat
  now : Nat

def emptyStore : Store Content := ⟨fun _ => none, [], [], [], [], [], [], 0, 0⟩

def deriveSubstanceKey (sha256 : String) : String := "blob:" ++ sha256

/-- `BlobRecord`. -/
structure BlobRecord where
  blobId : Nat
  storageKey : Nat
  sha256 : String

/-- The row that the upsert of a resource returns. -/
structure Upserted where
  resourceId : Nat
  storageKey : Option Nat
  blobId : Option Nat
  isNew : Bool

structure Candidate where
  id : Nat
  storageKey : Option Nat
  blobId : Option Nat
deriving DecidableEq

/-! ### Conditions on rows -/

/-- The pin is of the representation. -/
def ArtifactRef.pins (ref : ArtifactRef) (rep : Representation) : Bool :=
  rep.artifactId = ref.artifactId && rep.id = ref.representationRevisionId

namespace Store

/-- The artifact of the representation is not deleted. -/
def isLive (w : Store Content) (rep : Representation) : Bool :=
  w.objects.any (fun o => o.id = rep.artifactId && o.deletedAt = none)

def isPinned (w : Store Content) (rep : Representation) : Bool :=
  w.refs.any (fun ref => ref.pins rep)

/-- What garbage collection asks of a resource. -/
def eligible (w : Store Content) (r : Resource) : Bool :=
  let reps := w.representations.filter (fun rep => rep.resourceId = r.id)
  !reps.isEmpty && !reps.any w.isLive && !reps.any w.isPinned &&
    r.retainUntil.all (fun t => t < w.now)

/-- The representation that a pin asks for is there, and so is its resource. -/
def pinnable (w : Store Content) (ref : ArtifactRef) : Bool :=
  w.representations.any (fun rep =>
    ref.pins rep && w.resources.any (fun r => r.id = rep.resourceId))

/-- The resource backs the artifact. -/
def backs (w : Store Content) (artifactId : Nat) (r : Resource) : Bool :=
  w.representations.any (fun rep => rep.artifactId = artifactId && rep.resourceId = r.id)

/-- A transaction has deleted the resource, and has not committed. -/
def isReclaiming (w : Store Content) (resourceId : Nat) : Bool :=
  w.pending.any (fun p => match p.2 with
    | .reclaim id _ => id = resourceId
    | .pins _ _ _ => false)

def holdsLock (w : Store Content) (referrer : String) : Bool :=
  w.pending.any (fun p => match p.2 with
    | .reclaim _ _ => false
    | .pins lock _ _ => lock = some referrer)

/-! ### Statements -/

/-- The resource of some bytes, made with its blob row where there is none. -/
def upsertResource (w : Store Content) (id : Nat) (substanceKey : String) (blob : BlobRecord) :
    Upserted × Store Content :=
  match w.resources.find? (fun r => r.substanceKey = substanceKey) with
  | some r => (⟨r.id, r.storageKey, r.blobId, false⟩, w)
  | none => (⟨id, some blob.storageKey, some blob.blobId, true⟩,
      { w with
        resources := w.resources ++
          [⟨id, substanceKey, some blob.storageKey, some blob.blobId, none⟩]
        blobs := w.blobs ++ [⟨blob.blobId, blob.storageKey, blob.sha256⟩] })

/-- The artifact and its representation, unless one of the keys is taken. -/
def insertArtifact (w : Store Content) (object : ArtifactObject) (rep : Representation) :
    Option (Store Content) :=
  if w.objects.any (fun o => o.id = object.id) ||
      w.representations.any (fun rep' => rep'.id = rep.id) then none
  else some { w with
    objects := w.objects ++ [object]
    representations := w.representations ++ [rep] }

def day : Nat := 86400000

/-- `GREATEST(now() + days, retain_until)`. -/
def retained (w : Store Content) (retainDays : Nat) (r : Resource) : Resource :=
  { r with retainUntil := some (max (w.now + retainDays * day) (r.retainUntil.getD 0)) }

def tombstone (w : Store Content) (artifactId retainDays : Nat) : Store Content :=
  { w with
    objects := updateWhere (fun o => o.id = artifactId && o.deletedAt = none)
      (fun o => { o with deletedAt := some w.now }) w.objects
    resources := updateWhere (w.backs artifactId) (w.retained retainDays) w.resources }

def candidates (w : Store Content) : List Candidate :=
  (w.resources.filter w.eligible).map (fun r => ⟨r.id, r.storageKey, r.blobId⟩)

/-! ### Transactions under way -/

/-- Roll back. -/
def rollback (w : Store Content) (i : Nat) : Store Content :=
  { w with pending := w.pending.filter (fun p => p.1 ≠ i) }

def stage (w : Store Content) (i : Nat) (p : Pending) : Store Content :=
  { w with pending := (i, p) :: w.pending.filter (fun p => p.1 ≠ i) }

def staged (w : Store Content) (i : Nat) : Option Pending :=
  (w.pending.find? (fun p => p.1 = i)).map Prod.snd

/-- What the task's transaction on pins has done so far. -/
def stagedPins (w : Store Content) (i : Nat) : Option String × List ArtifactRef × List ArtifactRef :=
  match w.staged i with
  | some (.pins lock insert delete) => (lock, insert, delete)
  | _ => (none, [], [])

/-- The reclaim of a resource, and whether it is eligible. -/
def reclaim (w : Store Content) (i resourceId : Nat) : Bool × Store Content :=
  match w.resources.find? (fun r => r.id = resourceId && w.eligible r) with
  | some r => (true, w.stage i (.reclaim resourceId r.blobId))
  | none => (false, w)

def lockReferrer (w : Store Content) (i : Nat) (referrer : String) : Store Content :=
  w.stage i (.pins (some referrer) [] [])

/-- `INSERT … WHERE EXISTS … ON CONFLICT DO NOTHING`. -/
def insertRef (w : Store Content) (i : Nat) (ref : ArtifactRef) : Store Content :=
  if w.pinnable ref then
    let (lock, insert, delete) := w.stagedPins i
    w.stage i (.pins lock (insert ++ [ref]) delete)
  else w

/-- `DELETE` the other pins of the referrer. -/
def deleteOtherRefs (w : Store Content) (i : Nat) (referrer : String) (wanted : List (Nat × Nat)) :
    Store Content :=
  let (lock, insert, delete) := w.stagedPins i
  w.stage i (.pins lock insert (delete ++ w.refs.filter (fun ref =>
    ref.referrer = referrer && !wanted.contains (ref.artifactId, ref.representationRevisionId))))

/-- What a transaction does when it commits. -/
def apply (w : Store Content) : Pending → Store Content
  | .reclaim resourceId blobId =>
    { w with
      blobs := w.blobs.filter (fun b => some b.id ≠ blobId)
      resources := w.resources.filter (fun r => r.id ≠ resourceId) }
  | .pins _ insert delete =>
    { w with
      refs := (w.refs ++ insert.filter (fun ref => !w.refs.contains ref)).filter
        (fun ref => !delete.contains ref) }

def commit (w : Store Content) (i : Nat) : Store Content :=
  match w.staged i with
  | some p => (w.apply p).rollback i
  | none => w

end Store

/-! ## Calls -/

inductive BytesError where
  | thrown
  | resourceOrphaned
deriving DecidableEq, Inhabited

inductive Call (Content : Type) where
  | randomUUID
  | writeFile (storageKey : Nat) (content : Content)
  | deleteByStorageKey (storageKey : Nat)
  | upsertResource (id : Nat) (substanceKey : String) (blob : BlobRecord)
  | selectBlob (blobId : Nat)
  | assertProjectWritable
  | insertArtifact (object : ArtifactObject) (rep : Representation)
  | countArtifactRefs (artifactId : Nat)
  | writeArtifactAudit (artifactId pinCount : Nat)
  | tombstone (artifactId retainDays : Nat)
  | lockReferrer (referrer : String)
  | insertRef (ref : ArtifactRef)
  | deleteOtherRefs (referrer : String) (wanted : List (Nat × Nat))
  | deleteRefs (referrer : String)
  | selectCandidates (limit : Nat)
  | reclaim (resourceId : Nat)
  | commit
  | elapse (time : Nat)

@[reducible] def Call.Reply : Call Content → Type
  | .randomUUID => Nat
  | .upsertResource _ _ _ => Upserted
  | .selectBlob _ => Bool
  | .countArtifactRefs _ => Nat
  | .selectCandidates _ => List Candidate
  | .reclaim _ => Bool
  | _ => Unit

/-- The statement of a transaction that has yet to commit. -/
def Call.opens : Call Content → Bool
  | .lockReferrer _ | .insertRef _ | .deleteOtherRefs _ _ | .reclaim _ => true
  | _ => false

inductive Outcome where
  | answered | failed | lost
deriving DecidableEq

/-- What is left open: how the call ends, and the order in which rows come. -/
structure Chance where
  outcome : Outcome
  order : List Candidate → List Candidate

/-- A call that takes effect. -/
def serve (order : List Candidate → List Candidate) (i : Nat) (w : Store Content) :
    (c : Call Content) → Except BytesError c.Reply × Store Content
  | .randomUUID => (.ok w.minted, { w with minted := w.minted + 1 })
  | .writeFile key content =>
    (.ok (), { w with files := Function.update w.files key (some content) })
  | .deleteByStorageKey key => (.ok (), { w with files := Function.update w.files key none })
  | .upsertResource id key blob =>
    (.ok (w.upsertResource id key blob).1, (w.upsertResource id key blob).2)
  | .selectBlob id => (.ok (w.blobs.any (fun b => b.id = id)), w)
  | .assertProjectWritable => (.ok (), w)
  | .insertArtifact object rep =>
    match w.insertArtifact object rep with
    | some w' => (.ok (), w')
    | none => (.error .thrown, w)
  | .countArtifactRefs id => (.ok (w.refs.countP (fun ref => ref.artifactId = id)), w)
  | .writeArtifactAudit _ _ => (.ok (), w)
  | .tombstone id days => (.ok (), w.tombstone id days)
  | .lockReferrer referrer => (.ok (), w.lockReferrer i referrer)
  | .insertRef ref => (.ok (), w.insertRef i ref)
  | .deleteOtherRefs referrer wanted => (.ok (), w.deleteOtherRefs i referrer wanted)
  | .deleteRefs referrer =>
    (.ok (), { w with refs := w.refs.filter (fun ref => ref.referrer ≠ referrer) })
  | .selectCandidates limit =>
    (.ok (((order w.candidates).filter (fun c => w.candidates.contains c)).take limit), w)
  | .reclaim id => (.ok (w.reclaim i id).1, (w.reclaim i id).2)
  | .commit => (.ok (), w.commit i)
  | .elapse time => (.ok (), { w with now := w.now + time })

/-- Row locks and advisory locks. -/
def ready (w : Store Content) (c : Call Content) : Bool :=
  match c with
  | .upsertResource _ key _ =>
    !w.resources.any (fun r => r.substanceKey = key && w.isReclaiming r.id)
  | .tombstone id _ => !w.resources.any (fun r => w.backs id r && w.isReclaiming r.id)
  | .reclaim id => !w.isReclaiming id
  | .lockReferrer referrer => !w.holdsLock referrer
  | _ => true

/-- A transaction that fails, or whose task is gone, is rolled back. -/
def storage : Host (Call Content) Call.Reply BytesError (Store Content) Chance where
  ready w _ c := ready w c
  answer chance i c w :=
    match chance.outcome with
    | .answered => serve chance.order i w c
    | .failed => (.error .thrown, w.rollback i)
    | .lost =>
      (.error .thrown, if c.opens then w.rollback i else (serve chance.order i w c).2)
  leave i w := w.rollback i

/-! ## The functions -/

abbrev BytesProg (Content α : Type) : Type := Prog (Call Content) Call.Reply BytesError α

/-- The row that the first transaction of an upload leaves it with. -/
structure Authoritative where
  resourceId : Nat
  storageKey : Nat
  blobId : Nat
  isDedupe : Bool

/-- `put`. -/
def put (sha256 : Content → String) (id : Nat) (content : Content) : BytesProg Content BlobRecord := do
  perform (Call.writeFile id content)
  pure ⟨id, id, sha256 content⟩

/-- `.deleteByStorageKey(..).catch(() => {})`. -/
def discard (storageKey : Nat) : BytesProg Content Unit :=
  swallow (perform (Call.deleteByStorageKey storageKey))

/-- The first transaction, and the check of a blob row that was there before. -/
def resolveResource (id : Nat) (newBlob : BlobRecord) : BytesProg Content Authoritative := do
  let row : Upserted ← perform (Call.upsertResource id (deriveSubstanceKey newBlob.sha256) newBlob)
  match row.storageKey, row.blobId with
  | some storageKey, some blobId =>
    if row.isNew then
      pure ⟨row.resourceId, storageKey, blobId, false⟩
    else do
      let found : Bool ← perform (Call.selectBlob blobId)
      if found then pure ⟨row.resourceId, storageKey, blobId, true⟩
      else throwErr .resourceOrphaned
  | _, _ => throwErr .resourceOrphaned

/-- The second transaction. -/
def bindArtifact (id : Nat) (newBlob : BlobRecord) (authoritative : Authoritative) :
    BytesProg Content Unit :=
  tryCatch
    (perform (Call.insertArtifact ⟨id, newBlob.sha256, none⟩ ⟨id, id, authoritative.resourceId⟩))
    (fun err => do
      if authoritative.isDedupe then discard newBlob.storageKey else pure ()
      throwErr err)

/-- `createSemanticArtifact`.  The ids it makes are of different tables and of a file, and
    one number names them all. -/
def createSemanticArtifact (sha256 : Content → String) (inProject : Bool) (content : Content) :
    BytesProg Content Unit := do
  let id : Nat ← perform Call.randomUUID
  let newBlob ← put sha256 id content
  let authoritative ← tryCatch (resolveResource id newBlob) (fun err => do
    discard newBlob.storageKey
    throwErr err)
  if inProject then perform Call.assertProjectWritable else pure ()
  bindArtifact id newBlob authoritative
  if authoritative.isDedupe then discard newBlob.storageKey else pure ()

/-- `REFERENCED_RETENTION_DAYS`. -/
def referencedRetentionDays : Nat := 30

def tombstoneArtifact (artifactId : Nat) : BytesProg Content Unit := do
  let pinCount : Nat ← perform (Call.countArtifactRefs artifactId)
  perform (Call.writeArtifactAudit artifactId pinCount)
  perform (Call.tombstone artifactId (if 0 < pinCount then referencedRetentionDays else 0))

/-- One `INSERT` a pin. -/
def insertRefs (referrer : String) : List (Nat × Nat) → BytesProg Content Unit
  | [] => pure ()
  | (artifactId, revisionId) :: refs => do
    perform (Call.insertRef ⟨artifactId, revisionId, referrer⟩)
    insertRefs referrer refs

def recordArtifactRefs (referrer : String) (refs : List (Nat × Nat)) : BytesProg Content Unit :=
  if refs = [] then pure ()
  else do
    insertRefs referrer refs
    perform Call.commit

def syncArtifactRefsForReferrer (referrer : String) (refs : List (Nat × Nat)) :
    BytesProg Content Unit := do
  perform (Call.lockReferrer referrer)
  insertRefs referrer refs
  perform (Call.deleteOtherRefs referrer refs)
  perform Call.commit

def deleteArtifactRefsForReferrer (referrer : String) : BytesProg Content Unit :=
  perform (Call.deleteRefs referrer)

/-- One resource; whether it was reclaimed. -/
def reclaimResource (row : Candidate) : BytesProg Content Bool :=
  match row.storageKey with
  | none => pure false
  | some storageKey =>
    tryCatch (do
      let resourceReclaimed : Bool ← perform (Call.reclaim row.id)
      perform Call.commit
      if resourceReclaimed then discard storageKey else pure ()
      pure resourceReclaimed) (fun _ => pure false)

/-- How many of the rows were reclaimed. -/
def reclaimRows : List Candidate → BytesProg Content Nat
  | [] => pure 0
  | row :: rows => do
    let resourceReclaimed ← reclaimResource row
    let reclaimed ← reclaimRows rows
    pure (reclaimed + resourceReclaimed.toNat)

def runResourceBlobGc (limit : Option Nat) : BytesProg Content Nat := do
  let rows : List Candidate ← perform (Call.selectCandidates (min (max (limit.getD 100) 1) 1000))
  reclaimRows rows

end ArtifactBytes
