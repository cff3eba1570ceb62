import Cinatra.Artifacts.ByteStore

/-! # ByteTasks — what uploads and garbage collection may do, by what they have seen

    A task learns only from the replies to its own calls: the number of its upload, the
    row of its resource, the candidates, the reclaim that has committed.  What it calls
    next is allowed by that, whatever is replied (`Job.keeps`): it removes a file only
    where its upload has no row that it made, or where it has reclaimed the row. -/

namespace ArtifactBytes

open Process

variable {Content : Type}

inductive Seen (Content : Type) where
  | nothing
  /-- An upload has its number; -/
  | named (n : Nat)
  /-- has written its file; -/
  | stored (n : Nat) (content : Content)
  /-- has resolved its resource; -/
  | resolved (n : Nat) (content : Content) (row : Upserted)
  /-- no row names its file. -/
  | spare (n : Nat)
  /-- Garbage collection has its candidates; -/
  | listed (rows : List Candidate)
  /-- has decided to reclaim a resource; -/
  | reclaiming (rows : List Candidate) (id : Nat)
  /-- has reclaimed it. -/
  | reclaimed (rows : List Candidate) (id : Nat)

namespace Seen

def rows : Seen Content → List Candidate
  | .listed rows | .reclaiming rows _ | .reclaimed rows _ => rows
  | _ => []

/-- The number of an upload that has yet to resolve its resource. -/
def awaits : Seen Content → Option Nat
  | .named n | .stored n _ => some n
  | _ => none

/-- The resource that an upload has resolved, and has yet to bind. -/
def holds : Seen Content → Option Nat
  | .resolved _ _ row => some row.resourceId
  | _ => none

def collecting : Seen Content → Bool
  | .listed _ | .reclaimed _ _ => true
  | _ => false

/-- A reclaim has been decided, and not committed. -/
def midway : Seen Content → Bool
  | .reclaiming _ _ => true
  | _ => false

/-- The file is the task's to remove. -/
def MayDelete (key : Nat) : Seen Content → Prop
  | .resolved n _ row => key = n ∧ (row.isNew = true → row.storageKey = none ∨ row.blobId = none)
  | .spare n => key = n
  | .reclaimed rows id => ∃ c ∈ rows, c.id = id ∧ c.storageKey = some key
  | _ => False

end Seen

def see : Seen Content → (c : Call Content) → Except BytesError c.Reply → Seen Content
  | .nothing, .randomUUID, .ok n => .named n
  | .named n, .writeFile _ content, .ok _ => .stored n content
  | .named _, .writeFile _ _, .error _ => .nothing
  | .stored n content, .upsertResource _ _ _, .ok row => .resolved n content row
  | .stored n _, .upsertResource _ _ _, .error _ => .spare n
  | .resolved n _ row, .insertArtifact _ _, _ => if row.isNew then .nothing else .spare n
  | .nothing, .selectCandidates _, .ok rows => .listed rows
  | .listed rows, .reclaim id, .ok true => .reclaiming rows id
  | .reclaimed rows _, .reclaim id, .ok true => .reclaiming rows id
  | .reclaiming rows id, .commit, .ok _ => .reclaimed rows id
  | .reclaiming rows _, .commit, .error _ => .listed rows
  | v, _, _ => v

variable (sha256 : Content → String)

/-- The calls that a task makes, by what it has seen. -/
def Allowed (v : Seen Content) : Call Content → Prop
  | .writeFile key _ => v = .named key
  | .upsertResource id key blob => ∃ content, v = .stored id content ∧
      key = deriveSubstanceKey (sha256 content) ∧ blob = ⟨id, id, sha256 content⟩
  | .insertArtifact object rep => ∃ content row, v = .resolved object.id content row ∧
      object.latestDigest = sha256 content ∧ rep.artifactId = object.id ∧
      rep.resourceId = row.resourceId
  | .deleteByStorageKey key => v.MayDelete key
  | .reclaim _ => v.collecting = true
  | .lockReferrer _ | .insertRef _ | .deleteOtherRefs _ _ => v = .nothing
  | .commit => True
  | _ => v.midway = false

/-! ### The programs, checked -/

section Programs

variable {sha256}

variable {v : Seen Content} {key : Nat}

/-- The removal of a file that is the task's own is all the same to what it has seen. -/
theorem discard_spec (hkey : v.MayDelete key) :
    Spec (observed see) (Allowed sha256) (discard key) (fun r v' => r = .ok () ∧ v' = v) v := by
  refine Spec.swallow (observe_spec hkey fun r => ?_)
  cases v with
  | resolved | spare | reclaimed => exact ⟨rfl, rfl⟩
  | nothing | named | stored | listed | reclaiming => exact hkey.elim

theorem discard_checked (hkey : v.MayDelete key) : Checked see (Allowed sha256) (discard key) v :=
  Spec.mono (discard_spec hkey) fun _ _ _ => trivial

theorem discard_throw {α : Type} (hkey : v.MayDelete key)
    (err : BytesError) : Spec (observed see) (Allowed sha256)
      (discard key >>= fun _ => (throwErr err : BytesProg Content α))
      (fun r _ => r = .error err) v := by
  refine Spec.bind (Spec.mono (discard_spec hkey) ?_)
  rintro r v' ⟨rfl, rfl⟩
  exact rfl

/-- The first transaction leaves the upload with its row; or with a file that is its own. -/
theorem resolveResource_spec (id : Nat) (content : Content) :
    Spec (observed see) (Allowed sha256) (resolveResource id ⟨id, id, sha256 content⟩)
      (Post (fun a v => ∃ row, v = .resolved id content row ∧ a.resourceId = row.resourceId ∧
          a.isDedupe = !row.isNew) (fun _ v => v.MayDelete id)) (.stored id content) := by
  refine observe_call ⟨content, rfl, rfl, rfl⟩ (fun row => ?_) fun err => rfl
  show Spec _ _ _ _ (Seen.resolved id content row)
  cases hstorage : row.storageKey with
  | none => exact ⟨rfl, fun _ => .inl hstorage⟩
  | some storageKey =>
    cases hblob : row.blobId with
    | none => exact ⟨rfl, fun _ => .inr hblob⟩
    | some blobId =>
      dsimp only
      by_cases hnew : row.isNew = true
      · rw [if_pos hnew]
        exact ⟨row, rfl, rfl, by rw [hnew]; rfl⟩
      rw [if_neg hnew]
      have hold : ∀ h : row.isNew = true, row.storageKey = none ∨ row.blobId = none :=
        fun h => absurd h hnew
      refine observe_call rfl (fun found => ?_) fun err => ⟨rfl, hold⟩
      cases found with
      | true => exact ⟨row, rfl, rfl, by rw [Bool.eq_false_iff.mpr hnew]; rfl⟩
      | false => exact ⟨rfl, hold⟩

/-- The second transaction, and the removal of a file that is not needed. -/
theorem checked_bind {id : Nat} {content : Content} {row : Upserted} {a : Authoritative}
    (hid : a.resourceId = row.resourceId) (hdedupe : a.isDedupe = !row.isNew) :
    Checked see (Allowed sha256) (do
      bindArtifact id ⟨id, id, sha256 content⟩ a
      if a.isDedupe then discard id else pure ()) (.resolved id content row) := by
  have hafter : ∀ r, see (.resolved id content row)
      (Call.insertArtifact ⟨id, sha256 content, none⟩ ⟨id, id, a.resourceId⟩) r =
      if row.isNew then .nothing else .spare id := fun r => rfl
  refine checked_try ⟨content, row, rfl, rfl, rfl, hid⟩ (fun r => ?_) fun err => ?_
  · rw [hafter, hdedupe]
    cases row.isNew with
    | true => exact checked_pure () _
    | false => exact discard_checked rfl
  · rw [hafter, hdedupe]
    cases row.isNew with
    | true => exact checked_throw err _
    | false =>
      refine Spec.bind (Spec.mono (discard_throw (show Seen.MayDelete id (.spare id) from rfl) err) ?_)
      rintro r v rfl
      trivial

theorem put_spec (id : Nat) (content : Content) :
    Spec (observed see) (Allowed sha256) (put sha256 id content)
      (Post (fun blob v => blob = ⟨id, id, sha256 content⟩ ∧ v = .stored id content)
        (fun _ _ => True)) (.named id) :=
  observe_call rfl (fun _ => ⟨rfl, rfl⟩) fun _ => trivial

theorem checked_upload (inProject : Bool) (content : Content) :
    Checked see (Allowed sha256) (createSemanticArtifact sha256 inProject content) .nothing := by
  refine checked_call rfl fun id => ?_
  refine Spec.bind (Spec.mono (put_spec id content) ?_)
  intro r v hr
  cases r with
  | error err => trivial
  | ok blob =>
  obtain ⟨rfl, rfl⟩ := hr
  refine Spec.bind (Spec.tryCatch (Spec.mono (resolveResource_spec id content) ?_))
  intro r v hr
  cases r with
  | error err =>
    refine Spec.mono (discard_throw hr err) ?_
    rintro r v' rfl
    trivial
  | ok a =>
    obtain ⟨row, rfl, hid, hdedupe⟩ := hr
    cases inProject with
    | true => exact checked_call rfl fun _ => checked_bind hid hdedupe
    | false => exact checked_bind hid hdedupe

theorem checked_tombstone (artifactId : Nat) :
    Checked see (Allowed sha256) (tombstoneArtifact artifactId) .nothing := by
  refine checked_call rfl fun pinCount => ?_
  refine checked_call rfl fun _ => ?_
  exact ⟨rfl, fun _ => trivial⟩

theorem insertRefs_spec (referrer : String) (refs : List (Nat × Nat)) :
    Spec (observed see) (Allowed sha256) (insertRefs referrer refs)
      (Post (fun _ v => v = .nothing) (fun _ _ => True)) (.nothing : Seen Content) := by
  induction refs with
  | nil => rfl
  | cons ref refs ih => exact observe_call rfl (fun _ => ih) fun _ => trivial

theorem checked_insertRefs (referrer : String) (refs : List (Nat × Nat))
    {f : Unit → BytesProg Content Unit} (h : Checked see (Allowed sha256) (f ()) .nothing) :
    Checked see (Allowed sha256) (insertRefs referrer refs >>= f) .nothing := by
  refine Spec.bind (Spec.mono (insertRefs_spec referrer refs) ?_)
  intro r v hr
  cases r with
  | error err => trivial
  | ok a =>
    rw [show v = .nothing from hr]
    exact h

theorem checked_commit : Checked see (Allowed sha256)
    (perform Call.commit : BytesProg Content Unit) .nothing := ⟨trivial, fun _ => trivial⟩

theorem checked_record (referrer : String) (refs : List (Nat × Nat)) :
    Checked see (Allowed sha256) (recordArtifactRefs referrer refs) .nothing := by
  rw [recordArtifactRefs]
  by_cases hempty : refs = []
  · rw [if_pos hempty]
    exact checked_pure () _
  · rw [if_neg hempty]
    exact checked_insertRefs referrer refs checked_commit

theorem checked_sync (referrer : String) (refs : List (Nat × Nat)) :
    Checked see (Allowed sha256) (syncArtifactRefsForReferrer referrer refs) .nothing := by
  refine checked_call rfl fun _ => ?_
  refine checked_insertRefs referrer refs ?_
  exact checked_call rfl fun _ => checked_commit

/-- Garbage collection goes on with rows it has listed. -/
def Seen.Collects (rows : List Candidate) (v : Seen Content) : Prop :=
  v.collecting = true ∧ v.rows = rows

section

variable (h : v.collecting = true)

include h

theorem Seen.collecting_cases : (∃ rows, v = .listed rows) ∨ ∃ rows id, v = .reclaimed rows id := by
  cases v with
  | listed rows => exact .inl ⟨rows, rfl⟩
  | reclaimed rows id => exact .inr ⟨rows, id, rfl⟩
  | nothing | named | stored | resolved | spare | reclaiming => cases h

theorem see_reclaim_true (id : Nat) : see v (.reclaim id) (.ok true) = .reclaiming v.rows id := by
  rcases Seen.collecting_cases h with ⟨rows, rfl⟩ | ⟨rows, id', rfl⟩
  · rfl
  · rfl

theorem see_reclaim_false (id : Nat) : see v (.reclaim id) (.ok false) = v := by
  rcases Seen.collecting_cases h with ⟨rows, rfl⟩ | ⟨rows, id', rfl⟩
  · rfl
  · rfl

theorem see_reclaim_error (id : Nat) (err : BytesError) : see v (.reclaim id) (.error err) = v := by
  rcases Seen.collecting_cases h with ⟨rows, rfl⟩ | ⟨rows, id', rfl⟩
  · rfl
  · rfl

theorem see_commit (r : Except BytesError Unit) : see v .commit r = v := by
  rcases Seen.collecting_cases h with ⟨rows, rfl⟩ | ⟨rows, id', rfl⟩
  · rfl
  · rfl

end

variable {rows : List Candidate}

/-- A row that is one of the candidates is reclaimed, and garbage collection goes on. -/
theorem reclaimResource_spec {row : Candidate} (hrow : row ∈ rows) (hv : v.Collects rows) :
    Spec (observed see) (Allowed sha256) (reclaimResource row) (fun _ v => v.Collects rows) v := by
  rw [reclaimResource]
  cases hkey : row.storageKey with
  | none => exact hv
  | some storageKey =>
    refine Spec.tryCatch (Spec.mono (Q := Post (fun _ v => v.Collects rows)
      (fun _ v => v.Collects rows)) ?_ ?_)
    · refine observe_call hv.1 (fun found => ?_) fun err => ?_
      · cases found with
        | false =>
          rw [see_reclaim_false hv.1]
          refine observe_call trivial (fun _ => ?_) fun err => ?_
          · rw [see_commit hv.1]
            exact hv
          · rw [see_commit hv.1]
            exact hv
        | true =>
          rw [see_reclaim_true hv.1, hv.2]
          refine observe_call trivial (fun _ => ?_) fun err => ⟨rfl, rfl⟩
          have hkey' : Seen.MayDelete storageKey
            (.reclaimed rows row.id : Seen Content) := ⟨row, hrow, rfl, hkey⟩
          refine Spec.bind (Spec.mono (discard_spec hkey') ?_)
          rintro r v' ⟨rfl, rfl⟩
          exact ⟨rfl, rfl⟩
      · rw [see_reclaim_error hv.1]
        exact hv
    · rintro (err | a) v' hr
      · exact hr
      · exact hr

theorem reclaimRows_checked (todo : List Candidate)
    (htodo : ∀ row ∈ todo, row ∈ rows) (hv : v.Collects rows) :
    Checked see (Allowed sha256) (reclaimRows todo) v := by
  induction todo generalizing v with
  | nil => exact checked_pure 0 v
  | cons row todo ih =>
    refine Spec.bind (Spec.mono (reclaimResource_spec (htodo row (.head _)) hv) ?_)
    intro r v' hr
    cases r with
    | error err => trivial
    | ok found =>
      refine Checked.bind (ih (fun c hc => htodo c (.tail _ hc)) hr) ?_
      exact fun reclaimed v'' => checked_pure _ v''

theorem checked_collect (limit : Option Nat) :
    Checked see (Allowed sha256) (runResourceBlobGc limit) .nothing :=
  checked_call rfl fun rows => reclaimRows_checked rows (fun _ h => h) ⟨rfl, rfl⟩

end Programs

/-! ## Runs -/

/-- What may be started at any time. -/
inductive Job (Content : Type) where
  | upload (inProject : Bool) (content : Content)
  | tombstone (artifactId : Nat)
  | record (referrer : String) (refs : List (Nat × Nat))
  | sync (referrer : String) (refs : List (Nat × Nat))
  | forget (referrer : String)
  | collect (limit : Option Nat)
  | wait (time : Nat)

abbrev BytesTask (Content : Type) : Type := Task (Call Content) Call.Reply BytesError (Seen Content)

def Job.task : Job Content → BytesTask Content
  | .upload inProject content =>
    Task.of (createSemanticArtifact sha256 inProject content) .nothing
  | .tombstone artifactId => Task.of (tombstoneArtifact artifactId) .nothing
  | .record referrer refs => Task.of (recordArtifactRefs referrer refs) .nothing
  | .sync referrer refs => Task.of (syncArtifactRefsForReferrer referrer refs) .nothing
  | .forget referrer => Task.of (deleteArtifactRefsForReferrer referrer) .nothing
  | .collect limit => Task.of (runResourceBlobGc limit) .nothing
  | .wait time => Task.of (perform (Call.elapse time)) .nothing

variable {sha256} in
theorem Job.keeps (job : Job Content) : (job.task sha256).Keeps see (Allowed sha256) := by
  cases job with
  | upload inProject content => exact (checked_upload inProject content).task
  | tombstone artifactId => exact (checked_tombstone artifactId).task
  | record referrer refs => exact (checked_record referrer refs).task
  | sync referrer refs => exact (checked_sync referrer refs).task
  | forget referrer =>
    exact Checked.task (p := deleteArtifactRefsForReferrer referrer) ⟨rfl, fun _ => trivial⟩
  | collect limit => exact (checked_collect limit).task
  | wait time =>
    exact Checked.task (p := perform (Call.elapse time)) ⟨rfl, fun _ => trivial⟩

variable {sha256} in
theorem Job.view (job : Job Content) : (job.task sha256).view = .nothing := by
  cases job with
  | upload | tombstone | record | sync | forget | collect | wait => rfl

abbrev BytesPool (Content : Type) : Type :=
  Pool (Call Content) Call.Reply BytesError (Seen Content) (Store Content)

def bytesStep (s : BytesPool Content) (e : Event (Job Content) Chance) : BytesPool Content :=
  step storage see (Job.task sha256) s e

/-- Nothing is stored, and nothing is under way. -/
def fresh : BytesPool Content := ⟨emptyStore, fun _ => none⟩

end ArtifactBytes
