import Cinatra.Artifacts.ByteTasks
import Cinatra.Lib.Custody

/-! # ByteCustody — the law of the bytes, and the invariant behind it

    The law is that blob rows name files of their digest, and that what is live or
    pinned resolves to one (`Kept`).  Behind it a resource is in custody: it is needed
    by what is live or pinned, by an upload that has resolved it, and by a pin that is
    uncommitted, and doomed from the statement of a reclaim to its commit.  The steps
    that make and remove no rows, and come to need nothing, keep the invariant
    (`Sound.quiet`). -/

namespace ArtifactBytes

open Process RowTable Custody

variable {Content : Type}

abbrev Views (Content : Type) : Type := Nat → Option (Seen Content)

/-! ## What is needed, and what is being reclaimed -/

namespace Store

/-- A transaction that pins the representation is uncommitted. -/
def PinUnderWay (w : Store Content) (rep : Representation) : Prop :=
  ∃ i lock insert delete, (i, Pending.pins lock insert delete) ∈ w.pending ∧
    ∃ ref ∈ insert, ref.pins rep = true

/-- A representation of the resource is live or pinned, or is being pinned. -/
def Wants (w : Store Content) (id : Nat) : Prop :=
  ∃ rep ∈ w.representations, rep.resourceId = id ∧
    (w.isLive rep = true ∨ w.isPinned rep = true ∨ w.PinUnderWay rep)

def Present (w : Store Content) (id : Nat) : Prop := ∃ r ∈ w.resources, r.id = id

def Doomed (w : Store Content) (id : Nat) : Prop :=
  ∃ i blobId, (i, Pending.reclaim id blobId) ∈ w.pending

theorem isReclaiming_iff {w : Store Content} {id : Nat} :
    w.isReclaiming id = true ↔ w.Doomed id := by
  rw [isReclaiming, List.any_eq_true]
  constructor
  · rintro ⟨⟨i, p⟩, hp, hid⟩
    cases p with
    | reclaim id' blobId =>
      have heq : id' = id := of_decide_eq_true hid
      exact ⟨i, blobId, heq ▸ hp⟩
    | pins lock insert delete => cases hid
  · rintro ⟨i, blobId, hp⟩
    exact ⟨_, hp, decide_eq_true rfl⟩

end Store

/-- An upload is between its two transactions on the resource. -/
def Held (vs : Views Content) (id : Nat) : Prop := ∃ i v, vs i = some v ∧ v.holds = some id

/-- The resources, in custody. -/
def resourceCustody (w : Store Content) (vs : Views Content) : Keeping Nat where
  present := {id | w.Present id}
  needed := {id | w.Wants id ∨ Held vs id}
  doomed := {id | w.Doomed id}

/-- An upload or a transaction on pins has the resource in hand. -/
def InHand (w : Store Content) (vs : Views Content) (id : Nat) : Prop :=
  Held vs id ∨ ∃ rep ∈ w.representations, rep.resourceId = id ∧ w.PinUnderWay rep

/-- The rules that a call keeps. -/
def InOrder (w : Store Content) (vs : Views Content) (outcome : Outcome) : Call Content → Prop
  | .upsertResource _ key _ => outcome = .lost → ∃ r ∈ w.resources, r.substanceKey = key
  | .reclaim id => (∃ r ∈ w.resources, r.id = id ∧ w.eligible r = true) → ¬ InHand w vs id
  | .insertRef ref => w.pinnable ref = true → ∀ rep ∈ w.representations, ref.pins rep = true →
      w.isReclaiming rep.resourceId = false
  | _ => True

def Orderly (s : BytesPool Content) : Event (Job Content) Chance → Prop
  | .turn i chance => ∀ c v, NextCall s i c v → InOrder s.world s.views chance.outcome c
  | _ => True

variable (sha256 : Content → String)

/-- The representation resolves to a resource, its blob row, and a file of the digest. -/
def Resolves (w : Store Content) (rep : Representation) : Prop :=
  ∃ o ∈ w.objects, o.id = rep.artifactId ∧ ∃ r ∈ w.resources, r.id = rep.resourceId ∧
    ∃ b ∈ w.blobs, r.blobId = some b.id ∧ r.storageKey = some b.storageKey ∧
      b.sha256 = o.latestDigest ∧ ∃ content, w.files b.storageKey = some content ∧
        sha256 content = b.sha256

/-- **The law**: blob rows name files of their digest, and what is live or pinned resolves. -/
structure Kept (w : Store Content) : Prop where
  blobs : ∀ b ∈ w.blobs, ∃ content, w.files b.storageKey = some content ∧ sha256 content = b.sha256
  representations : ∀ rep ∈ w.representations, w.isLive rep = true ∨ w.isPinned rep = true →
    Resolves sha256 w rep

/-! ## The invariant -/

/-- The number has been given out, and its upload has resolved its resource, or is gone. -/
def Settled (minted : Nat) (vs : Views Content) (n : Nat) : Prop :=
  n < minted ∧ ∀ i v, vs i = some v → v.awaits ≠ some n

/-- No blob row has the number. -/
def Unbound (w : Store Content) (n : Nat) : Prop := ∀ b ∈ w.blobs, b.id ≠ n

/-- The candidates were resources. -/
def Listed (S : Nat → Prop) (rows : List Candidate) : Prop :=
  ∀ c ∈ rows, c.storageKey = some c.id ∧ S c.id

/-- What holds of the rows and the files, where the numbers in `S` are settled. -/
structure Bound (S : Nat → Prop) (w : Store Content) : Prop where
  resourceKeys : (w.resources.map Resource.id).Nodup
  resource : ∀ r ∈ w.resources, S r.id ∧ r.storageKey = some r.id ∧ r.blobId = some r.id ∧
    ∃ b ∈ w.blobs, b.id = r.id ∧ r.substanceKey = deriveSubstanceKey b.sha256
  blob : ∀ b ∈ w.blobs, S b.id ∧ b.storageKey = b.id ∧
    ∃ content, w.files b.id = some content ∧ sha256 content = b.sha256
  reclaim : ∀ i id blobId, (i, Pending.reclaim id blobId) ∈ w.pending → S id ∧ blobId = some id
  representationKeys : (w.representations.map Representation.id).Nodup
  representation : ∀ rep ∈ w.representations, S rep.resourceId ∧ ∃ o ∈ w.objects,
    o.id = rep.artifactId ∧ ∀ r ∈ w.resources, r.id = rep.resourceId →
      r.substanceKey = deriveSubstanceKey o.latestDigest

/-- What a task has seen is so. -/
def Fits (S : Nat → Prop) (w : Store Content) (i : Nat) : Seen Content → Prop
  | .nothing | .named _ => True
  | .stored n content => w.files n = some content
  | .resolved n content row => S n ∧ S row.resourceId ∧
      (∀ r ∈ w.resources, r.id = row.resourceId →
        r.substanceKey = deriveSubstanceKey (sha256 content)) ∧
      (row.isNew = true → row.storageKey ≠ none ∧ row.blobId ≠ none) ∧
      (row.isNew = false → Unbound w n)
  | .spare n => S n ∧ Unbound w n
  | .listed rows => Listed S rows
  | .reclaiming rows id => Listed S rows ∧ S id ∧ w.staged i = some (.reclaim id (some id))
  | .reclaimed rows id => Listed S rows ∧ S id ∧ Unbound w id

structure Sound (w : Store Content) (vs : Views Content) : Prop where
  awaiting : ∀ i v n, vs i = some v → v.awaits = some n →
    n < w.minted ∧ ∀ j u, vs j = some u → u.awaits = some n → j = i
  bound : Bound sha256 (Settled w.minted vs) w
  fits : ∀ i v, vs i = some v → Fits sha256 (Settled w.minted vs) w i v
  custody : Safe (resourceCustody w vs)

variable {sha256} {w w' : Store Content} {vs : Views Content} {i : Nat} {S S' : Nat → Prop}

/-- **What the invariant says**: the law is kept. -/
theorem Sound.kept (h : Sound sha256 w vs) : Kept sha256 w := by
  constructor
  · intro b hb
    obtain ⟨_, hkey, hfile⟩ := h.bound.blob b hb
    rw [hkey]
    exact hfile
  · intro rep hrep hlive
    have hneeded : w.Wants rep.resourceId := by
      refine ⟨rep, hrep, rfl, ?_⟩
      rcases hlive with hlive | hpinned
      · exact .inl hlive
      · exact .inr (.inl hpinned)
    obtain ⟨r, hr, hid⟩ : w.Present rep.resourceId :=
      h.custody.present rep.resourceId (.inl hneeded)
    obtain ⟨_, o, ho, hartifact, hsubstance⟩ := h.bound.representation rep hrep
    obtain ⟨_, hstorage, hblobId, b, hb, hbid, hdigest⟩ := h.bound.resource r hr
    obtain ⟨_, hkey, content, hfile, hsha⟩ := h.bound.blob b hb
    have hsame : b.sha256 = o.latestDigest := by
      have heq := hdigest.symm.trans (hsubstance r hr hid)
      exact String.append_right_inj _ |>.mp heq
    refine ⟨o, ho, hartifact, r, hr, hid, b, hb, ?_, ?_, hsame, content, ?_, hsha⟩
    · rw [hblobId, hbid]
    · rw [hstorage, hkey, hbid]
    · rw [hkey, hfile]

/-! ### Numbers that are settled -/

theorem Bound.mono (h : Bound sha256 S w) (hS : ∀ n, S n → S' n) : Bound sha256 S' w where
  resourceKeys := h.resourceKeys
  resource r hr := ⟨hS _ (h.resource r hr).1, (h.resource r hr).2⟩
  blob b hb := ⟨hS _ (h.blob b hb).1, (h.blob b hb).2⟩
  reclaim i id blobId hp := ⟨hS _ (h.reclaim i id blobId hp).1, (h.reclaim i id blobId hp).2⟩
  representationKeys := h.representationKeys
  representation rep hrep := ⟨hS _ (h.representation rep hrep).1, (h.representation rep hrep).2⟩

theorem Listed.mono {rows : List Candidate} (h : Listed S rows) (hS : ∀ n, S n → S' n) :
    Listed S' rows := fun c hc => ⟨(h c hc).1, hS _ (h c hc).2⟩

variable {v : Seen Content}

theorem Fits.mono (h : Fits sha256 S w i v) (hS : ∀ n, S n → S' n) : Fits sha256 S' w i v := by
  cases v with
  | nothing | named => trivial
  | stored n content => exact h
  | resolved n content row => exact ⟨hS _ h.1, hS _ h.2.1, h.2.2⟩
  | spare n => exact ⟨hS _ h.1, h.2⟩
  | listed rows => exact Listed.mono h hS
  | reclaiming | reclaimed => exact ⟨h.1.mono hS, hS _ h.2.1, h.2.2⟩

variable {o : Option (Seen Content)} {n : Nat} {m : Nat}

theorem Settled.update {m' : Nat} (h : Settled m vs n)
    (hm : m ≤ m') (ho : ∀ v, o = some v → v.awaits ≠ some n) :
    Settled m' (Function.update vs i o) n := by
  refine ⟨Nat.lt_of_lt_of_le h.1 hm, fun j v hv => ?_⟩
  rcases update_cases hv with ⟨-, hv⟩ | ⟨hj, hv⟩
  · exact ho v hv
  · exact h.2 j v hv

/-- What a task goes on from: it awaits and holds nothing that it did not. -/
structure GoesOn (vs : Views Content) (i : Nat) (o : Option (Seen Content)) : Prop where
  awaits : ∀ v n, o = some v → v.awaits = some n → ∃ u, vs i = some u ∧ u.awaits = some n
  holds : ∀ v id, o = some v → v.holds = some id → ∃ u, vs i = some u ∧ u.holds = some id

theorem GoesOn.settled (h : GoesOn vs i o)
    (hn : Settled m vs n) : Settled m (Function.update vs i o) n := by
  refine hn.update (Nat.le_refl m) fun v hv hawaits => ?_
  obtain ⟨u, hu, hu'⟩ := h.awaits v n hv hawaits
  exact hn.2 i u hu hu'

variable {id : Nat}

theorem GoesOn.held (h : GoesOn vs i o)
    (hheld : Held (Function.update vs i o) id) : Held vs id := by
  obtain ⟨j, v, hv, hid⟩ := hheld
  rcases update_cases hv with ⟨-, hv⟩ | ⟨hj, hv⟩
  · obtain ⟨u, hu, hu'⟩ := h.holds v id hv hid
    exact ⟨i, u, hu, hu'⟩
  · exact ⟨j, v, hv, hid⟩

theorem awaiting_update (h : Sound sha256 w vs)
    (hon : ∀ v n, o = some v → v.awaits = some n → ∃ u, vs i = some u ∧ u.awaits = some n)
    (hm : w.minted ≤ m) {j : Nat}
    (hv : Function.update vs i o j = some v) (hawaits : v.awaits = some n) :
    n < m ∧ ∀ k u, Function.update vs i o k = some u → u.awaits = some n → k = j := by
  have hback : ∀ k u, Function.update vs i o k = some u → u.awaits = some n →
      ∃ u', vs k = some u' ∧ u'.awaits = some n := by
    intro k u hu hn
    rcases update_cases hu with ⟨hk, hu⟩ | ⟨hk, hu⟩
    · rw [hk]
      exact hon u n hu hn
    · exact ⟨u, hu, hn⟩
  obtain ⟨v', hv', hn'⟩ := hback j v hv hawaits
  obtain ⟨hlt, halone⟩ := h.awaiting j v' n hv' hn'
  refine ⟨Nat.lt_of_lt_of_le hlt hm, fun k u hu hn => ?_⟩
  obtain ⟨u', hu', hun⟩ := hback k u hu hn
  exact halone k u' hu' hun

/-! ### Steps that make and remove no rows -/

/-- The files and the rows are as they were, up to the times in them. -/
structure Framed (w w' : Store Content) : Prop where
  files : w'.files = w.files
  blobs : w'.blobs = w.blobs
  representations : w'.representations = w.representations
  minted : w'.minted = w.minted
  resources : ∀ r' ∈ w'.resources, ∃ r ∈ w.resources, r'.id = r.id ∧
    r'.substanceKey = r.substanceKey ∧ r'.storageKey = r.storageKey ∧ r'.blobId = r.blobId
  ids : w'.resources.map Resource.id = w.resources.map Resource.id
  objects : ∀ o ∈ w.objects, ∃ o' ∈ w'.objects, o'.id = o.id ∧ o'.latestDigest = o.latestDigest

theorem Framed.same (hfiles : w'.files = w.files) (hresources : w'.resources = w.resources)
    (hblobs : w'.blobs = w.blobs) (hobjects : w'.objects = w.objects)
    (hrepresentations : w'.representations = w.representations) (hminted : w'.minted = w.minted) :
    Framed w w' where
  files := hfiles
  blobs := hblobs
  representations := hrepresentations
  minted := hminted
  resources r hr := ⟨r, hresources ▸ hr, rfl, rfl, rfl, rfl⟩
  ids := by rw [hresources]
  objects o ho := ⟨o, hobjects ▸ ho, rfl, rfl⟩

theorem Framed.present (h : Framed w w') : w'.Present id ↔ w.Present id := by
  have hmem : ∀ w : Store Content, w.Present id ↔ id ∈ w.resources.map Resource.id := fun w =>
    List.mem_map.symm
  rw [hmem, hmem, h.ids]

theorem Bound.framed (h : Bound sha256 S w) (hframe : Framed w w')
    (hreclaim : ∀ j id blobId, (j, Pending.reclaim id blobId) ∈ w'.pending →
      S id ∧ blobId = some id) : Bound sha256 S w' where
  resourceKeys := by rw [hframe.ids]; exact h.resourceKeys
  resource r' hr' := by
    obtain ⟨r, hr, hid, hsubstance, hstorage, hblob⟩ := hframe.resources r' hr'
    rw [hid, hsubstance, hstorage, hblob, hframe.blobs]
    exact h.resource r hr
  blob := by rw [hframe.blobs, hframe.files]; exact h.blob
  reclaim := hreclaim
  representationKeys := by rw [hframe.representations]; exact h.representationKeys
  representation := by
    rw [hframe.representations]
    intro rep hrep
    obtain ⟨hsettled, o, ho, hartifact, hsubstance⟩ := h.representation rep hrep
    obtain ⟨o', ho', hid, hdigest⟩ := hframe.objects o ho
    refine ⟨hsettled, o', ho', hid.trans hartifact, fun r' hr' heq => ?_⟩
    obtain ⟨r, hr, hrid, hrsubstance, _⟩ := hframe.resources r' hr'
    rw [hrsubstance, hdigest]
    exact hsubstance r hr (hrid.symm.trans heq)

/-- What a task has seen is still so where rows are gone, or have new times. -/
theorem Fits.less (h : Fits sha256 S w i v) (hfiles : w'.files = w.files)
    (hblobs : ∀ b ∈ w'.blobs, b ∈ w.blobs)
    (hresources : ∀ r' ∈ w'.resources, ∃ r ∈ w.resources, r'.id = r.id ∧
      r'.substanceKey = r.substanceKey)
    (hstaged : v.midway = false ∨ w'.staged i = w.staged i) : Fits sha256 S w' i v := by
  have hunbound : ∀ n, Unbound w n → Unbound w' n := fun n hn b hb => hn b (hblobs b hb)
  cases v with
  | nothing | named => trivial
  | stored n content =>
    show w'.files n = some content
    rw [hfiles]
    exact h
  | resolved n content row =>
    obtain ⟨hn, hid, hsubstance, hnew, hdedupe⟩ := h
    refine ⟨hn, hid, fun r' hr' heq => ?_, hnew, fun hold => hunbound n (hdedupe hold)⟩
    obtain ⟨r, hr, hrid, hrsubstance⟩ := hresources r' hr'
    rw [hrsubstance]
    exact hsubstance r hr (hrid.symm.trans heq)
  | spare n => exact ⟨h.1, hunbound n h.2⟩
  | listed rows => exact h
  | reclaiming rows id =>
    rcases hstaged with hmidway | hstaged
    · cases hmidway
    · exact ⟨h.1, h.2.1, hstaged.trans h.2.2⟩
  | reclaimed rows id => exact ⟨h.1, h.2.1, hunbound id h.2.2⟩

theorem Fits.framed (h : Fits sha256 S w i v) (hframe : Framed w w')
    (hstaged : v.midway = false ∨ w'.staged i = w.staged i) : Fits sha256 S w' i v := by
  refine h.less hframe.files (fun b hb => hframe.blobs ▸ hb) (fun r' hr' => ?_) hstaged
  obtain ⟨r, hr, hid, hsubstance, _⟩ := hframe.resources r' hr'
  exact ⟨r, hr, hid, hsubstance⟩

theorem Sound.framed (h : Sound sha256 w vs) (hframe : Framed w w')
    (hstaged : ∀ j, j ≠ i → w'.staged j = w.staged j)
    (hreclaim : ∀ j id blobId, (j, Pending.reclaim id blobId) ∈ w'.pending →
      Settled w.minted vs id ∧ blobId = some id) (hon : GoesOn vs i o)
    (hfits : ∀ v, o = some v → Fits sha256 (Settled w.minted (Function.update vs i o)) w' i v)
    (hmove : Move (resourceCustody w vs) (resourceCustody w' (Function.update vs i o))) :
    Sound sha256 w' (Function.update vs i o) where
  awaiting j v n hv hawaits := awaiting_update h hon.awaits (Nat.le_of_eq hframe.minted.symm) hv hawaits
  bound := by
    rw [hframe.minted]
    exact (h.bound.framed hframe hreclaim).mono fun n => hon.settled
  fits j v hv := by
    rw [hframe.minted]
    rcases update_cases hv with ⟨hj, hv⟩ | ⟨hj, hv⟩
    · rw [hj]
      exact hfits v hv
    · exact ((h.fits j v hv).mono fun n => hon.settled).framed hframe (.inr (hstaged j hj))
  custody := h.custody.move hmove

/-- What is under way has become less. -/
def Lessened (w w' : Store Content) : Prop :=
  ∀ p ∈ w'.pending, p ∈ w.pending ∨ ∃ lock insert delete, p.2 = .pins lock insert delete ∧
    ∀ ref ∈ insert, ∃ i lock' insert' delete',
      (i, Pending.pins lock' insert' delete') ∈ w.pending ∧ ref ∈ insert'

theorem Lessened.reclaim (h : Lessened w w') {j : Nat} {blobId : Option Nat}
    (hp : (j, Pending.reclaim id blobId) ∈ w'.pending) : (j, Pending.reclaim id blobId) ∈ w.pending := by
  rcases h _ hp with hp | ⟨lock, insert, delete, heq, _⟩
  · exact hp
  · cases heq

theorem Lessened.pinUnderWay (h : Lessened w w') {rep : Representation}
    (hpin : w'.PinUnderWay rep) : w.PinUnderWay rep := by
  obtain ⟨j, lock, insert, delete, hp, ref, href, hpins⟩ := hpin
  rcases h _ hp with hp | ⟨lock', insert', delete', heq, hfrom⟩
  · exact ⟨j, lock, insert, delete, hp, ref, href, hpins⟩
  · cases heq
    obtain ⟨k, lock', insert', delete', hp', href'⟩ := hfrom ref href
    exact ⟨k, lock', insert', delete', hp', ref, href', hpins⟩

/-- A step of a task that makes and removes no rows, and comes to need nothing. -/
structure Quiet (i : Nat) (w w' : Store Content) : Prop where
  framed : Framed w w'
  staged : ∀ j, j ≠ i → w'.staged j = w.staged j
  lessened : Lessened w w'
  live : ∀ rep, w'.isLive rep = true → w.isLive rep = true
  pinned : ∀ rep, w'.isPinned rep = true → w.isPinned rep = true ∨ w.PinUnderWay rep

theorem Quiet.wants (h : Quiet i w w') (hwants : w'.Wants id) : w.Wants id := by
  obtain ⟨rep, hrep, hid, hneeds⟩ := hwants
  rw [h.framed.representations] at hrep
  refine ⟨rep, hrep, hid, ?_⟩
  rcases hneeds with hlive | hpinned | hpin
  · exact .inl (h.live rep hlive)
  · exact .inr (h.pinned rep hpinned)
  · exact .inr (.inr (h.lessened.pinUnderWay hpin))

/-- **A quiet step of a task that goes on keeps the invariant.** -/
theorem Sound.quiet (h : Sound sha256 w vs) (hquiet : Quiet i w w') (hon : GoesOn vs i o)
    (hfits : ∀ v, o = some v → Fits sha256 (Settled w.minted (Function.update vs i o)) w' i v) :
    Sound sha256 w' (Function.update vs i o) := by
  refine h.framed hquiet.framed hquiet.staged ?_ hon hfits (Move.ease ?_ ?_ ?_)
  · exact fun j id blobId hp => h.bound.reclaim j id blobId (hquiet.lessened.reclaim hp)
  · exact fun id hid => hquiet.framed.present.mpr hid
  · rintro id (hwants | hheld)
    · exact .inl (hquiet.wants hwants)
    · exact .inr (hon.held hheld)
  · rintro id ⟨j, blobId, hp⟩
    exact ⟨j, blobId, hquiet.lessened.reclaim hp⟩

/-! ### The quiet steps -/

section Transactions

variable {j : Nat} {p : Pending}

theorem staged_rollback (hj : j ≠ i) : (w.rollback i).staged j = w.staged j := by
  show ((w.pending.filter _).find? _).map Prod.snd = (w.pending.find? _).map Prod.snd
  rw [List.find?_filter]
  congr 2
  funext p
  by_cases hp : p.1 = j
  · simp [hp, hj]
  · simp [hp]

theorem staged_stage (hj : j ≠ i) : (w.stage i p).staged j = w.staged j := by
  refine Eq.trans ?_ (staged_rollback (w := w) hj)
  show (List.find? _ (_ :: _)).map Prod.snd = _
  rw [List.find?_cons_of_neg]
  · rfl
  · exact fun h => hj (of_decide_eq_true h).symm

theorem staged_stage_self : (w.stage i p).staged i = some p := by
  show (List.find? _ (_ :: _)).map Prod.snd = _
  rw [List.find?_cons_of_pos (by simp)]
  rfl

theorem mem_pending_of_staged (h : w.staged i = some p) : (i, p) ∈ w.pending := by
  obtain ⟨⟨k, q⟩, hq, rfl⟩ := Option.map_eq_some_iff.mp h
  have hk : k = i := of_decide_eq_true (List.find?_some hq :)
  rw [← hk]
  exact List.mem_of_find?_eq_some hq

theorem mem_pending_stage {q : Nat × Pending} (h : q ∈ (w.stage i p).pending) :
    q = (i, p) ∨ q ∈ w.pending := by
  rcases List.mem_cons.mp h with rfl | h
  · exact .inl rfl
  · exact .inr (List.mem_filter.mp h).1

theorem mem_stagedPins {ref : ArtifactRef} (h : ref ∈ (w.stagedPins i).2.1) :
    ∃ lock insert delete, (i, Pending.pins lock insert delete) ∈ w.pending ∧ ref ∈ insert := by
  rw [Store.stagedPins] at h
  split at h
  · rename_i lock insert delete hstaged
    exact ⟨lock, insert, delete, mem_pending_of_staged hstaged, h⟩
  · cases h

end Transactions

theorem quiet_refl : Quiet i w w where
  framed := Framed.same rfl rfl rfl rfl rfl rfl
  staged _ _ := rfl
  lessened _ hp := .inl hp
  live _ h := h
  pinned _ h := .inl h

theorem quiet_rollback : Quiet i w (w.rollback i) where
  framed := Framed.same rfl rfl rfl rfl rfl rfl
  staged _ hj := staged_rollback hj
  lessened _ hp := .inl (List.mem_filter.mp hp).1
  live _ h := h
  pinned _ h := .inl h

theorem Quiet.trans {w'' : Store Content} (h : Quiet i w w') (h' : Quiet i w' w'') : Quiet i w w'' where
  framed := by
    refine ⟨h'.framed.files.trans h.framed.files, h'.framed.blobs.trans h.framed.blobs,
      h'.framed.representations.trans h.framed.representations,
      h'.framed.minted.trans h.framed.minted, fun r hr => ?_, h'.framed.ids.trans h.framed.ids,
      fun o ho => ?_⟩
    · obtain ⟨r', hr', hid', hs', hk', hb'⟩ := h'.framed.resources r hr
      obtain ⟨r'', hr'', hid, hs, hk, hb⟩ := h.framed.resources r' hr'
      exact ⟨r'', hr'', hid'.trans hid, hs'.trans hs, hk'.trans hk, hb'.trans hb⟩
    · obtain ⟨o', ho', hid', hd'⟩ := h.framed.objects o ho
      obtain ⟨o'', ho'', hid, hd⟩ := h'.framed.objects o' ho'
      exact ⟨o'', ho'', hid.trans hid', hd.trans hd'⟩
  staged j hj := (h'.staged j hj).trans (h.staged j hj)
  lessened := by
    intro p hp
    rcases h'.lessened p hp with hp | ⟨lock, insert, delete, heq, hfrom⟩
    · exact h.lessened p hp
    refine .inr ⟨lock, insert, delete, heq, fun ref href => ?_⟩
    obtain ⟨k, lock', insert', delete', hp', href'⟩ := hfrom ref href
    rcases h.lessened _ hp' with hold | ⟨lock'', insert'', delete'', heq', hfrom'⟩
    · exact ⟨k, lock', insert', delete', hold, href'⟩
    · cases heq'
      exact hfrom' ref href'
  live rep hlive := h.live rep (h'.live rep hlive)
  pinned rep hpinned := by
    rcases h'.pinned rep hpinned with hpinned | hpin
    · exact h.pinned rep hpinned
    · exact .inr (h.lessened.pinUnderWay hpin)

theorem quiet_tombstone (artifactId days : Nat) : Quiet i w (w.tombstone artifactId days) where
  framed := by
    refine ⟨rfl, rfl, rfl, rfl, fun r' hr' => ?_, ?_, fun o ho => ?_⟩
    · obtain ⟨r, hr, rfl⟩ := mem_updateWhere.mp hr'
      refine ⟨r, hr, ?_⟩
      split
      · exact ⟨rfl, rfl, rfl, rfl⟩
      · exact ⟨rfl, rfl, rfl, rfl⟩
    · exact map_updateWhere w.resources Resource.id fun _ => rfl
    · refine ⟨_, mem_updateWhere.mpr ⟨o, ho, rfl⟩, ?_⟩
      split
      · exact ⟨rfl, rfl⟩
      · exact ⟨rfl, rfl⟩
  staged _ _ := rfl
  lessened _ hp := .inl hp
  live rep hlive := by
    obtain ⟨o', ho', hcond⟩ := List.any_eq_true.mp hlive
    obtain ⟨o, ho, rfl⟩ := mem_updateWhere.mp ho'
    refine List.any_eq_true.mpr ⟨o, ho, ?_⟩
    split at hcond
    · rw [Bool.and_eq_true] at hcond
      cases of_decide_eq_true hcond.2
    · exact hcond
  pinned _ h := .inl h

theorem quiet_deleteRefs (referrer : String) :
    Quiet i w { w with refs := w.refs.filter (fun ref => ref.referrer ≠ referrer) } where
  framed := Framed.same rfl rfl rfl rfl rfl rfl
  staged _ _ := rfl
  lessened _ hp := .inl hp
  live _ h := h
  pinned rep hpinned := by
    obtain ⟨ref, href, hpins⟩ := List.any_eq_true.mp hpinned
    exact .inl (List.any_eq_true.mpr ⟨ref, (List.mem_filter.mp href).1, hpins⟩)

theorem quiet_elapse (time : Nat) : Quiet i w { w with now := w.now + time } where
  framed := Framed.same rfl rfl rfl rfl rfl rfl
  staged _ _ := rfl
  lessened _ hp := .inl hp
  live _ h := h
  pinned _ h := .inl h

variable {lock : Option String}

theorem quiet_stage {insert delete : List ArtifactRef}
    (hinsert : ∀ ref ∈ insert, ref ∈ (w.stagedPins i).2.1) :
    Quiet i w (w.stage i (.pins lock insert delete)) where
  framed := Framed.same rfl rfl rfl rfl rfl rfl
  staged _ hj := staged_stage hj
  lessened p hp := by
    rcases mem_pending_stage hp with rfl | hp
    · exact .inr ⟨lock, insert, delete, rfl, fun ref href => ⟨i, mem_stagedPins (hinsert ref href)⟩⟩
    · exact .inl hp
  live _ h := h
  pinned _ h := .inl h

theorem quiet_commit {insert delete : List ArtifactRef}
    (hstaged : w.staged i = some (.pins lock insert delete)) : Quiet i w (w.commit i) := by
  have happly : Quiet i w (w.apply (.pins lock insert delete)) := by
    refine ⟨Framed.same rfl rfl rfl rfl rfl rfl, fun _ _ => rfl, fun _ hp => .inl hp,
      fun _ h => h, fun rep hpinned => ?_⟩
    obtain ⟨ref, href, hpins⟩ := List.any_eq_true.mp hpinned
    rcases List.mem_append.mp (List.mem_filter.mp href).1 with href | href
    · exact .inl (List.any_eq_true.mpr ⟨ref, href, hpins⟩)
    · exact .inr ⟨i, lock, insert, delete, mem_pending_of_staged hstaged, ref,
        (List.mem_filter.mp href).1, hpins⟩
  rw [Store.commit, hstaged]
  exact happly.trans quiet_rollback

/-! ### A task that stays as it is, or whose call fails -/

theorem goesOn_none : GoesOn vs i none where
  awaits := by rintro _ _ ⟨⟩
  holds := by rintro _ _ ⟨⟩

theorem goesOn_some (hawaits : v.awaits = none) (hholds : v.holds = none) :
    GoesOn vs i (some v) where
  awaits u n hu hn := by
    cases hu
    rw [hawaits] at hn
    cases hn
  holds u id hu hid := by
    cases hu
    rw [hholds] at hid
    cases hid

theorem goesOn_same (hv : vs i = some v) : GoesOn vs i (some v) where
  awaits u n hu hn := ⟨u, by rw [hv, hu], hn⟩
  holds u id hu hid := ⟨u, by rw [hv, hu], hid⟩

theorem Sound.stays (h : Sound sha256 w vs) (hquiet : Quiet i w w')
    (hv : vs i = some v) (hmidway : v.midway = false) :
    Sound sha256 w' (Function.update vs i (some v)) := by
  refine h.quiet hquiet (goesOn_same hv) ?_
  rintro u ⟨⟩
  exact ((h.fits i v hv).mono fun n => (goesOn_same hv).settled).framed hquiet.framed
    (.inl hmidway)

/-- Nobody has a row of an upload that has yet to resolve its resource. -/
theorem Sound.unbound_of_awaits (h : Sound sha256 w vs)
    (hv : vs i = some v) (hn : v.awaits = some n) : Unbound w n := by
  intro b hb hid
  have hsettled := (h.bound.blob b hb).1
  rw [hid] at hsettled
  exact hsettled.2 i v hv hn

theorem Sound.settles {v u : Seen Content} (h : Sound sha256 w vs) (hv : vs i = some v)
    (hn : v.awaits = some n) (hu : u.awaits = none) :
    Settled w.minted (Function.update vs i (some u)) n := by
  obtain ⟨hlt, halone⟩ := h.awaiting i v n hv hn
  refine ⟨hlt, fun j u' hu' hawaits => ?_⟩
  rcases update_cases hu' with ⟨-, hu'⟩ | ⟨hj, hu'⟩
  · cases hu'
    rw [hu] at hawaits
    cases hawaits
  · exact hj (halone j u' hu' hawaits)

variable {c : Call Content}

theorem see_error (hallowed : Allowed sha256 v c) (err : BytesError) :
    see v c (.error err) = v ∧ v.midway = false ∨ see v c (.error err) = .nothing ∨
      (∃ n content, v = .stored n content ∧ see v c (.error err) = .spare n) ∨
      (∃ n content row, v = .resolved n content row ∧ row.isNew = false ∧
        see v c (.error err) = .spare n) ∨
      ∃ rows id, v = .reclaiming rows id ∧ see v c (.error err) = .listed rows := by
  cases v with
  | nothing => exact .inr (.inl (by cases c <;> rfl))
  | named n =>
    cases c with
    | writeFile key content => exact .inr (.inl rfl)
    | _ => exact .inl ⟨rfl, rfl⟩
  | stored n content =>
    cases c with
    | upsertResource id key blob => exact .inr (.inr (.inl ⟨n, content, rfl, rfl⟩))
    | _ => exact .inl ⟨rfl, rfl⟩
  | resolved n content row =>
    cases c with
    | insertArtifact object rep =>
      cases hnew : row.isNew with
      | true => exact .inr (.inl (if_pos hnew))
      | false =>
        refine .inr (.inr (.inr (.inl ⟨n, content, row, rfl, hnew, if_neg ?_⟩)))
        rw [hnew]
        exact Bool.false_ne_true
    | _ => exact .inl ⟨rfl, rfl⟩
  | spare n => exact .inl ⟨by cases c <;> rfl, rfl⟩
  | listed | reclaimed =>
    cases c with
    | _ => exact .inl ⟨rfl, rfl⟩
  | reclaiming rows id =>
    cases c with
    | commit => exact .inr (.inr (.inr (.inr ⟨rows, id, rfl, rfl⟩)))
    | upsertResource id key blob => obtain ⟨_, h, _⟩ := hallowed; cases h
    | insertArtifact object rep => obtain ⟨_, _, h, _⟩ := hallowed; cases h
    | deleteByStorageKey key => exact hallowed.elim
    | _ => cases hallowed

/-- **A call that fails, and leaves a quiet step behind, keeps the invariant.** -/
theorem Sound.fails (h : Sound sha256 w vs)
    (hquiet : Quiet i w w') (hv : vs i = some v) (hallowed : Allowed sha256 v c)
    (err : BytesError) : Sound sha256 w' (Function.update vs i (some (see v c (.error err)))) := by
  have hfits := h.fits i v hv
  rcases see_error hallowed err with ⟨heq, hmidway⟩ | heq | ⟨n, content, rfl, heq⟩ |
      ⟨n, content, row, rfl, hnew, heq⟩ | ⟨rows, id, rfl, heq⟩
  · rw [heq]
    exact h.stays hquiet hv hmidway
  · rw [heq]
    refine h.quiet hquiet (goesOn_some rfl rfl) ?_
    rintro u ⟨⟩
    trivial
  · rw [heq]
    refine h.quiet hquiet (goesOn_some rfl rfl) ?_
    rintro u ⟨⟩
    have hspare : Fits sha256 (Settled w.minted (Function.update vs i (some (.spare n)))) w i
        (.spare n) := ⟨h.settles hv rfl rfl, h.unbound_of_awaits hv rfl⟩
    exact hspare.framed hquiet.framed (.inl rfl)
  · rw [heq]
    have hon : GoesOn vs i (some (.spare n)) := goesOn_some rfl rfl
    refine h.quiet hquiet hon ?_
    rintro u ⟨⟩
    have hspare : Fits sha256 (Settled w.minted vs) w i (.spare n) :=
      ⟨hfits.1, hfits.2.2.2.2 hnew⟩
    exact (hspare.mono fun n => hon.settled).framed hquiet.framed (.inl rfl)
  · rw [heq]
    have hon : GoesOn vs i (some (.listed rows)) := goesOn_some rfl rfl
    refine h.quiet hquiet hon ?_
    rintro u ⟨⟩
    exact hfits.1.mono fun n => hon.settled

end ArtifactBytes
