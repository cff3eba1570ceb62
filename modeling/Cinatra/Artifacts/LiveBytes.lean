import Cinatra.Artifacts.ByteCustody

/-! # LiveBytes — the bytes of what is live or pinned are kept

    Uploads, tombstones, pins and garbage collection take turns on one store, and any
    call of theirs may fail before or after it has taken effect.  A blob row always
    names a file of its digest, and a representation that is live or pinned resolves
    to such a row, in every run whose steps keep three rules (`live_bytes_kept`): a
    first transaction that makes a resource does not lose its reply; a reclaim does
    not find a resource eligible while an upload is between its two transactions on
    it or a pin of it is uncommitted; no pin is written between a reclaim and its
    commit.  An upload of bytes whose last artifact is being collected is bound to a
    resource that is gone (`upload_stranded`). -/

namespace ArtifactBytes

open Process Machine RowTable Custody

variable {Content : Type} {sha256 : Content → String} {w w' : Store Content} {vs : Views Content}
  {i : Nat} {S S' : Nat → Prop}

/-! ### Numbers and files -/

theorem Bound.minted (h : Bound sha256 S w) (m : Nat) : Bound sha256 S { w with minted := m } :=
  ⟨h.resourceKeys, h.resource, h.blob, h.reclaim, h.representationKeys, h.representation⟩

variable {v : Seen Content}

theorem Fits.congr (h : Fits sha256 S w i v) (hfiles : w'.files = w.files)
    (hresources : w'.resources = w.resources) (hblobs : w'.blobs = w.blobs)
    (hpending : w'.pending = w.pending) : Fits sha256 S w' i v := by
  refine h.less hfiles (fun b hb => hblobs ▸ hb) (fun r hr => ⟨r, hresources ▸ hr, rfl, rfl⟩)
    (.inr ?_)
  rw [Store.staged, Store.staged, hpending]

theorem Sound.grows (h : Sound sha256 w vs) : Sound sha256 { w with minted := w.minted + 1 } vs := by
  have hsettled : ∀ n, Settled w.minted vs n → Settled (w.minted + 1) vs n := fun n hn =>
    ⟨Nat.lt_succ_of_lt hn.1, hn.2⟩
  refine ⟨fun j v n hj hn => ?_, (h.bound.minted _).mono hsettled,
    fun j v hj => ((h.fits j v hj).congr rfl rfl rfl rfl).mono hsettled, ?_⟩
  · exact ⟨Nat.lt_succ_of_lt (h.awaiting j v n hj hn).1, (h.awaiting j v n hj hn).2⟩
  · exact h.custody.move (Move.ease (fun id hid => hid) (fun id hid => hid) fun id hid => hid)

theorem Sound.mints (h : Sound sha256 w vs) : Sound sha256 { w with minted := w.minted + 1 }
      (Function.update vs i (some (.named w.minted))) := by
  have hfresh : ∀ j u, vs j = some u → u.awaits ≠ some w.minted := fun j u hu hn =>
    Nat.lt_irrefl _ (h.awaiting j u w.minted hu hn).1
  have hsettled : ∀ n, Settled w.minted vs n →
      Settled (w.minted + 1) (Function.update vs i (some (.named w.minted))) n := by
    intro n hn
    refine hn.update (Nat.le_succ _) ?_
    rintro v ⟨⟩ heq
    cases heq
    exact Nat.lt_irrefl _ hn.1
  refine ⟨fun j v n hj hn => ?_, ?_, fun j v hj => ?_, h.custody.move (Move.ease ?_ ?_ ?_)⟩
  · rcases update_cases hj with ⟨hji, hj⟩ | ⟨hji, hj⟩
    · cases hj
      cases hn
      refine ⟨Nat.lt_succ_self _, fun k u hu hk => ?_⟩
      by_cases hki : k = i
      · rw [hki, hji]
      · rw [Function.update_of_ne hki] at hu
        exact absurd hk (hfresh k u hu)
    · obtain ⟨hlt, halone⟩ := h.awaiting j v n hj hn
      refine ⟨Nat.lt_succ_of_lt hlt, fun k u hu hk => ?_⟩
      rcases update_cases hu with ⟨-, hu⟩ | ⟨hki, hu⟩
      · cases hu
        cases hk
        exact absurd hn (hfresh j v hj)
      · exact halone k u hu hk
  · exact (h.bound.minted _).mono hsettled
  · rcases update_cases hj with ⟨-, hj⟩ | ⟨hji, hj⟩
    · cases hj
      trivial
    · exact ((h.fits j v hj).congr rfl rfl rfl rfl).mono hsettled
  · exact fun id hid => hid
  · rintro id (hwants | ⟨j, u, hu, hid⟩)
    · exact .inl hwants
    · rcases update_cases hu with ⟨-, hu⟩ | ⟨hji, hu⟩
      · cases hu
        cases hid
      · exact .inr ⟨j, u, hu, hid⟩
  · exact fun id hid => hid

variable {key : Nat}

theorem Sound.files {files : Nat → Option Content}
    (h : Sound sha256 w vs) (hfiles : ∀ n, n ≠ key → files n = w.files n) (hkey : Unbound w key)
    (hothers : ∀ j content, vs j = some (.stored key content) → j = i) (hon : GoesOn vs i (some v))
    (hfits : Fits sha256 (Settled w.minted (Function.update vs i (some v)))
      { w with files := files } i v) :
    Sound sha256 { w with files := files } (Function.update vs i (some v)) := by
  refine ⟨fun j v n hj hn => awaiting_update h hon.awaits (Nat.le_refl _) hj hn, ?_, fun j u hj => ?_,
    h.custody.move (Move.ease ?_ ?_ ?_)⟩
  · have hbound : Bound sha256 (Settled w.minted vs) { w with files := files } := by
      refine ⟨h.bound.resourceKeys, h.bound.resource, fun b hb => ?_, h.bound.reclaim,
        h.bound.representationKeys, h.bound.representation⟩
      obtain ⟨hsettled, hstorage, hfile⟩ := h.bound.blob b hb
      refine ⟨hsettled, hstorage, ?_⟩
      show ∃ content, files b.id = some content ∧ _
      rw [hfiles b.id (hkey b hb)]
      exact hfile
    exact hbound.mono fun n => hon.settled
  · rcases update_cases hj with ⟨hji, hj⟩ | ⟨hji, hj⟩
    · cases hj
      rw [hji]
      exact hfits
    · have hold := h.fits j u hj
      have hfits : Fits sha256 (Settled w.minted vs) { w with files := files } j u := by
        cases u with
        | stored n content =>
          show files n = some content
          rw [hfiles n ?_]
          · exact hold
          · rintro rfl
            exact hji (hothers j content hj)
        | nothing | named => trivial
        | resolved | spare | listed | reclaiming | reclaimed => exact hold
      exact hfits.mono fun n => hon.settled
  · exact fun id hid => hid
  · rintro id (hwants | hheld)
    · exact .inl hwants
    · exact .inr (hon.held hheld)
  · exact fun id hid => hid

/-! ### Rows are made -/

section Resolving

variable {id : Nat} {content : Content} {row : Upserted}

theorem awaits_resolved (v : Seen Content) (n : Nat) (h : some (.resolved id content row) = some v)
    (hn : v.awaits = some n) : ∃ u, vs i = some u ∧ u.awaits = some n := by
  cases h
  cases hn

variable {n : Nat}

theorem held_resolved (h : Held (Function.update vs i (some (.resolved id content row))) n) :
    Held vs n ∨ n = row.resourceId := by
  obtain ⟨j, u, hu, hid⟩ := h
  rcases update_cases hu with ⟨-, hu⟩ | ⟨hj, hu⟩
  · cases hu
    exact .inr (Option.some.inj hid).symm
  · exact .inl ⟨j, u, hu, hid⟩

/-- An upload that has resolved its resource has its number settled. -/
theorem settled_resolved (h : Settled w.minted vs n) :
    Settled w.minted (Function.update vs i (some (.resolved id content row))) n := by
  refine h.update (Nat.le_refl _) ?_
  rintro v ⟨⟩ hn
  cases hn

variable {r : Resource}

theorem Sound.finds (h : Sound sha256 w vs)
    (hv : vs i = some (.stored id content)) (hr : r ∈ w.resources)
    (hsubstance : r.substanceKey = deriveSubstanceKey (sha256 content))
    (hdoomed : ¬ w.Doomed r.id) : Sound sha256 w (Function.update vs i
      (some (.resolved id content ⟨r.id, r.storageKey, r.blobId, false⟩))) where
  awaiting j v n hj hn := awaiting_update h awaits_resolved (Nat.le_refl _) hj hn
  bound := h.bound.mono fun n => settled_resolved
  fits j v hj := by
    rcases update_cases hj with ⟨-, hj⟩ | ⟨hji, hj⟩
    · cases hj
      refine ⟨h.settles hv rfl rfl, settled_resolved (h.bound.resource r hr).1, ?_, ?_, ?_⟩
      · intro r' hr' heq
        rw [eq_of_key h.bound.resourceKeys hr' hr heq]
        exact hsubstance
      · exact fun hnew => Bool.noConfusion hnew
      · exact fun _ => h.unbound_of_awaits hv rfl
    · exact (h.fits j v hj).mono fun n => settled_resolved
  custody := by
    refine h.custody.move ⟨?_, fun n hn => .inl hn, fun n hn => .inl hn⟩
    rintro n (hwants | hheld)
    · exact .inl (.inl hwants)
    · rcases held_resolved hheld with hheld | rfl
      · exact .inl (.inr hheld)
      · exact .inr ⟨⟨r, hr, rfl⟩, hdoomed⟩

/-- The rows that an upload makes. -/
def Store.withResource (w : Store Content) (id : Nat) (digest : String) : Store Content :=
  { w with
    resources := w.resources ++ [⟨id, deriveSubstanceKey digest, some id, some id, none⟩]
    blobs := w.blobs ++ [⟨id, id, digest⟩] }

variable {digest : String}

theorem unbound_withResource (hn : n ≠ id) (h : Unbound w n) :
    Unbound (w.withResource id digest) n := by
  intro b hb
  rcases mem_concat.mp hb with hb | rfl
  · exact h b hb
  · exact hn.symm

theorem mem_withResource (h : r ∈ (w.withResource id digest).resources) :
    r ∈ w.resources ∨ r = ⟨id, deriveSubstanceKey digest, some id, some id, none⟩ := by
  rcases List.mem_append.mp h with h | h
  · exact .inl h
  · exact .inr (List.mem_singleton.mp h)

theorem Bound.makes (h : Bound sha256 S w) (hS : ∀ n, S n → n ≠ id ∧ S' n) (hid : S' id)
    (hfile : w.files id = some content) : Bound sha256 S' (w.withResource id (sha256 content)) where
  resourceKeys := nodup_concat h.resourceKeys fun r hr => (hS r.id (h.resource r hr).1).1
  resource r hr := by
    rcases mem_withResource hr with hr | rfl
    · obtain ⟨hsettled, hstorage, hblob, b, hb, hb'⟩ := h.resource r hr
      exact ⟨(hS _ hsettled).2, hstorage, hblob, b, List.mem_append_left _ hb, hb'⟩
    · exact ⟨hid, rfl, rfl, _, List.mem_concat_self, rfl, rfl⟩
  blob b hb := by
    rcases mem_concat.mp hb with hb | rfl
    · obtain ⟨hsettled, hrest⟩ := h.blob b hb
      exact ⟨(hS _ hsettled).2, hrest⟩
    · exact ⟨hid, rfl, content, hfile, rfl⟩
  reclaim j n blobId hp := ⟨(hS _ (h.reclaim j n blobId hp).1).2, (h.reclaim j n blobId hp).2⟩
  representationKeys := h.representationKeys
  representation rep hrep := by
    obtain ⟨hsettled, o, ho, hartifact, hsubstance⟩ := h.representation rep hrep
    refine ⟨(hS _ hsettled).2, o, ho, hartifact, fun r hr heq => ?_⟩
    rcases mem_withResource hr with hr | rfl
    · exact hsubstance r hr heq
    · exact absurd heq.symm (hS _ hsettled).1

theorem Fits.makes {v : Seen Content} (h : Fits sha256 S w i v)
    (hS : ∀ n, S n → n ≠ id ∧ S' n) : Fits sha256 S' (w.withResource id digest) i v := by
  cases v with
  | nothing | named => trivial
  | stored n content => exact h
  | resolved n content row =>
    obtain ⟨hn, hrow, hsubstance, hnew, hdedupe⟩ := h
    refine ⟨(hS _ hn).2, (hS _ hrow).2, fun r hr heq => ?_, hnew, fun hold =>
      unbound_withResource (hS _ hn).1 (hdedupe hold)⟩
    rcases mem_withResource hr with hr | rfl
    · exact hsubstance r hr heq
    · exact absurd heq.symm (hS _ hrow).1
  | spare n => exact ⟨(hS _ h.1).2, unbound_withResource (hS _ h.1).1 h.2⟩
  | listed rows => exact Listed.mono h fun n hn => (hS n hn).2
  | reclaiming rows id' => exact ⟨h.1.mono fun n hn => (hS n hn).2, (hS _ h.2.1).2, h.2.2⟩
  | reclaimed rows id' =>
    exact ⟨h.1.mono fun n hn => (hS n hn).2, (hS _ h.2.1).2,
      unbound_withResource (hS _ h.2.1).1 h.2.2⟩

theorem Sound.makes (h : Sound sha256 w vs) (hv : vs i = some (.stored id content)) :
    Sound sha256 (w.withResource id (sha256 content))
      (Function.update vs i (some (.resolved id content ⟨id, some id, some id, true⟩))) := by
  have hid : Settled w.minted (Function.update vs i
      (some (.resolved id content ⟨id, some id, some id, true⟩))) id := h.settles hv rfl rfl
  have hS : ∀ n, Settled w.minted vs n → n ≠ id ∧ Settled w.minted (Function.update vs i
      (some (.resolved id content ⟨id, some id, some id, true⟩))) n := by
    refine fun n hn => ⟨?_, settled_resolved hn⟩
    rintro rfl
    exact hn.2 i _ hv rfl
  have hfile : w.files id = some content := h.fits i _ hv
  refine ⟨fun j v n hj hn => awaiting_update h awaits_resolved (Nat.le_refl _) hj hn,
    h.bound.makes hS hid hfile, fun j v hj => ?_, ?_⟩
  · rcases update_cases hj with ⟨-, hj⟩ | ⟨hji, hj⟩
    · cases hj
      refine ⟨hid, hid, fun r hr heq => ?_, fun _ => ⟨Option.some_ne_none id, Option.some_ne_none id⟩, fun hold => ?_⟩
      · rcases mem_withResource hr with hr | rfl
        · exact absurd heq (hS _ (h.bound.resource r hr).1).1
        · rfl
      · cases hold
    · exact (h.fits j v hj).makes hS
  · refine h.custody.move ⟨?_, fun n hn => .inl hn, ?_⟩
    · rintro n (hwants | hheld)
      · exact .inl (.inl hwants)
      · rcases held_resolved hheld with hheld | rfl
        · exact .inl (.inr hheld)
        · refine .inr ⟨⟨_, List.mem_concat_self, rfl⟩, ?_⟩
          rintro ⟨j, blobId, hp⟩
          exact (hS _ (h.bound.reclaim j _ blobId hp).1).1 rfl
    · rintro n ⟨r, hr, rfl⟩
      exact .inl ⟨r, List.mem_append_left _ hr, rfl⟩

end Resolving

variable {content : Content} {u : Seen Content} {object : ArtifactObject} {rep : Representation}
  {n : Nat}

theorem Sound.binds {row : Upserted} (h : Sound sha256 w vs)
    (hv : vs i = some (.resolved n content row)) (hinsert : w.insertArtifact object rep = some w')
    (hdigest : object.latestDigest = sha256 content) (hartifact : rep.artifactId = object.id)
    (hresource : rep.resourceId = row.resourceId) (hon : GoesOn vs i (some u))
    (hfits : Fits sha256 (Settled w.minted (Function.update vs i (some u))) w i u) :
    Sound sha256 w' (Function.update vs i (some u)) := by
  obtain ⟨hn, hrow, hsubstance, _⟩ := h.fits i _ hv
  rw [Store.insertArtifact] at hinsert
  split at hinsert
  · cases hinsert
  rename_i hfree
  cases hinsert
  rw [Bool.or_eq_true, not_or, Bool.not_eq_true, Bool.not_eq_true, List.any_eq_false,
    List.any_eq_false] at hfree
  obtain ⟨hobject, hkey⟩ := hfree
  have hother : ∀ rep' ∈ w.representations, rep'.artifactId ≠ object.id := by
    intro rep' hrep' heq
    obtain ⟨_, o, ho, hid, _⟩ := h.bound.representation rep' hrep'
    exact hobject o ho (decide_eq_true (hid.trans heq))
  have hlive : ∀ rep' ∈ w.representations, Store.isLive { w with
        objects := w.objects ++ [object]
        representations := w.representations ++ [rep] } rep' = true → w.isLive rep' = true := by
    intro rep' hrep' hlive
    obtain ⟨o, ho, hcond⟩ := List.any_eq_true.mp hlive
    rcases List.mem_append.mp ho with ho | ho
    · exact List.any_eq_true.mpr ⟨o, ho, hcond⟩
    · rw [List.mem_singleton.mp ho, Bool.and_eq_true] at hcond
      exact absurd (of_decide_eq_true hcond.1).symm (hother rep' hrep')
  refine ⟨fun j v n hj hn => awaiting_update h hon.awaits (Nat.le_refl _) hj hn, ?_,
    fun j v hj => ?_, h.custody.move ⟨?_, fun n hn => .inl hn, fun n hn => .inl hn⟩⟩
  · refine Bound.mono (S := Settled w.minted vs) ?_ fun n => hon.settled
    refine ⟨h.bound.resourceKeys, h.bound.resource, h.bound.blob, h.bound.reclaim, ?_, ?_⟩
    · exact nodup_concat h.bound.representationKeys fun rep' hrep' hid =>
        hkey rep' hrep' (decide_eq_true hid)
    · intro rep' hrep'
      rcases List.mem_append.mp hrep' with hrep' | hrep'
      · obtain ⟨hsettled, o, ho, hrest⟩ := h.bound.representation rep' hrep'
        exact ⟨hsettled, o, List.mem_append_left _ ho, hrest⟩
      rw [List.mem_singleton.mp hrep', hresource]
      refine ⟨hrow, object, List.mem_concat_self,
        hartifact.symm, fun r hr heq => ?_⟩
      rw [hdigest]
      exact hsubstance r hr heq
  · rcases update_cases hj with ⟨hji, hj⟩ | ⟨hji, hj⟩
    · cases hj
      rw [hji]
      exact hfits.congr rfl rfl rfl rfl
    · exact ((h.fits j v hj).congr rfl rfl rfl rfl).mono fun n => hon.settled
  · rintro id (⟨rep', hrep', hid, hneeds⟩ | hheld)
    · rcases List.mem_append.mp hrep' with hrep' | hrep'
      · refine .inl (.inl ⟨rep', hrep', hid, ?_⟩)
        exact hneeds.imp (hlive rep' hrep') fun hpin => hpin
      · -- the new representation needs what the upload holds
        rw [List.mem_singleton.mp hrep', hresource] at hid
        exact .inl (.inr ⟨i, _, hv, congrArg some hid⟩)
    · exact .inl (.inr (hon.held hheld))

/-! ### Transactions on pins, and reclaims -/

/-- A pin is inserted, and no reclaim of its resource is under way. -/
theorem Sound.pins {ref : ArtifactRef} (h : Sound sha256 w vs) (hv : vs i = some .nothing)
    (horder : InOrder w vs .answered (.insertRef ref)) :
    Sound sha256 (w.insertRef i ref) (Function.update vs i (some .nothing)) := by
  rw [Store.insertRef]
  by_cases hpinnable : w.pinnable ref = true
  · rw [if_pos hpinnable]
    obtain ⟨rep, hrep, hpins⟩ := List.any_eq_true.mp hpinnable
    obtain ⟨hpins, hresource⟩ := Bool.and_eq_true_iff.mp hpins
    obtain ⟨r, hr, hid⟩ := List.any_eq_true.mp hresource
    have hkey : ∀ rep' ∈ w.representations, ref.pins rep' = true → rep' = rep := by
      intro rep' hrep' hpins'
      refine eq_of_key h.bound.representationKeys hrep' hrep ?_
      exact (of_decide_eq_true (Bool.and_eq_true_iff.mp hpins').2).trans
        (of_decide_eq_true (Bool.and_eq_true_iff.mp hpins).2).symm
    have hspared : ¬ w.Doomed rep.resourceId := by
      rw [← Store.isReclaiming_iff, horder hpinnable rep hrep hpins]
      exact Bool.false_ne_true
    generalize hstaged : w.stagedPins i = staged
    obtain ⟨lock, insert, delete⟩ := staged
    have hpending : ∀ j id blobId, (j, Pending.reclaim id blobId) ∈
        (w.stage i (.pins lock (insert ++ [ref]) delete)).pending →
          (j, Pending.reclaim id blobId) ∈ w.pending := by
      intro j id blobId hp
      rcases mem_pending_stage hp with heq | hp
      · cases heq
      · exact hp
    refine h.framed (Framed.same rfl rfl rfl rfl rfl rfl) (fun j hj => staged_stage hj)
      (fun j id blobId hp => h.bound.reclaim j id blobId (hpending j id blobId hp))
      (goesOn_same hv) ?_ ⟨?_, ?_, fun n hn => .inl hn⟩
    · rintro v ⟨⟩
      trivial
    · rintro n (⟨rep', hrep', hn, hneeds⟩ | hheld)
      · rcases hneeds with hlive | hpinned | ⟨j, lock', insert', delete', hp, ref', href', hpins'⟩
        · exact .inl (.inl ⟨rep', hrep', hn, .inl hlive⟩)
        · exact .inl (.inl ⟨rep', hrep', hn, .inr (.inl hpinned)⟩)
        rcases mem_pending_stage hp with heq | hp
        · cases heq
          rcases List.mem_append.mp href' with href' | href'
          · have hmem : ref' ∈ (w.stagedPins i).2.1 := by
              rw [hstaged]
              exact href'
            obtain ⟨lock', insert', delete', hp, href'⟩ := mem_stagedPins hmem
            exact .inl (.inl ⟨rep', hrep', hn, .inr (.inr
              ⟨i, lock', insert', delete', hp, ref', href', hpins'⟩)⟩)
          · -- the new pin
            rw [List.mem_singleton.mp href'] at hpins'
            rw [hkey rep' hrep' hpins'] at hn
            subst hn
            refine .inr ⟨⟨r, hr, of_decide_eq_true hid⟩, ?_⟩
            rintro ⟨j, blobId, hp⟩
            exact hspared ⟨j, blobId, hpending j _ blobId hp⟩
        · exact .inl (.inl ⟨rep', hrep', hn, .inr (.inr
            ⟨j, lock', insert', delete', hp, ref', href', hpins'⟩)⟩)
      · exact .inl (.inr ((goesOn_same hv).held hheld))
    · rintro n ⟨j, blobId, hp⟩
      exact .inl ⟨j, blobId, hpending j n blobId hp⟩
  · rw [if_neg hpinnable]
    exact h.stays quiet_refl hv rfl

variable {r : Resource}

/-- Nothing live and no pin is of a resource that is eligible. -/
theorem not_wants_of_eligible (h : w.eligible r = true)
    (hpins : ¬ ∃ rep ∈ w.representations, rep.resourceId = r.id ∧ w.PinUnderWay rep) :
    ¬ w.Wants r.id := by
  rintro ⟨rep, hrep, hid, hneeds⟩
  simp only [Store.eligible, Bool.and_eq_true, Bool.not_eq_true', List.any_eq_false,
    List.mem_filter, decide_eq_true_eq, and_imp] at h
  rcases hneeds with hlive | hpinned | hpin
  · exact h.1.1.2 rep hrep hid hlive
  · exact h.1.2 rep hrep hid hpinned
  · exact hpins ⟨rep, hrep, hid, hpin⟩

variable {blobId : Option Nat}

theorem wants_of_stage {id : Nat} (h : (w.stage i (.reclaim id blobId)).Wants n) : w.Wants n := by
  obtain ⟨rep, hrep, hn, hlive | hpinned | ⟨j, lock, insert, delete, hp, hpins⟩⟩ := h
  · exact ⟨rep, hrep, hn, .inl hlive⟩
  · exact ⟨rep, hrep, hn, .inr (.inl hpinned)⟩
  · rcases mem_pending_stage hp with heq | hp
    · cases heq
    · exact ⟨rep, hrep, hn, .inr (.inr ⟨j, lock, insert, delete, hp, hpins⟩)⟩

/-- A reclaim is decided, of a resource that nobody has in hand. -/
theorem Sound.decides (h : Sound sha256 w vs)
    (hv : vs i = some v) (hcollecting : v.collecting = true) (hr : r ∈ w.resources)
    (heligible : w.eligible r = true) (hfree : ¬ InHand w vs r.id) :
    Sound sha256 (w.stage i (.reclaim r.id r.blobId))
      (Function.update vs i (some (.reclaiming v.rows r.id))) := by
  obtain ⟨hsettled, _, hblob, _⟩ := h.bound.resource r hr
  have hon : GoesOn vs i (some (.reclaiming v.rows r.id)) := goesOn_some rfl rfl
  have hlisted : Listed (Settled w.minted vs) v.rows := by
    have hfits := h.fits i v hv
    rcases Seen.collecting_cases hcollecting with ⟨rows, rfl⟩ | ⟨rows, id, rfl⟩
    · exact hfits
    · exact hfits.1
  refine h.framed (Framed.same rfl rfl rfl rfl rfl rfl) (fun j hj => staged_stage hj) ?_ hon ?_
    ⟨?_, ?_, fun n hn => .inl hn⟩
  · intro j id blobId hp
    rcases mem_pending_stage hp with heq | hp
    · cases heq
      exact ⟨hsettled, hblob⟩
    · exact h.bound.reclaim j id blobId hp
  · rintro u ⟨⟩
    refine ⟨hlisted.mono fun n => hon.settled, hon.settled hsettled, ?_⟩
    rw [staged_stage_self, hblob]
  · rintro n (hwants | hheld)
    · exact .inl (.inl (wants_of_stage hwants))
    · exact .inl (.inr (hon.held hheld))
  · rintro n ⟨j, blobId, hp⟩
    rcases mem_pending_stage hp with heq | hp
    · cases heq
      refine .inr ?_
      rintro (hwants | hheld)
      · exact not_wants_of_eligible heligible (fun hpin => hfree (.inr hpin))
          (wants_of_stage hwants)
      · exact hfree (.inl (hon.held hheld))
    · exact .inl ⟨j, blobId, hp⟩

theorem Sound.reclaims {id : Nat}
    (h : Sound sha256 w vs) (hstaged : w.staged i = some (.reclaim id blobId))
    (hon : GoesOn vs i (some u))
    (hfits : Fits sha256 (Settled w.minted (Function.update vs i (some u))) (w.commit i) i u) :
    Sound sha256 (w.commit i) (Function.update vs i (some u)) := by
  have hp := mem_pending_of_staged hstaged
  obtain ⟨_, rfl⟩ := h.bound.reclaim i id blobId hp
  rw [Store.commit, hstaged] at hfits ⊢
  dsimp only at hfits ⊢
  have hblobs : ∀ b, b ∈ ((w.apply (.reclaim id (some id))).rollback i).blobs ↔
      b ∈ w.blobs ∧ b.id ≠ id := by
    intro b
    show b ∈ w.blobs.filter _ ↔ _
    rw [List.mem_filter, decide_eq_true_iff, Ne, Option.some_inj]
  have hresources : ∀ r, r ∈ ((w.apply (.reclaim id (some id))).rollback i).resources ↔
      r ∈ w.resources ∧ r.id ≠ id := by
    intro r
    show r ∈ w.resources.filter _ ↔ _
    rw [List.mem_filter, decide_eq_true_iff]
  have hpending : ∀ p ∈ ((w.apply (.reclaim id (some id))).rollback i).pending, p ∈ w.pending :=
    fun p hp => (List.mem_filter.mp hp).1
  refine ⟨fun j v n hj hn => awaiting_update h hon.awaits (Nat.le_refl _) hj hn, ?_,
    fun j v hj => ?_, h.custody.move ⟨?_, ?_, ?_⟩⟩
  · refine Bound.mono (S := Settled w.minted vs) ?_ fun n => hon.settled
    refine ⟨h.bound.resourceKeys.sublist (List.filter_sublist.map _), fun r hr => ?_, fun b hb => ?_,
      fun j n b hp => h.bound.reclaim j n b (hpending _ hp), h.bound.representationKeys,
      fun rep hrep => ?_⟩
    · obtain ⟨hr, hne⟩ := (hresources r).mp hr
      obtain ⟨hsettled, hstorage, hblob, b, hb, hid, hrest⟩ := h.bound.resource r hr
      exact ⟨hsettled, hstorage, hblob, b, (hblobs b).mpr ⟨hb, hid.trans_ne hne⟩, hid, hrest⟩
    · exact h.bound.blob b ((hblobs b).mp hb).1
    · obtain ⟨hsettled, o, ho, hartifact, hsubstance⟩ := h.bound.representation rep hrep
      exact ⟨hsettled, o, ho, hartifact, fun r hr => hsubstance r ((hresources r).mp hr).1⟩
  · rcases update_cases hj with ⟨hji, hj⟩ | ⟨hji, hj⟩
    · cases hj
      rw [hji]
      exact hfits
    · refine Fits.mono (S := Settled w.minted vs) ?_ fun n => hon.settled
      refine (h.fits j v hj).less rfl (fun b hb => ((hblobs b).mp hb).1)
        (fun r hr => ⟨r, ((hresources r).mp hr).1, rfl, rfl⟩) (.inr (staged_rollback hji))
  · rintro n (⟨rep, hrep, hn, hneeds⟩ | hheld)
    · refine .inl (.inl ⟨rep, hrep, hn, hneeds.imp (fun h => h) (Or.imp (fun h => h) ?_)⟩)
      rintro ⟨j, lock, insert, delete, hp, hpins⟩
      exact ⟨j, lock, insert, delete, hpending _ hp, hpins⟩
    · exact .inl (.inr (hon.held hheld))
  · rintro n ⟨j, blobId, hp⟩
    exact .inl ⟨j, blobId, hpending _ hp⟩
  · rintro n ⟨r, hr, rfl⟩
    by_cases hne : r.id = id
    · exact .inr ⟨i, some id, hne ▸ hp⟩
    · exact .inl ⟨r, (hresources r).mpr ⟨hr, hne⟩, rfl⟩

/-! ### A call -/

theorem Sound.mayDelete (h : Sound sha256 w vs) (hv : vs i = some v) (hkey : v.MayDelete key) :
    Settled w.minted vs key ∧ Unbound w key := by
  have hfits := h.fits i v hv
  cases v with
  | resolved n content row =>
    obtain ⟨rfl, hnone⟩ := hkey
    obtain ⟨hn, _, _, hnew, hdedupe⟩ := hfits
    cases hrow : row.isNew with
    | true =>
      obtain ⟨hstorage, hblob⟩ := hnew hrow
      rcases hnone hrow with hnone | hnone
      · exact absurd hnone hstorage
      · exact absurd hnone hblob
    | false => exact ⟨hn, hdedupe hrow⟩
  | spare n =>
    cases hkey
    exact hfits
  | reclaimed rows id =>
    obtain ⟨c, hc, rfl, hstorage⟩ := hkey
    obtain ⟨hlisted, hid, hunbound⟩ := hfits
    rw [(hlisted c hc).1] at hstorage
    cases hstorage
    exact ⟨hid, hunbound⟩
  | nothing | named | stored | listed | reclaiming => exact hkey.elim

theorem see_delete (r : Except BytesError Unit) : see v (.deleteByStorageKey key) r = v := by
  cases v with
  | nothing | named | stored | resolved | spare | listed | reclaiming | reclaimed => rfl

section

variable (h : Sound sha256 w vs)

include h

theorem Sound.deletes
    (hv : vs i = some v) (hkey : v.MayDelete key) :
    Sound sha256 { w with files := Function.update w.files key none }
      (Function.update vs i (some v)) := by
  obtain ⟨hsettled, hunbound⟩ := h.mayDelete hv hkey
  refine h.files (fun n hn => Function.update_of_ne hn _ _) hunbound ?_ (goesOn_same hv) ?_
  · exact fun j content hj => absurd rfl (hsettled.2 j _ hj)
  · have hfits := (h.fits i v hv).mono fun n => (goesOn_same hv).settled
    cases v with
    | resolved | spare | reclaimed => exact hfits
    | nothing | named | stored | listed | reclaiming => exact hkey.elim

theorem Sound.writes
    (hv : vs i = some (.named n)) (hu : u = .stored n content ∨ u = .nothing) :
    Sound sha256 { w with files := Function.update w.files n (some content) }
      (Function.update vs i (some u)) := by
  have hon : GoesOn vs i (some u) := by
    rcases hu with rfl | rfl
    · constructor
      · rintro v m ⟨⟩ hm
        exact ⟨_, hv, hm⟩
      · rintro v m ⟨⟩ hm
        cases hm
    · exact goesOn_some rfl rfl
  refine h.files (fun m hm => Function.update_of_ne hm _ _) (h.unbound_of_awaits hv rfl) ?_ hon ?_
  · exact fun j content' hj => (h.awaiting i _ n hv rfl).2 j _ hj rfl
  · rcases hu with rfl | rfl
    · exact Function.update_self n _ _
    · trivial

theorem Sound.upserts {id : Nat} (hv : vs i = some (.stored id content))
    (hready : ready w (.upsertResource id (deriveSubstanceKey (sha256 content))
      ⟨id, id, sha256 content⟩) = true) :
    Sound sha256 (w.upsertResource id (deriveSubstanceKey (sha256 content))
        ⟨id, id, sha256 content⟩).2
      (Function.update vs i (some (.resolved id content (w.upsertResource id
        (deriveSubstanceKey (sha256 content)) ⟨id, id, sha256 content⟩).1))) := by
  rw [Store.upsertResource]
  cases hfind : w.resources.find?
      (fun r => r.substanceKey = deriveSubstanceKey (sha256 content)) with
  | none => exact h.makes hv
  | some r =>
    have hr := List.mem_of_find?_eq_some hfind
    have hsubstance : r.substanceKey = deriveSubstanceKey (sha256 content) :=
      of_decide_eq_true (List.find?_some hfind :)
    refine h.finds hv hr hsubstance fun hdoomed => ?_
    have hlocked : w.resources.any (fun r => r.substanceKey =
        deriveSubstanceKey (sha256 content) && w.isReclaiming r.id) = true := by
      rw [List.any_eq_true]
      exact ⟨r, hr, Bool.and_eq_true_iff.mpr
        ⟨decide_eq_true hsubstance, Store.isReclaiming_iff.mpr hdoomed⟩⟩
    rw [ready, hlocked] at hready
    cases hready

theorem Sound.inserts (hv : vs i = some v)
    (hallowed : Allowed sha256 v (.insertArtifact object rep))
    (hinsert : w.insertArtifact object rep = some w') (r : Except BytesError Unit) :
    Sound sha256 w' (Function.update vs i (some (see v (.insertArtifact object rep) r))) := by
  obtain ⟨content, row, rfl, hdigest, hartifact, hresource⟩ := hallowed
  have hsee : see (.resolved object.id content row) (.insertArtifact object rep) r =
      if row.isNew then .nothing else .spare object.id := rfl
  have hon : GoesOn vs i (some (see (.resolved object.id content row)
      (.insertArtifact object rep) r)) := by
    rw [hsee]
    cases row.isNew with
    | true | false => exact goesOn_some rfl rfl
  refine h.binds hv hinsert hdigest hartifact hresource hon ?_
  obtain ⟨hn, _, _, _, hdedupe⟩ := h.fits i _ hv
  rw [hsee] at hon ⊢
  cases hnew : row.isNew with
  | true => trivial
  | false =>
    rw [hnew] at hon
    exact ⟨hon.settled hn, hdedupe hnew⟩

end

theorem see_commit_of (h : v.midway = false) (r : Except BytesError Unit) :
    see v .commit r = v := by
  cases v with
  | nothing | named | stored | resolved | spare | listed | reclaimed => rfl
  | reclaiming rows id => cases h

theorem Sound.commits (h : Sound sha256 w vs) (hv : vs i = some v) (r : Except BytesError Unit) :
    Sound sha256 (w.commit i) (Function.update vs i (some (see v .commit r))) := by
  have hfits := h.fits i v hv
  by_cases hmidway : v.midway = false
  · rw [see_commit_of hmidway]
    cases hstaged : w.staged i with
    | none =>
      rw [Store.commit, hstaged]
      exact h.stays quiet_refl hv hmidway
    | some p =>
      cases p with
      | pins lock insert delete => exact h.stays (quiet_commit hstaged) hv hmidway
      | reclaim id blobId =>
        have hon : GoesOn vs i (some v) := goesOn_same hv
        refine h.reclaims hstaged hon ?_
        rw [Store.commit, hstaged]
        refine Fits.mono (S := Settled w.minted vs) ?_ fun n => hon.settled
        exact hfits.less rfl (fun b hb => (List.mem_filter.mp hb).1)
          (fun r hr => ⟨r, (List.mem_filter.mp hr).1, rfl, rfl⟩) (.inl hmidway)
  · cases v with
    | reclaiming rows id =>
      obtain ⟨hlisted, hid, hstaged⟩ := hfits
      cases r with
      | error err =>
        have hon : GoesOn vs i (some (.listed rows)) := goesOn_some rfl rfl
        exact h.reclaims hstaged hon (hlisted.mono fun n => hon.settled)
      | ok a =>
        have hon : GoesOn vs i (some (.reclaimed rows id)) := goesOn_some rfl rfl
        refine h.reclaims hstaged hon ⟨hlisted.mono fun n => hon.settled, hon.settled hid, ?_⟩
        rw [Store.commit, hstaged]
        intro b hb heq
        have hgone : some b.id ≠ some id := of_decide_eq_true (List.mem_filter.mp hb).2
        exact hgone (congrArg some heq)
    | nothing | named | stored | resolved | spare | listed | reclaimed => exact absurd rfl hmidway

/-- Calls that make no difference to what a task has seen. -/
def Call.plain : Call Content → Bool
  | .selectBlob _ | .assertProjectWritable | .countArtifactRefs _ | .writeArtifactAudit _ _
  | .tombstone _ _ | .deleteRefs _ | .elapse _ => true
  | _ => false

variable {c : Call Content}

theorem see_plain (h : c.plain = true) (r : Except BytesError c.Reply) : see v c r = v := by
  cases c with
  | selectBlob | assertProjectWritable | countArtifactRefs | writeArtifactAudit | tombstone
  | deleteRefs | elapse => cases v <;> rfl
  | _ => cases h

variable {order : List Candidate → List Candidate}

theorem quiet_plain (h : c.plain = true) : Quiet i w (serve order i w c).2 := by
  cases c with
  | selectBlob | assertProjectWritable | countArtifactRefs | writeArtifactAudit => exact quiet_refl
  | tombstone id days => exact quiet_tombstone id days
  | deleteRefs referrer => exact quiet_deleteRefs referrer
  | elapse time => exact quiet_elapse time
  | _ => cases h

theorem Sound.plain (h : Sound sha256 w vs) (hv : vs i = some v)
    (hmidway : v.midway = false) (hplain : c.plain = true) (r : Except BytesError c.Reply) :
    Sound sha256 (serve order i w c).2 (Function.update vs i (some (see v c r))) := by
  rw [see_plain hplain]
  exact h.stays (quiet_plain hplain) hv hmidway

theorem Seen.midway_of_collecting (h : v.collecting = true) : v.midway = false := by
  rcases Seen.collecting_cases h with ⟨rows, rfl⟩ | ⟨rows, id, rfl⟩
  · rfl
  · rfl

variable {rows : List Candidate}

theorem Bound.listed (h : Bound sha256 S w)
    (hrows : ∀ c ∈ rows, c ∈ w.candidates) : Listed S rows := by
  intro c hc
  obtain ⟨r, hr, rfl⟩ := List.mem_map.mp (hrows c hc)
  obtain ⟨hsettled, hstorage, _⟩ := h.resource r (List.mem_filter.mp hr).1
  exact ⟨hstorage, hsettled⟩

section

variable (h : Sound sha256 w vs)

include h

variable (hv : vs i = some v)

include hv

theorem Sound.lists {limit : Nat} (hmidway : v.midway = false)
    (hrows : ∀ c ∈ rows, c ∈ w.candidates) :
    Sound sha256 w (Function.update vs i (some (see v (.selectCandidates limit) (.ok rows)))) := by
  cases v with
  | nothing =>
    have hon : GoesOn vs i (some (.listed rows)) := goesOn_some rfl rfl
    refine h.quiet quiet_refl hon ?_
    rintro u ⟨⟩
    exact (h.bound.listed hrows).mono fun n => hon.settled
  | named | stored | resolved | spare | listed | reclaimed => exact h.stays quiet_refl hv rfl
  | reclaiming rows id => cases hmidway

theorem Sound.numbers
    (hmidway : v.midway = false) :
    Sound sha256 { w with minted := w.minted + 1 }
      (Function.update vs i (some (see v .randomUUID (.ok w.minted)))) := by
  cases v with
  | nothing => exact h.mints
  | named | stored | resolved | spare | listed | reclaimed => exact h.grows.stays quiet_refl hv rfl
  | reclaiming rows id => cases hmidway

theorem Sound.decidesOn {id : Nat} (hcollecting : v.collecting = true)
    (horder : InOrder w vs .answered (.reclaim id)) : Sound sha256 (w.reclaim i id).2
      (Function.update vs i (some (see v (.reclaim id) (.ok (w.reclaim i id).1)))) := by
  rw [Store.reclaim]
  cases hfind : w.resources.find? (fun r => r.id = id && w.eligible r) with
  | none =>
    dsimp only
    rw [see_reclaim_false hcollecting]
    exact h.stays quiet_refl hv (Seen.midway_of_collecting hcollecting)
  | some r =>
    have hr := List.mem_of_find?_eq_some hfind
    have hfound : (decide (r.id = id) && w.eligible r) = true := (List.find?_some hfind :)
    obtain ⟨hid, heligible⟩ := Bool.and_eq_true_iff.mp hfound
    have hid : r.id = id := of_decide_eq_true hid
    subst hid
    dsimp only
    rw [see_reclaim_true hcollecting]
    exact h.decides hv hcollecting hr heligible (horder ⟨r, hr, rfl, heligible⟩)

theorem Sound.served (hallowed : Allowed sha256 v c)
    (hready : ready w c = true) (horder : InOrder w vs .answered c) :
    Sound sha256 (serve order i w c).2
      (Function.update vs i (some (see v c (serve order i w c).1))) := by
  cases c with
  | randomUUID => exact h.numbers hv hallowed
  | writeFile key content =>
    cases hallowed
    exact h.writes hv (.inl rfl)
  | deleteByStorageKey key =>
    rw [see_delete]
    exact h.deletes hv hallowed
  | upsertResource id key blob =>
    obtain ⟨content, rfl, rfl, rfl⟩ := hallowed
    exact h.upserts hv hready
  | insertArtifact object rep =>
    cases hinsert : w.insertArtifact object rep with
    | some w' =>
      rw [serve, hinsert]
      exact h.inserts hv hallowed hinsert _
    | none =>
      rw [serve, hinsert]
      exact h.fails quiet_refl hv hallowed _
  | insertRef ref =>
    cases hallowed
    exact h.pins hv horder
  | lockReferrer referrer =>
    cases hallowed
    exact h.stays (quiet_stage (by rintro ref ⟨⟩)) hv rfl
  | deleteOtherRefs referrer wanted =>
    cases hallowed
    exact h.stays (quiet_stage fun ref href => href) hv rfl
  | selectCandidates limit =>
    refine h.lists hv hallowed fun c hc => ?_
    exact List.contains_iff_mem.mp (List.mem_filter.mp (List.mem_of_mem_take hc)).2
  | reclaim id => exact h.decidesOn hv hallowed horder
  | commit => exact h.commits hv _
  | selectBlob | assertProjectWritable | countArtifactRefs | writeArtifactAudit | tombstone
  | deleteRefs | elapse => exact h.plain hv hallowed rfl _

theorem Sound.lost (hallowed : Allowed sha256 v c)
    (horder : InOrder w vs .lost c) (hopens : c.opens = false) (err : BytesError) :
    Sound sha256 (serve order i w c).2 (Function.update vs i (some (see v c (.error err)))) := by
  cases c with
  | randomUUID => exact h.grows.fails quiet_refl hv hallowed err
  | writeFile key content =>
    cases hallowed
    exact h.writes hv (.inr rfl)
  | deleteByStorageKey key =>
    rw [see_delete]
    exact h.deletes hv hallowed
  | upsertResource id key blob =>
    -- the resource was there, and the rows are as they were
    have hsame : (w.upsertResource id key blob).2 = w := by
      obtain ⟨r, hr, hsubstance⟩ := horder rfl
      rw [Store.upsertResource]
      cases hfind : w.resources.find? (fun r => r.substanceKey = key) with
      | some r => rfl
      | none => exact absurd (decide_eq_true hsubstance) (List.find?_eq_none.mp hfind r hr)
    show Sound sha256 (w.upsertResource id key blob).2 _
    rw [hsame]
    exact h.fails quiet_refl hv hallowed err
  | insertArtifact object rep =>
    cases hinsert : w.insertArtifact object rep with
    | some w' =>
      rw [serve, hinsert]
      exact h.inserts hv hallowed hinsert _
    | none =>
      rw [serve, hinsert]
      exact h.fails quiet_refl hv hallowed _
  | selectCandidates limit => exact h.fails quiet_refl hv hallowed err
  | commit => exact h.commits hv _
  | selectBlob | assertProjectWritable | countArtifactRefs | writeArtifactAudit | tombstone
  | deleteRefs | elapse => exact h.plain hv hallowed rfl _
  | insertRef | lockReferrer | deleteOtherRefs | reclaim => cases hopens

/-- **A call keeps the invariant**, however it ends. -/
theorem Sound.answered {chance : Chance} (hallowed : Allowed sha256 v c)
    (hready : ready w c = true) (horder : InOrder w vs chance.outcome c) :
    Sound sha256 (storage.answer chance i c w).2
      (Function.update vs i (some (see v c (storage.answer chance i c w).1))) := by
  cases houtcome : chance.outcome with
  | answered =>
    rw [houtcome] at horder
    simp only [storage, houtcome]
    exact h.served hv hallowed hready horder
  | failed =>
    simp only [storage, houtcome]
    exact h.fails quiet_rollback hv hallowed _
  | lost =>
    rw [houtcome] at horder
    simp only [storage, houtcome]
    cases hopens : c.opens with
    | true =>
      rw [if_pos rfl]
      exact h.fails quiet_rollback hv hallowed _
    | false =>
      rw [if_neg Bool.false_ne_true]
      exact h.lost hv hallowed horder hopens _

end

/-- What holds of every state of an orderly run. -/
structure Running (sha256 : Content → String) (s : BytesPool Content) : Prop where
  kept : s.Kept see (Allowed sha256)
  sound : Sound sha256 s.world s.views

theorem running_fresh : Running sha256 (fresh : BytesPool Content) := by
  refine ⟨?_, ?_, ?_, ?_, ?_⟩
  · rintro i t ⟨⟩
  · rintro i v n ⟨⟩
  · refine ⟨List.nodup_nil, ?_, ?_, ?_, List.nodup_nil, ?_⟩
    · rintro r ⟨⟩
    · rintro b ⟨⟩
    · rintro i id blobId ⟨⟩
    · rintro rep ⟨⟩
  · rintro i v ⟨⟩
  · constructor
    · rintro n (⟨rep, ⟨⟩, _⟩ | ⟨i, v, ⟨⟩, _⟩)
    · rintro n _ ⟨i, blobId, ⟨⟩⟩

/-- **An orderly step keeps the invariant.** -/
theorem running_step {s : BytesPool Content} {e : Event (Job Content) Chance}
    (h : Running sha256 s) (horderly : Orderly s e) : Running sha256 (bytesStep sha256 s e) := by
  refine ⟨step_kept Job.keeps e h.kept, ?_⟩
  refine step_rule (I := Sound sha256) h.kept ?_ ?_ ?_ h.sound
  · intro j job hj
    rw [Job.view]
    refine h.sound.quiet quiet_refl (goesOn_some rfl rfl) ?_
    rintro v ⟨⟩
    trivial
  · rintro j chance c v rfl hcall hallowed hready
    exact h.sound.answered hcall.view hallowed hready (horderly c v hcall)
  · intro w vs j hsound
    refine hsound.quiet quiet_rollback goesOn_none ?_
    rintro v ⟨⟩

/-- **Live bytes are kept**: in every state that an orderly run reaches, blob rows name files
    of their digest, and every representation that is live or pinned resolves. -/
theorem live_bytes_kept (sha256 : Content → String) {s : BytesPool Content}
    (h : Leads (bytesStep sha256) Orderly fresh s) : Kept sha256 s.world := by
  have hrunning : Running sha256 s :=
    h.preserves (fun s e hs horderly => running_step hs horderly) running_fresh
  exact hrunning.sound.kept

/-! ### An upload of bytes that are there, and of bytes that are being collected -/

def calls (i n : Nat) : List (Event (Job String) Chance) :=
  List.replicate n (.turn i ⟨.answered, fun rows => rows⟩)

/-- An answered call is orderly while nothing is eligible and nothing is under way. -/
theorem orderly_answered {s : BytesPool String} {j : Nat}
    (hpending : s.world.pending = []) (heligible : s.world.resources.any s.world.eligible = false) :
    Orderly s (.turn j ⟨.answered, order⟩) := by
  intro c v _
  cases c with
  | upsertResource id key blob =>
    intro hlost
    cases hlost
  | reclaim id =>
    rintro ⟨r, hr, _, h⟩
    exact absurd h (List.any_eq_false.mp heligible r hr)
  | insertRef ref =>
    intro _ rep _ _
    rw [Store.isReclaiming, hpending]
    rfl
  | _ => trivial

/-- The same bytes are uploaded twice. -/
def twice : List (Event (Job String) Chance) :=
  .start 0 (.upload false "x") :: calls 0 4 ++ .start 1 (.upload false "x") :: calls 1 6

theorem live_bytes_kept_twice :
    (twice.foldl (bytesStep id) fresh).world.representations = [⟨0, 0, 0⟩, ⟨1, 1, 0⟩] ∧
      Kept id (twice.foldl (bytesStep id) fresh).world := by
  refine ⟨by decide +kernel, live_bytes_kept id (Admits.leads ?_)⟩
  refine ⟨trivial, ?_, ?_, ?_, ?_, trivial, ?_, ?_, ?_, ?_, ?_, ?_, trivial⟩
  · exact orderly_answered (by decide +kernel) (by decide +kernel)
  all_goals exact orderly_answered (by decide +kernel) (by decide +kernel)

/-- The artifact is tombstoned, and its bytes are uploaded again while they are collected. -/
def collectedMeanwhile : List (Event (Job String) Chance) :=
  .start 0 (.upload false "x") :: calls 0 4 ++ .start 1 (.tombstone 0) :: calls 1 3 ++
    .start 2 (.wait 1) :: calls 2 1 ++ .start 3 (.upload false "x") :: calls 3 4 ++
    .start 4 (.collect none) :: calls 4 4 ++ calls 3 2

/-- No operation is in progress. -/
def Idle (s : BytesPool Content) : Prop := ∀ i, s.tasks i = none

theorem upload_stranded : ¬ ∀ s : BytesPool String,
    Leads (bytesStep id) (fun _ _ => True) fresh s → Idle s → Kept id s.world := by
  intro h
  have hidle : Idle (collectedMeanwhile.foldl (bytesStep id) fresh) := by
    intro i
    by_cases hi : ∀ e ∈ collectedMeanwhile, e.task ≠ i
    · exact foldl_tasks_ne hi
    push Not at hi
    obtain ⟨e, he, rfl⟩ := hi
    have hdone : ∀ e ∈ collectedMeanwhile,
        ((collectedMeanwhile.foldl (bytesStep id) fresh).tasks e.task).isNone = true := by
      decide +kernel
    exact Option.isNone_iff_eq_none.mp (hdone e he)
  have hkept := h _ (leads_foldl fresh collectedMeanwhile) hidle
  have hrep : (⟨1, 1, 0⟩ : Representation) ∈
      (collectedMeanwhile.foldl (bytesStep id) fresh).world.representations := by decide +kernel
  obtain ⟨_, _, _, r, hr, _⟩ := hkept.representations _ hrep (.inl (by decide +kernel))
  have hgone : (collectedMeanwhile.foldl (bytesStep id) fresh).world.resources = [] := by
    decide +kernel
  rw [hgone] at hr
  cases hr

end ArtifactBytes
