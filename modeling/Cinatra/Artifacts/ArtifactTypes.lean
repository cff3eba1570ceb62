import Cinatra.Artifacts.Offers
import Cinatra.Lib.Machine

/-! # ArtifactTypes — every artifact has a well-defined type

    Each operation offers its assertions and then restores the floor (`exec_ran`), so
    an artifact has one active assertion an extension at most, and the floor exactly
    while nothing else is eligible (`types_well_defined`). -/

namespace ArtifactTypes

open RowTable Slots ArtifactAssertions ArtifactOffers

variable {floor ext : String} {k k' : ArtifactKey} {rows rows' : List Assertion} {n : Nat}
variable {s : AssertionSource} {σ σ' : Store}

/-! ## What a producing agent declares -/

theorem producerPlan_spec (floor : String) (refs : List String) :
    (producerPlan floor refs).Nodup ∧ floor ∉ producerPlan floor refs := by
  rw [producerPlan]
  refine List.foldlRecOn refs _ (motive := fun produces => produces.Nodup ∧ floor ∉ produces)
    ⟨List.nodup_nil, List.not_mem_nil⟩ ?_
  intro produces h ext _
  split
  · exact h
  rename_i hseen
  simp only [Bool.or_eq_true, decide_eq_true_eq, List.contains_iff_mem, not_or] at hseen
  split
  · exact h
  rename_i hfloor
  constructor
  · exact List.concat_eq_append ▸ h.1.concat hseen.2
  · rw [List.mem_append, List.mem_singleton]
    rintro (hin | heq)
    · exact h.2 hin
    · exact hfloor heq.symm

/-- The extension has been offered to the source: it took it, unless it was outranked. -/
def Offered (k : ArtifactKey) (ext : String) (s : AssertionSource) (n : Nat)
    (rows rows' : List Assertion) : Prop :=
  (blockedBy k ext s rows = true → slot k ext rows' = slot k ext rows) ∧
    (blockedBy k ext s rows = false → ∃ id, n ≤ id ∧ slot k ext rows' = [newRow id k ext s])

theorem blockedBy_congr (h : slot k ext rows' = slot k ext rows) :
    blockedBy k ext s rows' = blockedBy k ext s rows := by
  rw [Bool.eq_iff_iff, blockedBy, blockedBy, slotHas_iff, slotHas_iff, h]

theorem offered_of_slots (hslots : ∀ ext', slot k ext' rows' =
    if ext' = ext ∧ blockedBy k ext s rows = false then [newRow n k ext s] else slot k ext' rows) :
    Offered k ext s n rows rows' := by
  constructor
  · intro hblocked
    rw [hslots ext, hblocked, if_neg (fun h => Bool.noConfusion h.2)]
  · intro hfree
    exact ⟨n, Nat.le_refl n, by rw [hslots ext, if_pos ⟨rfl, hfree⟩]⟩

/-- **Every produced extension is offered to the agent.** -/
theorem assertProduced_spec (exts : List String) (hnd : exts.Nodup) (hfloor : floor ∉ exts) :
    ∀ (n : Nat) (rows : List Assertion), ∃ rows',
      exts.foldlM (assertProduced floor k) (rows, n) = .ok (rows', n + exts.length) ∧
        Within floor k n (n + exts.length) rows rows' ∧
        (∀ ext', ext' ∉ exts → slot k ext' rows' = slot k ext' rows) ∧
        (∀ ext' ∈ exts, Offered k ext' .agent n rows rows') ∧ (Well floor n rows → holding k rows' =
          exts.foldl (fun t ext => offer sourceRank ext .agent t) (holding k rows)) := by
  induction exts with
  | nil =>
    intro n rows
    exact ⟨rows, rfl, Within.refl (Nat.le_refl n), fun _ _ => rfl,
      fun _ h => absurd h List.not_mem_nil, fun _ => rfl⟩
  | cons ext exts ih =>
    intro n rows
    rw [List.nodup_cons] at hnd
    rw [List.mem_cons, not_or] at hfloor
    obtain ⟨m, hm, hwithin, hslots⟩ := assertionOps_spec (Ne.symm hfloor.1)
    have hsame : ∀ ext', ext' ≠ ext → slot k ext' m = slot k ext' rows := by
      intro ext' hne
      rw [hslots ext', if_neg (fun h => hne h.1)]
    obtain ⟨rows', hrun, hwithin', hother, hoffered, hholding⟩ := ih hnd.2 hfloor.2 (n + 1) m
    have hlen : n + 1 + exts.length = n + (ext :: exts).length := by
      rw [List.length_cons]
      omega
    refine ⟨rows', ?_, ?_, ?_, ?_, ?_⟩
    · rw [List.foldlM_cons, assertProduced, hm, ← hlen]
      exact hrun
    · rw [← hlen]
      exact hwithin.trans hwithin'
    · intro ext' hnot
      rw [List.mem_cons, not_or] at hnot
      rw [hother ext' hnot.2, hsame ext' hnot.1]
    · intro ext' hin
      rcases List.mem_cons.mp hin with rfl | hin
      · have hkept := hother ext' hnd.1
        have hfirst := offered_of_slots hslots
        rw [Offered, hkept]
        exact hfirst
      · have hne : ext' ≠ ext := fun h => hnd.1 (h ▸ hin)
        have hthen := hoffered ext' hin
        rw [Offered, blockedBy_congr (hsame ext' hne), hsame ext' hne] at hthen
        refine ⟨hthen.1, fun hfree => ?_⟩
        obtain ⟨id, hid, heq⟩ := hthen.2 hfree
        exact ⟨id, Nat.le_of_succ_le hid, heq⟩
    · intro hw
      rw [hholding (hwithin.well hw), holding_offer hw hslots]
      rfl

/-! ## The operations -/

/-- The artifact an operation is on. -/
def key : Op → ArtifactKey
  | .create k _ | .assert_ k _ _ | .confirm k _ _ | .archive k _ _ => k

/-- The assertions an operation tries to make. -/
def attempts (floor : String) : Op → List (String × AssertionSource)
  | .create _ refs => (producerPlan floor refs).map (fun ext => (ext, .agent))
  | .assert_ _ ext s => [(ext, s)]
  | .confirm _ ext s => [(ext, s)]
  | .archive _ _ _ => []

/-- The operation is refused nothing: the floor is not asserted, and an artifact is
    created once. -/
def Admissible (floor : String) (σ : Store) : Op → Prop
  | .create k _ => ∀ o ∈ σ.objects, o.id ≠ k.artifactId
  | .assert_ _ ext _ | .confirm _ ext _ => ext ≠ floor
  | .archive _ _ _ => True

/-- What an operation makes of the claims to an artifact's extensions, the floor aside. -/
noncomputable def effect (floor : String) (op : Op) (t : Holding String AssertionSource) :
    Holding String AssertionSource :=
  match op with
  | .create _ refs => (producerPlan floor refs).foldl (fun t ext => offer sourceRank ext .agent t) t
  | .assert_ _ ext s => offer sourceRank ext s t
  | .confirm _ ext s => offer sourceRank ext s.val t
  | .archive _ ext _ => vacate ext t

/-- Whoever restores the floor after an operation. -/
def floorSource : Op → AssertionSource
  | .create _ _ => .agent
  | .assert_ _ _ s => floorSourceOf s
  | .confirm _ _ s => floorSourceOf s
  | .archive _ _ s => floorSourceOf (s.getD .user)

/-- The artifact has been created, or something has been asserted of it. -/
def Known (σ : Store) (k : ArtifactKey) : Prop :=
  (∃ o ∈ σ.objects, o.id = k.artifactId ∧ o.orgId = k.orgId) ∨ ∃ r ∈ σ.assertions, r.artifact = k

/-- What an operation has done. -/
structure Ran (floor : String) (op : Op) (σ σ' : Store) : Prop where
  within : Within floor (key op) σ.nextId σ'.nextId σ.assertions σ'.assertions
  refines : Well floor σ.nextId σ.assertions → holding (key op) σ'.assertions =
    refloor Stands floor (floorSource op) (effect floor op (holding (key op) σ.assertions))
  offered : ∀ a ∈ attempts floor op, Offered (key op) a.1 a.2 σ.nextId σ.assertions σ'.assertions
  known : ∀ k, k ≠ key op → Known σ' k → Known σ k

theorem floorSourceOf_ne (s : AssertionSource) : floorSourceOf s ≠ .matcher := by
  rw [floorSourceOf]
  split
  · decide
  · assumption

theorem known_of_objects {k : ArtifactKey}
    (hobjects : σ'.objects.map (fun o => (o.id, o.orgId)) = σ.objects.map (fun o => (o.id, o.orgId)))
    (horigin : ∀ r ∈ σ'.assertions, r.artifact = k' ∨
      ∃ r₀ ∈ σ.assertions, r₀.artifact = r.artifact) (hne : k ≠ k') (h : Known σ' k) :
    Known σ k := by
  rcases h with ⟨o, ho, hid, horg⟩ | ⟨r, hr, heq⟩
  · have hmem : (o.id, o.orgId) ∈ σ.objects.map (fun o => (o.id, o.orgId)) := by
      rw [← hobjects]
      exact List.mem_map_of_mem ho
    obtain ⟨o', ho', heq⟩ := List.mem_map.mp hmem
    exact .inl ⟨o', ho', (congrArg Prod.fst heq).trans hid, (congrArg Prod.snd heq).trans horg⟩
  · rcases horigin r hr with hk | ⟨r₀, hr₀, h₀⟩
    · exact absurd (heq.symm.trans hk) hne
    · exact .inr ⟨r₀, hr₀, h₀.trans heq⟩

/-- **A locked transaction**: the operation's statements, then the floor. -/
theorem runOneLockedTx_spec {ops : Nat → List Assertion → Except Failure (List Assertion × Bool)}
    {inserted : Bool} {m : List Assertion} (hrun : ops σ.nextId σ.assertions = .ok (m, inserted))
    (hwithin : Within floor k σ.nextId (σ.nextId + 1) σ.assertions m) :
    ∃ σ', runOneLockedTx floor k s ops σ = .ok (σ', inserted) ∧
      Within floor k σ.nextId σ'.nextId σ.assertions σ'.assertions ∧
      (∀ ext', ext' ≠ floor → slot k ext' σ'.assertions = slot k ext' m) ∧
      (Well floor σ.nextId σ.assertions → holding k σ'.assertions =
        refloor Stands floor (floorSourceOf s) (holding k m)) ∧
      ∀ k₀, k₀ ≠ k → Known σ' k₀ → Known σ k₀ := by
  obtain ⟨rows', hfloor, hwithin', hothers, hown⟩ := floorRebalance_spec (floorSourceOf_ne s)
  refine ⟨refresh k { σ with assertions := rows', nextId := σ.nextId + 2 }, ?_,
    hwithin.trans hwithin', hothers, ?_, ?_⟩
  · rw [runOneLockedTx, hrun]
    show (floorRebalance floor k (σ.nextId + 1) (floorSourceOf s) m >>= _) = _
    rw [hfloor]
    rfl
  · exact fun hw => holding_refloor (hwithin.well hw) hothers hown
  · exact fun k₀ hne => known_of_objects (map_updateWhere σ.objects _ (fun _ => rfl))
      (hwithin.trans hwithin').origin hne

variable {source : AssertionSource}

theorem runOneLockedTx_offers (hext : ext ≠ floor) :
    ∃ σ' inserted, runOneLockedTx floor k source (assertionOps floor k ext s) σ =
        .ok (σ', inserted) ∧ Within floor k σ.nextId σ'.nextId σ.assertions σ'.assertions ∧
      (Well floor σ.nextId σ.assertions → holding k σ'.assertions =
        refloor Stands floor (floorSourceOf source)
          (offer sourceRank ext s (holding k σ.assertions))) ∧
      Offered k ext s σ.nextId σ.assertions σ'.assertions ∧
      ∀ k₀, k₀ ≠ k → Known σ' k₀ → Known σ k₀ := by
  obtain ⟨m, hm, hwithin, hslots⟩ := assertionOps_spec hext
  obtain ⟨σ', hrun, hwithin', hothers, hholding, hknown⟩ := runOneLockedTx_spec (s := source) hm hwithin
  refine ⟨σ', _, hrun, hwithin', ?_, ?_, hknown⟩
  · intro hw
    rw [hholding hw, holding_offer hw hslots]
  · have hoffered := offered_of_slots hslots
    rw [Offered] at hoffered ⊢
    rw [hothers ext hext]
    exact hoffered

theorem runOneLockedTx_archives :
    ∃ σ', archiveAssertion floor k ext (some source) σ = .ok (σ', false) ∧
      Within floor k σ.nextId σ'.nextId σ.assertions σ'.assertions ∧
      (Well floor σ.nextId σ.assertions → holding k σ'.assertions =
        refloor Stands floor (floorSourceOf source) (vacate ext (holding k σ.assertions))) ∧
      ∀ k₀, k₀ ≠ k → Known σ' k₀ → Known σ k₀ := by
  have hwithin : Within floor k σ.nextId (σ.nextId + 1) σ.assertions
      (updateWhere (inSlot k ext) archive σ.assertions) :=
    (within_archive (fun r hr => (inSlot_iff.mp hr).1)).trans (Within.refl (Nat.le_succ _))
  have hops : archiveOps k ext σ.nextId σ.assertions =
      .ok (updateWhere (inSlot k ext) archive σ.assertions, false) := by
    rw [archiveOps, archiveWhere_eq]
    rfl
  obtain ⟨σ', hrun, hwithin', _, hholding, hknown⟩ := runOneLockedTx_spec (s := source) hops hwithin
  refine ⟨σ', hrun, hwithin', ?_, hknown⟩
  intro hw
  rw [hholding hw]
  congr 1
  funext ext'
  rw [holding, slot_archive, vacate]
  by_cases h : ext' = ext
  · have hnil : (slot k ext' σ.assertions).filter (fun r => !inSlot k ext r) = [] := by
      rw [List.filter_eq_nil_iff, h]
      intro r hr
      rw [(List.mem_filter.mp hr).2]
      exact Bool.false_ne_true
    rw [hnil, h, Function.update_self]
    rfl
  · have hself : (slot k ext' σ.assertions).filter (fun r => !inSlot k ext r) =
        slot k ext' σ.assertions := by
      rw [List.filter_eq_self]
      intro r hr
      have hext := (inSlot_iff.mp (List.mem_filter.mp hr).2).2.1
      rw [Bool.not_eq_true', Bool.eq_false_iff]
      exact fun hin => h (hext.symm.trans (inSlot_iff.mp hin).2.1)
    rw [hself, Function.update_of_ne h]
    rfl

variable {op : Op}

/-- **What an admissible operation does.** -/
theorem exec_ran (h : Admissible floor σ op) :
    ∃ σ', exec floor σ op = .ok σ' ∧ Ran floor op σ σ' := by
  cases op with
  | create k refs =>
    obtain ⟨hnd, hfloor⟩ := producerPlan_spec floor refs
    obtain ⟨m, hm, hwithin, _, hoffered, hholding⟩ :=
      assertProduced_spec (k := k) _ hnd hfloor σ.nextId σ.assertions
    generalize hn : σ.nextId + (producerPlan floor refs).length = id at hm hwithin
    obtain ⟨rows', hrows', hwithin', hothers, hown⟩ :=
      floorRebalance_spec (k := k) (s := .agent) (by decide)
    have hfree : ¬ σ.objects.any (fun o => o.id = k.artifactId) = true := by
      rw [List.any_eq_true]
      rintro ⟨o, ho, hid⟩
      exact h o ho (of_decide_eq_true hid)
    refine ⟨{ assertions := rows', nextId := id + 1,
              objects := σ.objects ++ [⟨k.artifactId, k.orgId, 1⟩],
              outbox := σ.outbox ++ [(k.artifactId, 1)] },
      ?_, hwithin.trans hwithin', ?_, ?_, ?_⟩
    · rw [exec, createSemanticArtifact, if_neg hfree, hm]
      show (floorRebalance floor k id .agent m >>= _) = _
      rw [hrows']
      rfl
    · intro hw
      show holding k rows' = refloor Stands floor .agent ((producerPlan floor refs).foldl
        (fun t ext => offer sourceRank ext .agent t) (holding k σ.assertions))
      rw [← hholding hw]
      exact holding_refloor (hwithin.well hw) hothers hown
    · intro a ha
      obtain ⟨ext, hext, rfl⟩ := List.mem_map.mp ha
      have hsame := hothers ext (fun heq => hfloor (heq ▸ hext))
      have hoff := hoffered ext hext
      rw [Offered] at hoff ⊢
      show (_ → slot k ext rows' = _) ∧ (_ → ∃ id, _ ∧ slot k ext rows' = _)
      rw [hsame]
      exact hoff
    · intro k₀ hne hknown
      have hknown' : Known { σ with assertions := rows' } k₀ := by
        rcases hknown with ⟨o, ho, hid, horg⟩ | hr
        · rcases mem_concat.mp ho with ho | rfl
          · exact .inl ⟨o, ho, hid, horg⟩
          · have hsame : k₀ = ⟨k.orgId, k.artifactId⟩ := by
              rw [show k.orgId = k₀.orgId from horg, show k.artifactId = k₀.artifactId from hid]
            exact absurd hsame hne
        · exact .inr hr
      have horigin := (hwithin.trans hwithin').origin
      refine known_of_objects ?_ ?_ hne hknown'
      · rfl
      · exact horigin
  | assert_ k ext s =>
    obtain ⟨σ', inserted, hrun, hwithin, hholding, hoffered, hknown⟩ :=
      runOneLockedTx_offers (k := k) h
    refine ⟨σ', ?_, hwithin, hholding, ?_, hknown⟩
    · rw [exec, assertSemanticType, hrun]
      rfl
    · intro a ha
      rw [List.mem_singleton.mp ha]
      exact hoffered
  | confirm k ext s =>
    obtain ⟨σ', inserted, hrun, hwithin, hholding, hoffered, hknown⟩ :=
      runOneLockedTx_offers (k := k) h
    have hops : confirmOps floor k ext s = assertionOps floor k ext s := by
      funext n rows
      exact confirmOps_eq s.property
    refine ⟨σ', ?_, hwithin, hholding, ?_, hknown⟩
    · rw [exec, confirmAssertion, hops, hrun]
      rfl
    · intro a ha
      rw [List.mem_singleton.mp ha]
      exact hoffered
  | archive k ext s =>
    obtain ⟨σ', hrun, hwithin, hholding, hknown⟩ := runOneLockedTx_archives (k := k)
    refine ⟨σ', ?_, hwithin, hholding, fun a ha => absurd ha List.not_mem_nil, hknown⟩
    have hsame : archiveAssertion floor k ext s σ =
        archiveAssertion floor k ext (some (s.getD .user)) σ := rfl
    rw [exec, hsame, hrun]
    rfl

/-! ## Every reachable store -/

/-- A store that some operations lead to. -/
def Reachable (floor : String) (σ : Store) : Prop :=
  Machine.Reaches (fun σ => σ = Store.empty) (step floor) (fun _ _ => True) σ

/-- The rows are well-formed, and each artifact's floor is right. -/
structure Sound (floor : String) (σ : Store) : Prop where
  well : Well floor σ.nextId σ.assertions
  floor_right : ∀ k, Known σ k → ((∃ s, holding k σ.assertions floor = some s) ↔
    ¬ Standing Stands floor (holding k σ.assertions))

theorem sound_empty (floor : String) : Sound floor Store.empty := by
  refine ⟨⟨fun _ _ => Nat.zero_le _, ?_, ?_, ?_⟩, ?_⟩
  · exact fun _ h => by cases h
  · exact fun _ h => by cases h
  · exact fun _ h => by cases h
  · rintro k (⟨o, ho, _⟩ | ⟨r, hr, _⟩)
    · cases ho
    · cases hr

theorem exec_error (h : ¬ Admissible floor σ op) : ∃ failure, exec floor σ op = .error failure := by
  cases op with
  | create k refs =>
    have hany : σ.objects.any (fun o => o.id = k.artifactId) = true := by
      rw [Admissible] at h
      push Not at h
      obtain ⟨o, ho, hid⟩ := h
      exact List.any_eq_true.mpr ⟨o, ho, decide_eq_true hid⟩
    exact ⟨.objectKey, by rw [exec, createSemanticArtifact, if_pos hany]⟩
  | assert_ k ext s =>
    refine ⟨.floorNotAssertable, ?_⟩
    rw [exec, assertSemanticType, runOneLockedTx, assertionOps, if_pos (not_not.mp h)]
    rfl
  | confirm k ext s =>
    refine ⟨.floorNotAssertable, ?_⟩
    rw [exec, confirmAssertion, runOneLockedTx, confirmOps, if_pos (not_not.mp h)]
    rfl
  | archive k ext s => exact absurd trivial h

theorem Sound.ran (h : Sound floor σ) (hran : Ran floor op σ σ') : Sound floor σ' := by
  refine ⟨hran.within.well h.well, ?_⟩
  intro k hknown
  by_cases hk : k = key op
  · rw [hk, hran.refines h.well]
    exact refloor_floor
  have hsame : holding k σ'.assertions = holding k σ.assertions := by
    funext ext
    rw [holding, holding, hran.within.others k ext hk]
  rw [hsame]
  exact h.floor_right k (hran.known k hk hknown)

theorem Sound.step (h : Sound floor σ) (op : Op) :
    Sound floor (ArtifactAssertions.step floor σ op) := by
  rw [ArtifactAssertions.step]
  by_cases hadm : Admissible floor σ op
  · obtain ⟨σ', hok, hran⟩ := exec_ran hadm
    rw [hok]
    exact h.ran hran
  · obtain ⟨failure, herr⟩ := exec_error hadm
    rw [herr]
    exact h

theorem sound_reachable (h : Reachable floor σ) : Sound floor σ := by
  refine Machine.Reaches.invariant (I := Sound floor) ?_ (fun _ op hs _ => hs.step op) h
  rintro σ rfl
  exact sound_empty floor

/-- **Operations on other artifacts**, whatever they do and however they end, leave every slot
    of an artifact as it is. -/
theorem others_untouched {k : ArtifactKey} {ops : List Op} (hops : ∀ op ∈ ops, key op ≠ k)
    (ext : String) :
    slot k ext (ops.foldl (ArtifactAssertions.step floor) σ).assertions = slot k ext σ.assertions := by
  refine List.foldlRecOn ops _ (motive := fun σ' : Store =>
    slot k ext σ'.assertions = slot k ext σ.assertions) rfl fun σ₁ hsame op hop => ?_
  rw [ArtifactAssertions.step]
  by_cases hadm : Admissible floor σ₁ op
  · obtain ⟨σ', hok, hran⟩ := exec_ran hadm
    rw [hok]
    exact (hran.within.others k ext (hops op hop).symm).trans hsame
  · obtain ⟨failure, herr⟩ := exec_error hadm
    rw [herr]
    exact hsame

/-! ## The type of an artifact -/

/-- An artifact's type is well defined: one active assertion an extension at most, no
    matcher's but drafts, and the floor, eligible, exactly if nothing else is. -/
structure WellTyped (floor : String) (k : ArtifactKey) (rows : List Assertion) : Prop where
  one : ∀ ext, (rows.filter (inSlot k ext)).length ≤ 1
  matcher : ∀ r ∈ rows, r.assertedBy = .matcher → r.eligibility = .draft ∨ r.eligibility = .archived
  floor_iff : (∃ r ∈ rows, inSlot k floor r = true) ↔
    ¬ ∃ r ∈ rows, r.artifact = k ∧ r.extension ≠ floor ∧ r.eligibility = .eligible
  floor_eligible : ∀ r ∈ rows, inSlot k floor r = true → r.eligibility = .eligible

/-- What keeps an assertion out: of a matcher, any but a draft, else a higher one. -/
def Blocks (s : AssertionSource) (r : Assertion) : Prop :=
  if s = .matcher then r.eligibility ≠ .draft else sourceRank s < sourceRank r.assertedBy

/-- A new row of the source is the active assertion of the extension. -/
def Inserted (k : ArtifactKey) (ext : String) (s : AssertionSource) (σ σ' : Store) : Prop :=
  ∃ r ∈ σ'.assertions, inSlot k ext r = true ∧ r.assertedBy = s ∧ ∀ r₀ ∈ σ.assertions, r₀.id ≠ r.id

theorem Sound.wellTyped (h : Sound floor σ) (hknown : Known σ k) :
    WellTyped floor k σ.assertions := by
  have hfloor : (∃ s, holding k σ.assertions floor = some s) ↔
      ∃ r ∈ σ.assertions, inSlot k floor r = true := by
    constructor
    · rintro ⟨s, hs⟩
      obtain ⟨r, hr, _⟩ := (holding_eq_some h.well).mp hs
      exact ⟨r, (List.mem_filter.mp hr).1, (List.mem_filter.mp hr).2⟩
    · rintro ⟨r, hr, hin⟩
      exact ⟨r.assertedBy, (holding_eq_some h.well).mpr ⟨r, List.mem_filter.mpr ⟨hr, hin⟩, rfl⟩⟩
  refine ⟨h.well.one k, ?_, ?_, ?_⟩
  · intro r hr hm
    have hcheck := h.well.checked r hr
    simp only [checkOk, Bool.and_eq_true, Bool.or_eq_true, decide_eq_true_eq] at hcheck
    rcases hcheck.1 with (hne | hd) | ha
    · exact absurd hm hne
    · exact .inl hd
    · exact .inr ha
  · rw [← hfloor, h.floor_right k hknown, standing_iff h.well, hasOther, List.any_eq_true]
    refine not_congr ⟨?_, ?_⟩
    · rintro ⟨r, hr, hother⟩
      obtain ⟨hk, he, hext⟩ := eligibleOther_iff.mp hother
      exact ⟨r, hr, hk, hext, he⟩
    · rintro ⟨r, hr, hk, hext, he⟩
      exact ⟨r, hr, eligibleOther_iff.mpr ⟨hk, he, hext⟩⟩
  · intro r hr hin
    obtain ⟨_, hext, hactive⟩ := inSlot_iff.mp hin
    exact (eligible_iff (h.well.checked r hr) hactive).mpr (h.well.floored r hr hext)

theorem blocks_iff (hw : Well floor n rows) :
    blockedBy k ext s rows = true ↔ ∃ r ∈ rows, inSlot k ext r = true ∧ Blocks s r := by
  rw [blockedBy, slotHas_iff]
  have hsame : ∀ r ∈ rows, inSlot k ext r = true →
      (sourceRank s < sourceRank r.assertedBy ↔ Blocks s r) := by
    intro r hr hin
    have helig := eligible_iff (hw.checked r hr) (inSlot_iff.mp hin).2.2
    rw [Blocks]
    split
    · rename_i hs
      have hactive := (inSlot_iff.mp hin).2.2
      rw [Assertion.active, decide_eq_true_eq] at hactive
      rw [Stands] at helig
      rw [hs]
      cases he : r.eligibility with
      | eligible =>
        have hne := helig.mp he
        cases hby : r.assertedBy with
        | user | authoringSkill | agent => simp [sourceRank]
        | matcher => exact absurd hby hne
      | draft =>
        have hm : r.assertedBy = .matcher := by
          by_contra hne
          rw [helig.mpr hne] at he
          cases he
        simp [hm, sourceRank]
      | archived => exact absurd he hactive
    · rfl
  constructor
  · rintro ⟨r, hr, hlt⟩
    obtain ⟨hr, hin⟩ := List.mem_filter.mp hr
    exact ⟨r, hr, hin, (hsame r hr hin).mp (of_decide_eq_true hlt)⟩
  · rintro ⟨r, hr, hin, hb⟩
    exact ⟨r, List.mem_filter.mpr ⟨hr, hin⟩, decide_eq_true ((hsame r hr hin).mpr hb)⟩

/-- **Precedence**: an offer keeps what outranks it, and lands exactly if nothing blocks it. -/
theorem Offered.precedence (hw : Well floor σ.nextId σ.assertions)
    (h : Offered k ext s σ.nextId σ.assertions σ'.assertions) :
    (∀ r ∈ σ.assertions, inSlot k ext r = true → sourceRank s < sourceRank r.assertedBy →
      r ∈ σ'.assertions) ∧
    (Inserted k ext s σ σ' ↔ ¬ ∃ r ∈ σ.assertions, inSlot k ext r = true ∧ Blocks s r) := by
  refine ⟨?_, ?_⟩
  · intro r hr hin hlt
    have hmem : r ∈ slot k ext σ.assertions := List.mem_filter.mpr ⟨hr, hin⟩
    have hblocked : blockedBy k ext s σ.assertions = true :=
      slotHas_iff.mpr ⟨r, hmem, decide_eq_true hlt⟩
    rw [← h.1 hblocked] at hmem
    exact (List.mem_filter.mp hmem).1
  · rw [← blocks_iff hw, Bool.not_eq_true]
    constructor
    · rintro ⟨r, hr, hin, _, hnew⟩
      rw [← Bool.not_eq_true]
      intro hblocked
      have hmem : r ∈ slot k ext σ'.assertions := List.mem_filter.mpr ⟨hr, hin⟩
      rw [h.1 hblocked] at hmem
      exact hnew r (List.mem_filter.mp hmem).1 rfl
    · intro hfree
      obtain ⟨id, hid, hslot⟩ := h.2 hfree
      have hmem : newRow id k ext s ∈ slot k ext σ'.assertions := by
        rw [hslot]
        exact List.mem_singleton.mpr rfl
      refine ⟨_, (List.mem_filter.mp hmem).1, newRow_inSlot id, rfl, ?_⟩
      intro r₀ hr₀ heq
      have hlt := hw.fresh r₀ hr₀
      rw [heq] at hlt
      exact absurd hlt (Nat.not_lt.mpr hid)

/-- **Every artifact has a well-defined type**, after any operations in any order; every
    admissible operation commits, and each assertion it tries to make archives nothing
    of a higher rank and is inserted exactly if nothing blocks it. -/
theorem types_well_defined (h : Reachable floor σ) :
    (∀ k, Known σ k → WellTyped floor k σ.assertions) ∧
    ∀ op, Admissible floor σ op → ∃ σ', exec floor σ op = .ok σ' ∧ ∀ a ∈ attempts floor op,
        (∀ r ∈ σ.assertions, inSlot (key op) a.1 r = true →
          sourceRank a.2 < sourceRank r.assertedBy → r ∈ σ'.assertions) ∧
        (Inserted (key op) a.1 a.2 σ σ' ↔
          ¬ ∃ r ∈ σ.assertions, inSlot (key op) a.1 r = true ∧ Blocks a.2 r) := by
  have hsound := sound_reachable h
  refine ⟨fun k hk => hsound.wellTyped hk, ?_⟩
  intro op hadm
  obtain ⟨σ', hok, hran⟩ := exec_ran hadm
  exact ⟨σ', hok, fun a ha => (hran.offered a ha).precedence hsound.well⟩

/-- An artifact is created by an agent that declares one type, a matcher drafts another,
    and a user confirms it. -/
def confirmed : Store :=
  let k : ArtifactKey := ⟨"org", "a"⟩
  [Op.create k ["@x/report"], .assert_ k "@x/brief" .matcher,
    .confirm k "@x/brief" ⟨.user, by decide⟩].foldl (step "@cinatra-ai/default-artifact") .empty

theorem reachable_confirmed : Reachable "@cinatra-ai/default-artifact" confirmed := by
  refine ⟨_, rfl, Machine.Admits.leads ?_⟩
  simp only [Machine.Admits, and_self]

/-- Another artifact is created, again in vain, and loses its only type to the floor. -/
def elsewhere : List Op :=
  let k : ArtifactKey := ⟨"org", "b"⟩
  [.create k ["@x/report"], .create k [], .archive k "@x/report" (some .user)]

set_option maxRecDepth 8000 in
theorem others_untouched_confirmed :
    let later := elsewhere.foldl (step "@cinatra-ai/default-artifact") confirmed
    slot ⟨"org", "a"⟩ "@x/brief" later.assertions = slot ⟨"org", "a"⟩ "@x/brief" confirmed.assertions ∧
      (slot ⟨"org", "a"⟩ "@x/brief" confirmed.assertions).length = 1 ∧
      (slot ⟨"org", "b"⟩ "@cinatra-ai/default-artifact" later.assertions).length = 1 ∧
      (step "@cinatra-ai/default-artifact" later (.create ⟨"org", "b"⟩ [])).nextId = later.nextId :=
  ⟨others_untouched (by decide) _, by decide +kernel, by decide +kernel, by decide +kernel⟩

set_option maxRecDepth 8000 in
/-- The user's row stands; the agent's offer of the same type is turned away. -/
theorem types_well_defined_confirmed :
    WellTyped "@cinatra-ai/default-artifact" ⟨"org", "a"⟩ confirmed.assertions ∧
    ∃ σ', exec "@cinatra-ai/default-artifact" confirmed
        (.assert_ ⟨"org", "a"⟩ "@x/brief" .agent) = .ok σ' ∧
      ¬ Inserted ⟨"org", "a"⟩ "@x/brief" .agent confirmed σ' := by
  have htypes := types_well_defined reachable_confirmed
  have hknown : Known confirmed ⟨"org", "a"⟩ := by
    unfold Known
    decide +kernel
  obtain ⟨σ', hok, hattempts⟩ := htypes.2 (.assert_ ⟨"org", "a"⟩ "@x/brief" .agent)
    (by unfold Admissible; decide +kernel)
  refine ⟨htypes.1 _ hknown, σ', hok, ?_⟩
  have hiff : Inserted ⟨"org", "a"⟩ "@x/brief" .agent confirmed σ' ↔
      ¬ ∃ r ∈ confirmed.assertions, inSlot ⟨"org", "a"⟩ "@x/brief" r = true ∧ Blocks .agent r :=
    (hattempts ("@x/brief", .agent) (List.mem_singleton.mpr rfl)).2
  rw [hiff, not_not]
  unfold Blocks
  decide +kernel

end ArtifactTypes
