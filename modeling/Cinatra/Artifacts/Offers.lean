import Cinatra.Artifacts.Assertions
import Cinatra.Lib.Slots

/-! # Offers — the statements on assertions, extension by extension

    The active assertions of an artifact are claims to the extensions they name.  A
    statement changes the slot of one extension: an assertion is offered to it
    (`assertionOps_spec`, `holding_offer`), and the floor is restored after it
    (`floorRebalance_spec`, `holding_refloor`). -/

namespace ArtifactOffers

open RowTable Slots ArtifactAssertions

variable {floor ext : String} {k k' : ArtifactKey} {rows rows' : List Assertion} {n n' : Nat}
variable {p : Assertion → Bool} {r : Assertion} {s : AssertionSource}

/-- The active assertions of an extension. -/
def slot (k : ArtifactKey) (ext : String) (rows : List Assertion) : List Assertion :=
  rows.filter (inSlot k ext)

theorem inSlot_iff : inSlot k ext r = true ↔ r.artifact = k ∧ r.extension = ext ∧ r.active = true := by
  simp only [inSlot, Bool.and_eq_true, decide_eq_true_eq, and_assoc]

/-! ## What a statement does to the slots -/

theorem frozen_archive (r : Assertion) : frozenRaises r (archive r) = false := by
  rw [frozenRaises]
  cases r.eligibility with
  | eligible | draft | archived => simp [archive]

theorem checkOk_archive (r : Assertion) : checkOk (archive r) = true := by
  simp [checkOk, archive]

theorem archiveWhere_eq (p : Assertion → Bool) (rows : List Assertion) :
    archiveWhere p rows = .ok (updateWhere p archive rows) := by
  have hfrozen : rows.any (fun r => p r && frozenRaises r (archive r)) = false := by
    simp [frozen_archive]
  have hcheck : rows.any (fun r => p r && !checkOk (archive r)) = false := by
    simp [checkOk_archive]
  rw [archiveWhere, hfrozen, hcheck]
  rfl

theorem slot_archive (p : Assertion → Bool) (rows : List Assertion) :
    slot k ext (updateWhere p archive rows) = (slot k ext rows).filter (fun r => !p r) := by
  rw [slot, slot, updateWhere]
  induction rows with
  | nil => rfl
  | cons r rows ih =>
    rw [List.map_cons, List.filter_cons, List.filter_cons, ih]
    by_cases hp : p r = true
    · have hnot : inSlot k ext (archive r) = false := by
        simp [inSlot, archive, Assertion.active]
      rw [if_pos hp, hnot, if_neg Bool.false_ne_true]
      split
      · rw [List.filter_cons, hp]
        rfl
      · rfl
    · rw [if_neg hp]
      split
      · rw [List.filter_cons, Bool.eq_false_iff.mpr hp]
        rfl
      · rfl

theorem slot_append (r : Assertion) (rows : List Assertion) :
    slot k ext (rows ++ [r]) = slot k ext rows ++ if inSlot k ext r = true then [r] else [] := by
  rw [slot, List.filter_append, List.filter_cons]
  rfl

/-- What holds of the rows whoever wrote last, all ids being below `n`. -/
structure Well (floor : String) (n : Nat) (rows : List Assertion) : Prop where
  one : ∀ k ext, (slot k ext rows).length ≤ 1
  checked : ∀ r ∈ rows, checkOk r = true
  fresh : ∀ r ∈ rows, r.id < n
  floored : ∀ r ∈ rows, r.extension = floor → r.assertedBy ≠ .matcher

/-- What a statement on one artifact leaves alone. -/
structure Within (floor : String) (k : ArtifactKey) (n n' : Nat) (rows rows' : List Assertion) :
    Prop where
  others : ∀ k' ext, k' ≠ k → slot k' ext rows' = slot k' ext rows
  origin : ∀ r ∈ rows', r.artifact = k ∨ ∃ r₀ ∈ rows, r₀.artifact = r.artifact
  well : Well floor n rows → Well floor n' rows'

theorem Within.trans {n'' : Nat} {rows'' : List Assertion} (h : Within floor k n n' rows rows')
    (h' : Within floor k n' n'' rows' rows'') : Within floor k n n'' rows rows'' := by
  refine ⟨fun k' ext hk => (h'.others k' ext hk).trans (h.others k' ext hk), ?_,
    fun hw => h'.well (h.well hw)⟩
  intro r hr
  rcases h'.origin r hr with heq | ⟨r₁, hr₁, heq⟩
  · exact .inl heq
  · rw [← heq]
    exact h.origin r₁ hr₁

theorem Within.refl (hn : n ≤ n') : Within floor k n n' rows rows :=
  ⟨fun _ _ _ => rfl, fun r hr => .inr ⟨r, hr, rfl⟩,
    fun hw => ⟨hw.one, hw.checked, fun r hr => Nat.lt_of_lt_of_le (hw.fresh r hr) hn, hw.floored⟩⟩

theorem within_archive (hp : ∀ r, p r = true → r.artifact = k) :
    Within floor k n n rows (updateWhere p archive rows) := by
  have hfrom : ∀ r ∈ updateWhere p archive rows, ∃ r₀ ∈ rows, r = r₀ ∨ r = archive r₀ := by
    intro r hr
    obtain ⟨r₀, hr₀, heq⟩ := mem_updateWhere.mp hr
    refine ⟨r₀, hr₀, ?_⟩
    by_cases h : p r₀ = true
    · rw [if_pos h] at heq
      exact .inr heq
    · rw [if_neg h] at heq
      exact .inl heq
  refine ⟨?_, ?_, ?_⟩
  · intro k' ext hk
    rw [slot_archive, List.filter_eq_self]
    intro r hr
    have hart := (inSlot_iff.mp (List.mem_filter.mp hr).2).1
    rw [Bool.not_eq_true', Bool.eq_false_iff]
    exact fun h => hk (hart.symm.trans (hp r h))
  · intro r hr
    obtain ⟨r₀, hr₀, rfl | rfl⟩ := hfrom r hr
    · exact .inr ⟨r, hr₀, rfl⟩
    · exact .inr ⟨r₀, hr₀, rfl⟩
  · intro hw
    refine ⟨?_, ?_, ?_, ?_⟩
    · intro k' ext
      rw [slot_archive]
      exact Nat.le_trans (List.length_filter_le _ _) (hw.one k' ext)
    · intro r hr
      obtain ⟨r₀, hr₀, rfl | rfl⟩ := hfrom r hr
      · exact hw.checked r hr₀
      · exact checkOk_archive r₀
    · intro r hr
      obtain ⟨r₀, hr₀, rfl | rfl⟩ := hfrom r hr
      · exact hw.fresh r hr₀
      · exact hw.fresh r₀ hr₀
    · intro r hr
      obtain ⟨r₀, hr₀, rfl | rfl⟩ := hfrom r hr
      · exact hw.floored r hr₀
      · exact hw.floored r₀ hr₀

theorem within_append (hk : r.artifact = k) (hid : r.id = n) (hcheck : checkOk r = true)
    (hfloor : r.extension = floor → r.assertedBy ≠ .matcher)
    (hslot : slot k r.extension rows = []) : Within floor k n (n + 1) rows (rows ++ [r]) := by
  refine ⟨?_, ?_, ?_⟩
  · intro k' ext hne
    have hnot : ¬ inSlot k' ext r = true := fun h => hne ((inSlot_iff.mp h).1.symm.trans hk)
    rw [slot_append, if_neg hnot, List.append_nil]
  · intro r' hr'
    rcases List.mem_append.mp hr' with h | h
    · exact .inr ⟨r', h, rfl⟩
    · rw [List.mem_singleton.mp h]
      exact .inl hk
  · intro hw
    refine ⟨?_, ?_, ?_, ?_⟩
    · intro k' ext
      rw [slot_append]
      by_cases h : inSlot k' ext r = true
      · obtain ⟨hk', hext, _⟩ := inSlot_iff.mp h
        rw [if_pos h, ← hk', ← hext, hk, hslot]
        exact Nat.le_refl 1
      · rw [if_neg h, List.append_nil]
        exact hw.one k' ext
    all_goals
      intro r' hr'
      rcases List.mem_append.mp hr' with h | h
    · exact hw.checked r' h
    · rw [List.mem_singleton.mp h]
      exact hcheck
    · exact Nat.lt_succ_of_lt (hw.fresh r' h)
    · rw [List.mem_singleton.mp h, hid]
      exact Nat.lt_succ_self n
    · exact hw.floored r' h
    · rw [List.mem_singleton.mp h]
      exact hfloor

/-! ## Offering an assertion -/

/-- An active assertion of the extension outranks the source. -/
def blockedBy (k : ArtifactKey) (ext : String) (s : AssertionSource) (rows : List Assertion) : Bool :=
  slotHas k ext (fun held => sourceRank s < sourceRank held) rows

variable {q : AssertionSource → Bool}

theorem slotHas_iff :
    slotHas k ext q rows = true ↔ ∃ r ∈ slot k ext rows, q r.assertedBy = true := by
  rw [slotHas, List.any_eq_true]
  constructor
  · rintro ⟨r, hr, h⟩
    rw [Bool.and_eq_true] at h
    exact ⟨r, List.mem_filter.mpr ⟨hr, h.1⟩, h.2⟩
  · rintro ⟨r, hr, h⟩
    obtain ⟨hr, hin⟩ := List.mem_filter.mp hr
    exact ⟨r, hr, by rw [hin, h]; rfl⟩

theorem not_blockedBy (h : blockedBy k ext s rows = false) :
    ∀ r ∈ slot k ext rows, sourceRank r.assertedBy ≤ sourceRank s := by
  intro r hr
  by_contra hlt
  have hblocked : blockedBy k ext s rows = true :=
    slotHas_iff.mpr ⟨r, hr, decide_eq_true (Nat.lt_of_not_le hlt)⟩
  rw [h] at hblocked
  cases hblocked

/-- The row an assertion inserts. -/
def newRow (id : Nat) (k : ArtifactKey) (ext : String) (s : AssertionSource) : Assertion :=
  ⟨id, k, ext, s, initialEligibility s⟩

theorem newRow_inSlot (id : Nat) : inSlot k ext (newRow id k ext s) = true := by
  cases s with
  | user | authoringSkill | agent | matcher => simp [inSlot, newRow, initialEligibility, Assertion.active]

theorem newRow_checked (id : Nat) : checkOk (newRow id k ext s) = true := by
  cases s with
  | user | authoringSkill | agent | matcher => rfl

/-- **Superseding** clears the slot, unless a higher assertion blocks it. -/
theorem supersede_spec : ∃ rows', supersede k ext (sourceRank s) rows = .ok rows' ∧
    Within floor k n n rows rows' ∧ (∀ ext', slot k ext' rows' =
      if ext' = ext ∧ blockedBy k ext s rows = false then [] else slot k ext' rows) := by
  refine ⟨_, archiveWhere_eq _ _, within_archive ?_, ?_⟩
  · intro r hr
    simp only [Bool.and_eq_true] at hr
    exact (inSlot_iff.mp hr.1.1).1
  · intro ext'
    rw [slot_archive]
    by_cases h : ext' = ext ∧ blockedBy k ext s rows = false
    · rw [if_pos h, List.filter_eq_nil_iff]
      obtain ⟨rfl, hblocked⟩ := h
      intro r hr hkept
      have hle := not_blockedBy hblocked r hr
      rw [blockedBy] at hblocked
      simp [(List.mem_filter.mp hr).2, hle, hblocked] at hkept
    · rw [if_neg h, List.filter_eq_self]
      intro r hr
      rw [Bool.not_eq_true', Bool.eq_false_iff]
      intro hp
      simp only [Bool.and_eq_true, Bool.not_eq_true'] at hp
      have hext := (inSlot_iff.mp (List.mem_filter.mp hr).2).2.1
      exact h ⟨hext.symm.trans (inSlot_iff.mp hp.1.1).2.1, hp.2⟩

theorem insertUnless_blocked (h : slotHas r.artifact r.extension q rows = true) :
    insertUnless q r rows = .ok (rows, false) := if_pos h

theorem insertAssertion_free (hcheck : checkOk r = true)
    (hslot : slot r.artifact r.extension rows = []) : insertAssertion r rows = .ok (rows ++ [r]) := by
  have hfree : rows.any (inSlot r.artifact r.extension) = false := by
    rw [List.any_eq_false]
    exact List.filter_eq_nil_iff.mp hslot
  rw [insertAssertion, hcheck, hfree, Bool.and_false]
  rfl

theorem insertUnless_free (hcheck : checkOk r = true)
    (hslot : slot r.artifact r.extension rows = []) :
    insertUnless q r rows = .ok (rows ++ [r], true) := by
  have hhas : ¬ slotHas r.artifact r.extension q rows = true := by
    intro h
    obtain ⟨r', hr', _⟩ := slotHas_iff.mp h
    rw [hslot] at hr'
    cases hr'
  rw [insertUnless, if_neg hhas, insertAssertion_free hcheck hslot]
  rfl

/-- **The assertion is offered**: it takes its extension unless it is outranked there. -/
theorem assertionOps_spec (hext : ext ≠ floor) : ∃ rows',
    assertionOps floor k ext s n rows = .ok (rows', !blockedBy k ext s rows) ∧
      Within floor k n (n + 1) rows rows' ∧ ∀ ext', slot k ext' rows' =
        if ext' = ext ∧ blockedBy k ext s rows = false then [newRow n k ext s]
        else slot k ext' rows := by
  obtain ⟨m, hm, hwithin, hslots⟩ := supersede_spec
  have hrun : assertionOps floor k ext s n rows =
      insertUnless (fun held => (if s = .matcher then 0 else sourceRank s + 1) ≤ sourceRank held)
        (newRow n k ext s) m := by
    rw [assertionOps, if_neg hext]
    dsimp only
    rw [hm]
    rfl
  have hown := hslots ext
  rw [hrun]
  cases hblocked : blockedBy k ext s rows with
  | true =>
    rw [hblocked, if_neg (fun h => Bool.noConfusion h.2)] at hown
    have hhas : slotHas k ext
        (fun held => (if s = .matcher then 0 else sourceRank s + 1) ≤ sourceRank held) m = true := by
      obtain ⟨r, hr, hlt⟩ := slotHas_iff.mp hblocked
      refine slotHas_iff.mpr ⟨r, hown ▸ hr, decide_eq_true ?_⟩
      have hlt' := of_decide_eq_true hlt
      split
      · exact Nat.zero_le _
      · exact hlt'
    refine ⟨m, insertUnless_blocked hhas, hwithin.trans (Within.refl (Nat.le_succ n)), ?_⟩
    intro ext'
    rw [hslots ext', hblocked, if_neg (fun h => Bool.noConfusion h.2),
      if_neg (fun h => Bool.noConfusion h.2)]
  | false =>
    rw [hblocked, if_pos ⟨rfl, rfl⟩] at hown
    refine ⟨_, insertUnless_free (newRow_checked n) hown, hwithin.trans ?_, ?_⟩
    · exact within_append rfl rfl (newRow_checked n) (fun h => absurd h hext) hown
    · intro ext'
      rw [slot_append, hslots ext', hblocked]
      by_cases h : ext' = ext
      · have hin : inSlot k ext' (newRow n k ext s) = true := by
          rw [h]
          exact newRow_inSlot n
        rw [if_pos hin, if_pos ⟨h, rfl⟩, if_pos ⟨h, rfl⟩]
        rfl
      · have hnot : ¬ inSlot k ext' (newRow n k ext s) = true :=
          fun hin => h ((inSlot_iff.mp hin).2.1).symm
        rw [if_neg hnot, if_neg (fun hc => h hc.1), if_neg (fun hc => h hc.1), List.append_nil]

theorem confirmOps_eq (hs : s ≠ .matcher) :
    confirmOps floor k ext s n rows = assertionOps floor k ext s n rows := by
  have hinit : initialEligibility s = .eligible := by
    cases s with
    | user | authoringSkill | agent => rfl
    | matcher => exact absurd rfl hs
  rw [confirmOps, assertionOps]
  simp only [if_neg hs, hinit]
  rfl

/-- The artifact has an eligible type besides the floor. -/
def hasOther (floor : String) (k : ArtifactKey) (rows : List Assertion) : Bool :=
  rows.any (eligibleOther floor k)

theorem eligibleOther_iff : eligibleOther floor k r = true ↔
    r.artifact = k ∧ r.eligibility = .eligible ∧ r.extension ≠ floor := by
  simp only [eligibleOther, Bool.and_eq_true, decide_eq_true_eq, and_assoc]

/-- **The floor is restored.** -/
theorem floorRebalance_spec (hs : s ≠ .matcher) : ∃ rows',
    floorRebalance floor k n s rows = .ok rows' ∧ Within floor k n (n + 1) rows rows' ∧
      (∀ ext', ext' ≠ floor → slot k ext' rows' = slot k ext' rows) ∧ slot k floor rows' =
        if hasOther floor k rows = true then []
        else if slot k floor rows = [] then [newRow n k floor s] else slot k floor rows := by
  have hinit : (⟨n, k, floor, s, .eligible⟩ : Assertion) = newRow n k floor s := by
    cases s with
    | user | authoringSkill | agent => rfl
    | matcher => exact absurd rfl hs
  have hempty : rows.any (inSlot k floor) = false ↔ slot k floor rows = [] := by
    rw [List.any_eq_false, slot, List.filter_eq_nil_iff]
  by_cases hcond : hasOther floor k rows = true ∨ slot k floor rows ≠ []
  · -- nothing is inserted
    have hskip : (rows.any (eligibleOther floor k) || rows.any (inSlot k floor)) = true := by
      rw [Bool.or_eq_true]
      rcases hcond with h | h
      · exact .inl h
      · right
        rw [← Bool.not_eq_false]
        exact fun hf => h (hempty.mp hf)
    have hrun : floorRebalance floor k n s rows =
        archiveWhere (fun r => inSlot k floor r && hasOther floor k rows) rows := by
      rw [floorRebalance, if_pos hskip]
      rfl
    rw [hrun, archiveWhere_eq]
    refine ⟨_, rfl, (within_archive ?_).trans (Within.refl (Nat.le_succ n)), ?_, ?_⟩
    · intro r hr
      rw [Bool.and_eq_true] at hr
      exact (inSlot_iff.mp hr.1).1
    · intro ext' hne
      rw [slot_archive, List.filter_eq_self]
      intro r hr
      have hext := (inSlot_iff.mp (List.mem_filter.mp hr).2).2.1
      rw [Bool.not_eq_true', Bool.eq_false_iff]
      intro hp
      rw [Bool.and_eq_true] at hp
      exact hne (hext.symm.trans (inSlot_iff.mp hp.1).2.1)
    · rw [slot_archive]
      cases hother : hasOther floor k rows with
      | true =>
        rw [if_pos rfl, List.filter_eq_nil_iff]
        intro r hr
        simp [(List.mem_filter.mp hr).2]
      | false =>
        have hheld := hcond.resolve_left (by rw [hother]; exact Bool.false_ne_true)
        rw [if_neg Bool.false_ne_true, if_neg hheld, List.filter_eq_self]
        intro r hr
        simp
  · rw [not_or, not_not, Bool.not_eq_true] at hcond
    obtain ⟨hother, hslot⟩ := hcond
    have hins : insertAssertion (newRow n k floor s) rows = .ok (rows ++ [newRow n k floor s]) :=
      insertAssertion_free (newRow_checked n) hslot
    have hother' : (rows ++ [newRow n k floor s]).any (eligibleOther floor k) = false := by
      rw [List.any_append, List.any_cons, List.any_nil, Bool.or_false]
      rw [hasOther] at hother
      rw [hother, Bool.false_or, Bool.eq_false_iff]
      exact fun h => (eligibleOther_iff.mp h).2.2 rfl
    have hself : updateWhere (fun r => inSlot k floor r && false) archive
        (rows ++ [newRow n k floor s]) = rows ++ [newRow n k floor s] :=
      updateWhere_eq_self (fun r _ => Bool.and_false _)
    have hrun : floorRebalance floor k n s rows = .ok (rows ++ [newRow n k floor s]) := by
      rw [floorRebalance]
      have hcond : ¬ (rows.any (eligibleOther floor k) || rows.any (inSlot k floor)) = true := by
        rw [hempty.mpr hslot, Bool.or_false]
        rw [hasOther] at hother
        rw [hother]
        exact Bool.false_ne_true
      rw [if_neg hcond, hinit, hins]
      show archiveWhere (fun r => inSlot k floor r &&
        (rows ++ [newRow n k floor s]).any (eligibleOther floor k)) _ = _
      rw [hother', archiveWhere_eq, hself]
    refine ⟨_, hrun, within_append rfl rfl (newRow_checked n) (fun _ => hs) hslot, ?_, ?_⟩
    · intro ext' hne
      have hnot : ¬ inSlot k ext' (newRow n k floor s) = true :=
        fun hin => hne ((inSlot_iff.mp hin).2.1).symm
      rw [slot_append, if_neg hnot, List.append_nil]
    · rw [slot_append, hslot, if_pos (newRow_inSlot n), hother, if_neg Bool.false_ne_true, if_pos rfl]
      rfl

/-! ## The claims to an artifact's extensions -/

/-- Who holds each extension of the artifact. -/
def holding (k : ArtifactKey) (rows : List Assertion) : Holding String AssertionSource :=
  fun ext => (slot k ext rows).head?.map Assertion.assertedBy

/-- Whoever is not the matcher makes an eligible assertion. -/
def Stands (s : AssertionSource) : Prop := s ≠ .matcher

theorem holding_eq_some (hw : Well floor n rows) :
    holding k rows ext = some s ↔ ∃ r ∈ slot k ext rows, r.assertedBy = s := by
  have hone := hw.one k ext
  rw [holding]
  cases hslot : slot k ext rows with
  | nil =>
    constructor
    · intro h
      cases h
    · rintro ⟨r, hr, _⟩
      cases hr
  | cons r rest =>
    rw [hslot, List.length_cons] at hone
    have hrest : rest = [] := List.eq_nil_of_length_eq_zero (by omega)
    rw [hrest, List.head?_cons, Option.map_some]
    constructor
    · intro h
      exact ⟨r, List.mem_singleton.mpr rfl, Option.some.inj h⟩
    · rintro ⟨r', hr', rfl⟩
      rw [List.mem_singleton.mp hr']

theorem outranked_iff (hw : Well floor n rows) :
    Outranked sourceRank (holding k rows) ext s ↔ blockedBy k ext s rows = true := by
  rw [blockedBy, slotHas_iff]
  constructor
  · rintro ⟨held, hheld, hlt⟩
    obtain ⟨r, hr, rfl⟩ := (holding_eq_some hw).mp hheld
    exact ⟨r, hr, decide_eq_true hlt⟩
  · rintro ⟨r, hr, hlt⟩
    exact ⟨r.assertedBy, (holding_eq_some hw).mpr ⟨r, hr, rfl⟩, of_decide_eq_true hlt⟩

theorem eligible_iff (hcheck : checkOk r = true) (hactive : r.active = true) :
    r.eligibility = .eligible ↔ Stands r.assertedBy := by
  rw [Stands]
  simp only [checkOk, Bool.and_eq_true, Bool.or_eq_true, decide_eq_true_eq] at hcheck
  rw [Assertion.active, decide_eq_true_eq] at hactive
  cases he : r.eligibility with
  | eligible =>
    refine ⟨fun _ hm => ?_, fun _ => rfl⟩
    rcases hcheck.1 with (h | h) | h
    · exact h hm
    · rw [he] at h
      cases h
    · rw [he] at h
      cases h
  | draft =>
    constructor
    · intro h
      cases h
    · intro h
      rcases hcheck.2 with hm | hd
      · exact absurd hm h
      · exact absurd he hd
  | archived => exact absurd he hactive

theorem standing_iff (hw : Well floor n rows) :
    Standing Stands floor (holding k rows) ↔ hasOther floor k rows = true := by
  rw [hasOther, List.any_eq_true]
  constructor
  · rintro ⟨ext, hext, s, hs, hst⟩
    obtain ⟨r, hr, rfl⟩ := (holding_eq_some hw).mp hs
    obtain ⟨hr, hin⟩ := List.mem_filter.mp hr
    obtain ⟨hk, he, hactive⟩ := inSlot_iff.mp hin
    refine ⟨r, hr, eligibleOther_iff.mpr ⟨hk, ?_, he ▸ hext⟩⟩
    exact (eligible_iff (hw.checked r hr) hactive).mpr hst
  · rintro ⟨r, hr, h⟩
    obtain ⟨hk, he, hext⟩ := eligibleOther_iff.mp h
    have hactive : r.active = true := by
      rw [Assertion.active, he]
      rfl
    have hin : r ∈ slot k r.extension rows :=
      List.mem_filter.mpr ⟨hr, inSlot_iff.mpr ⟨hk, rfl, hactive⟩⟩
    exact ⟨r.extension, hext, r.assertedBy, (holding_eq_some hw).mpr ⟨r, hin, rfl⟩,
      (eligible_iff (hw.checked r hr) hactive).mp he⟩

variable {id : Nat}

theorem holding_offer (hw : Well floor n rows) (hslots : ∀ ext', slot k ext' rows' =
      if ext' = ext ∧ blockedBy k ext s rows = false then [newRow id k ext s]
      else slot k ext' rows) : holding k rows' = offer sourceRank ext s (holding k rows) := by
  funext ext'
  rw [holding, hslots ext']
  by_cases hout : Outranked sourceRank (holding k rows) ext s
  · rw [offer_of_outranked hout, (outranked_iff hw).mp hout, if_neg (fun h => Bool.noConfusion h.2)]
    rfl
  have hfree : blockedBy k ext s rows = false := by
    rw [← Bool.not_eq_true, ← outranked_iff hw]
    exact hout
  rw [offer_of_not_outranked hout, hfree]
  by_cases h : ext' = ext
  · rw [if_pos ⟨h, rfl⟩, h, Function.update_self]
    rfl
  · rw [if_neg (fun hc => h hc.1), Function.update_of_ne h]
    rfl

theorem holding_refloor (hw : Well floor n rows)
    (hothers : ∀ ext', ext' ≠ floor → slot k ext' rows' = slot k ext' rows)
    (hfloor : slot k floor rows' = if hasOther floor k rows = true then []
      else if slot k floor rows = [] then [newRow id k floor s] else slot k floor rows) :
    holding k rows' = refloor Stands floor s (holding k rows) := by
  funext ext'
  by_cases h : ext' = floor
  swap
  · rw [refloor_other h, holding, hothers ext' h]
    rfl
  rw [h, holding, hfloor]
  by_cases hst : Standing Stands floor (holding k rows)
  · rw [refloor_of_standing hst, if_pos ((standing_iff hw).mp hst), Function.update_self]
    rfl
  rw [if_neg (fun hc => hst ((standing_iff hw).mpr hc))]
  by_cases hnil : slot k floor rows = []
  · have hnone : holding k rows floor = none := by
      rw [holding, hnil]
      rfl
    rw [refloor_of_none hst hnone, if_pos hnil, Function.update_self]
    rfl
  · have hheld : holding k rows floor ≠ none := by
      intro hc
      rw [holding, Option.map_eq_none_iff, List.head?_eq_none_iff] at hc
      exact hnil hc
    rw [refloor_of_held hst hheld, if_neg hnil]
    rfl

end ArtifactOffers
