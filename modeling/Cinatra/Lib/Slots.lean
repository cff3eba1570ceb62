import Mathlib.Logic.Function.Basic

/-! # Slots — ranked claims to names, over a floor

    Each name holds one claim at most.  A claim that is offered takes its name unless
    a claim of a higher rank holds it (`offer`); one name, the floor, is held exactly
    while no claim that stands holds another (`refloor_floor`). -/

namespace Slots

variable {κ σ : Type} [DecidableEq κ]

/-- Who holds each name. -/
abbrev Holding (κ σ : Type) : Type := κ → Option σ

/-- A claim of a higher rank holds the name. -/
def Outranked (rank : σ → Nat) (t : Holding κ σ) (k : κ) (s : σ) : Prop :=
  ∃ held, t k = some held ∧ rank s < rank held

open Classical in
/-- Offer a claim to a name. -/
noncomputable def offer (rank : σ → Nat) (k : κ) (s : σ) (t : Holding κ σ) : Holding κ σ :=
  if Outranked rank t k s then t else Function.update t k (some s)

/-- Take a name from whoever holds it. -/
def vacate (k : κ) (t : Holding κ σ) : Holding κ σ := Function.update t k none

/-- A claim that stands holds a name other than the floor. -/
def Standing (stands : σ → Prop) (floor : κ) (t : Holding κ σ) : Prop :=
  ∃ k, k ≠ floor ∧ ∃ s, t k = some s ∧ stands s

open Classical in
/-- Restore the floor: `s` holds it if nobody does and no claim stands. -/
noncomputable def refloor (stands : σ → Prop) (floor : κ) (s : σ) (t : Holding κ σ) : Holding κ σ :=
  if Standing stands floor t then Function.update t floor none
  else if t floor = none then Function.update t floor (some s) else t

variable {rank : σ → Nat} {stands : σ → Prop} {k floor : κ} {s : σ} {t : Holding κ σ}

theorem offer_of_outranked (h : Outranked rank t k s) : offer rank k s t = t := if_pos h

theorem offer_of_not_outranked (h : ¬ Outranked rank t k s) :
    offer rank k s t = Function.update t k (some s) := if_neg h

theorem refloor_of_standing (h : Standing stands floor t) :
    refloor stands floor s t = Function.update t floor none := if_pos h

theorem refloor_of_none (h : ¬ Standing stands floor t) (hnone : t floor = none) :
    refloor stands floor s t = Function.update t floor (some s) :=
  (if_neg h).trans (if_pos hnone)

theorem refloor_of_held (h : ¬ Standing stands floor t) (hheld : t floor ≠ none) :
    refloor stands floor s t = t :=
  (if_neg h).trans (if_neg hheld)

theorem refloor_other {k' : κ} (hk : k' ≠ floor) : refloor stands floor s t k' = t k' := by
  by_cases h : Standing stands floor t
  · rw [refloor_of_standing h, Function.update_of_ne hk]
  by_cases hnone : t floor = none
  · rw [refloor_of_none h hnone, Function.update_of_ne hk]
  · rw [refloor_of_held h hnone]

theorem refloor_standing : Standing stands floor (refloor stands floor s t) ↔
    Standing stands floor t := by
  constructor
  · rintro ⟨k, hk, s', hs, hst⟩
    rw [refloor_other hk] at hs
    exact ⟨k, hk, s', hs, hst⟩
  · rintro ⟨k, hk, s', hs, hst⟩
    exact ⟨k, hk, s', by rw [refloor_other hk]; exact hs, hst⟩

/-- **The floor is held exactly while nothing else stands.** -/
theorem refloor_floor : (∃ s', refloor stands floor s t floor = some s') ↔
    ¬ Standing stands floor (refloor stands floor s t) := by
  rw [refloor_standing]
  by_cases h : Standing stands floor t
  · rw [refloor_of_standing h, Function.update_self]
    constructor
    · rintro ⟨s', hs'⟩
      cases hs'
    · exact fun hn => absurd h hn
  refine ⟨fun _ => h, fun _ => ?_⟩
  by_cases hnone : t floor = none
  · rw [refloor_of_none h hnone, Function.update_self]
    exact ⟨s, rfl⟩
  · rw [refloor_of_held h hnone]
    exact Option.ne_none_iff_exists'.mp hnone

end Slots
