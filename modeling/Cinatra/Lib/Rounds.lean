import Mathlib.Algebra.Order.Group.Nat

/-! # Rounds — repeating a round until it changes nothing

    A loop `do { … } while (changed)` whose rounds shrink a measure stops before
    its fuel does, in a state the last round has left as it was
    (`untilStable_spec`). -/

namespace Rounds

variable {σ : Type}

/-- Rounds until one reports no change, at most `fuel` of them. -/
def untilStable (round : σ → σ) (changed : σ → Bool) : Nat → σ → σ
  | 0, s => s
  | fuel + 1, s =>
    if changed (round s) then untilStable round changed fuel (round s) else round s

variable {changed : σ → Bool} {round : σ → σ} {I : σ → Prop} {measure : σ → Nat} {fuel : Nat}
  {s : σ}

/-- **The loop rule**: with more fuel than the measure, the result is that of a round
    without change, started in a state the invariant holds of. -/
theorem untilStable_spec (hI : ∀ s, I s → I (round s))
    (hm : ∀ s, I s → changed (round s) = true → measure (round s) < measure s)
    (hs : I s) (hfuel : measure s < fuel) : ∃ last, I last ∧ changed (round last) = false ∧
      untilStable round changed fuel s = round last := by
  induction fuel generalizing s with
  | zero => exact absurd hfuel (Nat.not_lt_zero _)
  | succ fuel ih =>
    rw [untilStable]
    by_cases hc : changed (round s) = true
    · rw [if_pos hc]
      have hlt := hm s hs hc
      exact ih (hI s hs) (by omega)
    · rw [if_neg hc]
      exact ⟨s, hs, by simpa using hc, rfl⟩

theorem untilStable_enough (hI : ∀ s, I s → I (round s))
    (hm : ∀ s, I s → changed (round s) = true → measure (round s) < measure s)
    {fuel' : Nat} (hs : I s) (hfuel : measure s < fuel) (hle : fuel ≤ fuel') :
    untilStable round changed fuel' s = untilStable round changed fuel s := by
  induction fuel generalizing s fuel' with
  | zero => exact absurd hfuel (Nat.not_lt_zero _)
  | succ fuel ih =>
    obtain ⟨fuel', rfl⟩ : ∃ n, fuel' = n + 1 := ⟨fuel' - 1, by omega⟩
    rw [untilStable, untilStable]
    by_cases hc : changed (round s) = true
    · rw [if_pos hc, if_pos hc]
      have hlt := hm s hs hc
      exact ih (hI s hs) (by omega) (by omega)
    · rw [if_neg hc, if_neg hc]

theorem untilStable_keeps (hI : ∀ s, I s → I (round s)) (hs : I s) :
    I (untilStable round changed fuel s) := by
  induction fuel generalizing s with
  | zero => exact hs
  | succ fuel ih =>
    rw [untilStable]
    by_cases hc : changed (round s) = true
    · rw [if_pos hc]
      exact ih (hI s hs)
    · rw [if_neg hc]
      exact hI s hs

/-- A filter that lets less through leaves fewer. -/
theorem length_filter_lt {α : Type} {p q : α → Bool} {l : List α} {y : α}
    (hsub : ∀ a ∈ l, q a = true → p a = true) (hy : y ∈ l) (hp : p y = true) (hq : q y = false) :
    (l.filter q).length < (l.filter p).length := by
  have hfilter : l.filter q = (l.filter p).filter q := by
    rw [List.filter_filter]
    exact List.filter_congr fun a ha => by cases hqa : q a <;> simp [hsub a ha, hqa]
  rw [hfilter, List.length_filter_lt_length_iff_exists]
  exact ⟨y, List.mem_filter.mpr ⟨hy, hp⟩, by simp [hq]⟩

end Rounds
