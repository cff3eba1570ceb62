import Mathlib.Data.Option.Basic

/-! # Resolution — edges that are resolved by name

    Rows have edges, an edge names its target, and a lookup says which row a name
    stands for.  `Walk` follows edges from row to row, `Intact` asks that every
    edge on the way is satisfied by what its name resolves to.  The rule of the
    library is `Intact.reroute`: when a lookup changes at one name, a closure stays
    intact if the edges on that name, and the row it now stands for, do. -/

namespace Resolution

variable {ρ ε κ : Type} {deps : ρ → List ε} {target : ε → κ}

/-- The rows a walk from `r` comes to; edges on avoided names are not taken. -/
inductive Walk (deps : ρ → List ε) (target : ε → κ) (lookup : κ → Option ρ) (avoid : κ → Prop)
    (r : ρ) : ρ → Prop
  | refl : Walk deps target lookup avoid r r
  | step {x y : ρ} {e : ε} : Walk deps target lookup avoid r x → e ∈ deps x →
      ¬ avoid (target e) → lookup (target e) = some y → Walk deps target lookup avoid r y

/-- Every edge on the way is satisfied. -/
def Intact (deps : ρ → List ε) (target : ε → κ) (ok : ε → Option ρ → Prop)
    (lookup : κ → Option ρ) (avoid : κ → Prop) (r : ρ) : Prop :=
  ∀ x, Walk deps target lookup avoid r x → ∀ e ∈ deps x, ok e (lookup (target e))

variable {ok : ε → Option ρ → Prop} {lookup lookup₁ : κ → Option ρ} {avoid avoid₁ : κ → Prop}
  {r x y : ρ}

theorem Walk.mono (h : Walk deps target lookup avoid r x) (hav : ∀ q, avoid₁ q → avoid q) :
    Walk deps target lookup avoid₁ r x := by
  induction h with
  | refl => exact .refl
  | step _ he hn hy ih => exact .step ih he (fun hc => hn (hav _ hc)) hy

theorem Walk.congr (h : Walk deps target lookup avoid r x)
    (hl : ∀ q, ¬ avoid q → lookup₁ q = lookup q) : Walk deps target lookup₁ avoid r x := by
  induction h with
  | refl => exact .refl
  | step _ he hn hy ih => exact .step ih he hn ((hl _ hn).trans hy)

theorem Walk.of_deps_eq {r' : ρ} (hd : deps r' = deps r) (h : Walk deps target lookup avoid r' x) :
    x = r' ∨ Walk deps target lookup avoid r x := by
  induction h with
  | refl => exact .inl rfl
  | step _ he hn hy ih =>
    rcases ih with rfl | hw
    · exact .inr (.step .refl (hd ▸ he) hn hy)
    · exact .inr (.step hw he hn hy)

theorem Intact.of_deps_eq {r' : ρ} (hd : deps r' = deps r)
    (h : Intact deps target ok lookup avoid r) : Intact deps target ok lookup avoid r' := by
  intro x hx e he
  rcases hx.of_deps_eq hd with rfl | hw
  · exact h r .refl e (hd ▸ he)
  · exact h x hw e he

theorem Walk.trans (h : Walk deps target lookup avoid r x)
    (h' : Walk deps target lookup avoid x y) : Walk deps target lookup avoid r y := by
  induction h' with
  | refl => exact h
  | step _ he hn hy ih => exact .step ih he hn hy

variable {p : κ}

/-- A walk that may come through a changed name stays off it, or has come to what
    the name now stands for. -/
theorem Walk.split (hl : ∀ q, q ≠ p → lookup₁ q = lookup q)
    (h : Walk deps target lookup₁ avoid r x) :
    Walk deps target lookup (fun q => avoid q ∨ q = p) r x ∨ ∃ n, lookup₁ p = some n ∧
        (∃ y e, Walk deps target lookup (fun q => avoid q ∨ q = p) r y ∧ e ∈ deps y ∧
          target e = p) ∧ Walk deps target lookup₁ (fun q => q = p) n x := by
  induction h with
  | refl => exact .inl .refl
  | @step x y e _ he hn hy ih =>
    by_cases hp : target e = p
    · rw [hp] at hy
      rcases ih with hoff | ⟨n, hlook, hfrom, -⟩
      · exact .inr ⟨y, hy, ⟨x, e, hoff, he, hp⟩, .refl⟩
      · obtain rfl := Option.some.inj (hlook.symm.trans hy)
        exact .inr ⟨n, hlook, hfrom, .refl⟩
    · rcases ih with hoff | ⟨n, hlook, hfrom, hw⟩
      · refine .inl (.step hoff he ?_ ((hl _ hp).symm.trans hy))
        rintro (hc | hc)
        · exact hn hc
        · exact hp hc
      · exact .inr ⟨n, hlook, hfrom, .step hw he hp hy⟩

/-- **One name changes**: a closure stays intact if the edges on the name are
    satisfied by what it now stands for, and that row's own closure is intact. -/
theorem Intact.reroute (hl : ∀ q, q ≠ p → lookup₁ q = lookup q)
    (h : ∀ x, Walk deps target lookup (fun q => avoid q ∨ q = p) r x → ∀ e ∈ deps x,
      target e ≠ p → ok e (lookup (target e)))
    (hedges : ∀ x, Walk deps target lookup (fun q => avoid q ∨ q = p) r x → ∀ e ∈ deps x,
      target e = p → ok e (lookup₁ p)) (hrow : ∀ n, lookup₁ p = some n → (∃ y e,
      Walk deps target lookup (fun q => avoid q ∨ q = p) r y ∧ e ∈ deps y ∧ target e = p) →
      ¬ avoid p → Intact deps target ok lookup₁ (fun q => q = p) n) :
    Intact deps target ok lookup₁ avoid r := by
  intro x hx e he
  have hoff : ∀ x, Walk deps target lookup (fun q => avoid q ∨ q = p) r x → ∀ e ∈ deps x,
      ok e (lookup₁ (target e)) := by
    intro x hx e he
    by_cases hp : target e = p
    · rw [hp]
      exact hedges x hx e he hp
    · rw [hl _ hp]
      exact h x hx e he hp
  by_cases hav : avoid p
  · have hsame : Walk deps target lookup avoid r x :=
      hx.congr (fun q hq => (hl q (fun hc => hq (hc ▸ hav))).symm)
    have hx' : Walk deps target lookup (fun q => avoid q ∨ q = p) r x := by
      refine hsame.mono ?_
      rintro q (hq | rfl)
      · exact hq
      · exact hav
    exact hoff x hx' e he
  · rcases hx.split hl with hx | ⟨n, hlook, hfrom, hw⟩
    · exact hoff x hx e he
    · exact hrow n hlook hfrom hav x hw e he

end Resolution
