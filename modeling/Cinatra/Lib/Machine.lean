import Mathlib.Logic.Relation

/-! # Machine — runs of a deterministic step function

    A machine is a step function over inputs; what a run may feed it is a
    predicate on the state and the input.  `Leads` is a run from a state,
    `Reaches` a run from an initial one.  An invariant is proved once for the
    initial states and once for a step (`Reaches.invariant`), a property of all
    later states once for a step (`Leads.preserves`). -/

namespace Machine

variable {σ ι : Type} {init : σ → Prop} {step : σ → ι → σ} {ok ok' : σ → ι → Prop}

/-- A run from one state to another, every input of which is admitted. -/
inductive Leads (step : σ → ι → σ) (ok : σ → ι → Prop) (s : σ) : σ → Prop where
  | refl : Leads step ok s s
  | next {s' : σ} {i : ι} : Leads step ok s s' → ok s' i → Leads step ok s (step s' i)

/-- A run from an initial state. -/
def Reaches (init : σ → Prop) (step : σ → ι → σ) (ok : σ → ι → Prop) (s : σ) : Prop :=
  ∃ s₀, init s₀ ∧ Leads step ok s₀ s

variable {s : σ}

theorem Leads.trans {s' s'' : σ} (h : Leads step ok s s') (h' : Leads step ok s' s'') :
    Leads step ok s s'' := by
  induction h' with
  | refl => exact h
  | next _ hok ih => exact Leads.next ih hok

variable {I : σ → Prop}

theorem Leads.preserves (hstep : ∀ s i, I s → ok s i → I (step s i))
    {s' : σ} (h : Leads step ok s s') (hs : I s) : I s' := by
  induction h with
  | refl => exact hs
  | next _ hok ih => exact hstep _ _ ih hok

theorem Reaches.next {i : ι} (h : Reaches init step ok s) (hok : ok s i) :
    Reaches init step ok (step s i) := by
  obtain ⟨s₀, h₀, hl⟩ := h
  exact ⟨s₀, h₀, hl.next hok⟩

/-- **The invariant rule**: initially true and kept by every admitted step. -/
theorem Reaches.invariant (hinit : ∀ s, init s → I s)
    (hstep : ∀ s i, I s → ok s i → I (step s i)) (h : Reaches init step ok s) : I s := by
  obtain ⟨s₀, h₀, hl⟩ := h
  exact hl.preserves hstep (hinit s₀ h₀)

/-- Every input of a list is admitted where its turn comes. -/
def Admits (step : σ → ι → σ) (ok : σ → ι → Prop) : σ → List ι → Prop
  | _, [] => True
  | s, i :: is => ok s i ∧ Admits step ok (step s i) is

variable {is : List ι}

theorem Admits.leads (h : Admits step ok s is) : Leads step ok s (is.foldl step s) := by
  induction is generalizing s with
  | nil => exact Leads.refl
  | cons i is ih => exact (Leads.refl.next h.1).trans (ih h.2)

theorem leads_foldl (s : σ) (is : List ι) : Leads step (fun _ _ => True) s (is.foldl step s) := by
  induction is generalizing s with
  | nil => exact Leads.refl
  | cons i is ih => exact (Leads.refl.next trivial).trans (ih (step s i))

/-- Every input of a list passes a test where its turn comes. -/
def passes (step : σ → ι → σ) (test : σ → ι → Bool) : σ → List ι → Bool
  | _, [] => true
  | s, i :: is => test s i && passes step test (step s i) is

theorem admits_of_passes {test : σ → ι → Bool} (htest : ∀ s i, test s i = true → ok s i)
    (h : passes step test s is = true) : Admits step ok s is := by
  induction is generalizing s with
  | nil => trivial
  | cons i is ih =>
    rw [passes, Bool.and_eq_true] at h
    exact ⟨htest s i h.1, ih h.2⟩

theorem Admits.congr (hstep : ∀ s i, I s → I (step s i))
    (hok : ∀ s i, I s → (ok s i ↔ ok' s i)) (hs : I s) :
    Admits step ok s is ↔ Admits step ok' s is := by
  induction is generalizing s with
  | nil => exact Iff.rfl
  | cons i is ih => exact and_congr (hok s i hs) (ih (hstep s i hs))

theorem gen_preserves {R : σ → σ → Prop} (h : ∀ a b, R a b → I a → I b)
    {a b : σ} (hab : Relation.ReflTransGen R a b) (ha : I a) : I b := by
  induction hab with
  | refl => exact ha
  | tail _ hbc ih => exact h _ _ hbc ih

end Machine
