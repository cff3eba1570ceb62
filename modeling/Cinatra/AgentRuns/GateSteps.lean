import Cinatra.Lib.Doubles
import Cinatra.Lib.Records

/-! # GateSteps — the step that a gate belongs to

    `resolveWayflowXRenderer` picks the step whose form a run's k-th gate shows;
    `buildSubmissionMapByStepIndex` hands the k-th recorded prompt to a step.  Both add
    up gate counts, over lists and with counts of their own, and they pick one step for
    every gate exactly as long as the two sums keep together (`gates_agree_iff`). -/

namespace AgentRuns

open Doubles JsonValue

/-- A step of the approval policy.  `none` is a property that is missing or, of the
    numbers, is something else; a number is a double. -/
structure PolicyStep where
  stepNumber : Option Int := none
  xRenderer : Option Json := none
  gateCount : Option Rat := none
deriving DecidableEq

/-- `typeof s.xRenderer === "string"`. -/
def PolicyStep.rendered (s : PolicyStep) : Bool := (s.xRenderer.bind Json.str?).isSome

/-- `Boolean(s.xRenderer)`. -/
def PolicyStep.gated (s : PolicyStep) : Bool := (s.xRenderer.map jsTruthy).getD false

/-- The gates that the form's walk counts. -/
def PolicyStep.gates (s : PolicyStep) : Rat := s.gateCount.getD 1

/-- How often the map's inner loop runs. -/
def PolicyStep.prompts (s : PolicyStep) : Nat :=
  match s.gateCount with
  | some count => if 0 < count then count.ceil.toNat else 1
  | none => 1

/-- A recorded prompt. -/
structure HitlPrompt where
  submittedValues : Json
  schemaSnapshot : Option Json := none
  stepKey : String

section Walks

variable {α σ : Type} (view : α → PolicyStep)

/-- The first item whose running sum passes. -/
def firstPast (passes : σ → Bool) (add : σ → α → σ) : σ → List α → Option α
  | _, [] => none
  | sum, x :: rest =>
    if passes (add sum x) then some x else firstPast passes add (add sum x) rest

/-- The loop of `resolveWayflowXRenderer`. -/
abbrev stepOfGate (idx : Nat) (accumulated : Rat) (steps : List α) : Option α :=
  firstPast (fun accumulated : Rat => decide ((idx : Rat) < accumulated))
    (fun accumulated s => fl (accumulated + (view s).gates)) accumulated steps

def selectStep (steps : List α) (idx : Nat) : Option α :=
  stepOfGate view idx 0 (steps.filter fun s => (view s).rendered)

/-- The prompts in turn, each with its step. -/
def hand : List α → List HitlPrompt → List (HitlPrompt × α)
  | [], _ => []
  | s :: rest, prompts =>
    (prompts.take (view s).prompts).map (fun p => (p, s)) ++
      hand rest (prompts.drop (view s).prompts)

/-- The loops of `buildSubmissionMapByStepIndex`. -/
def handed (steps : List α) (prompts : List HitlPrompt) : List (HitlPrompt × α) :=
  hand view (steps.filter fun s => (view s).gated) prompts

end Walks

structure StepperEntry where
  index : Nat
  stepNumber : Int

/-- `hitlSteps.find(...)`. -/
def stepperEntry (hitlSteps : List StepperEntry) (s : PolicyStep) : Option StepperEntry :=
  hitlSteps.find? fun h => some h.stepNumber = s.stepNumber

/-- The submissions with their places in the stepper, for a run that may be read. -/
def buildSubmissionMapByStepIndex (readable : Bool) (steps : List PolicyStep)
    (hitlSteps : List StepperEntry) (prompts : List HitlPrompt) : List (Nat × HitlPrompt) :=
  if readable then
    (handed id steps prompts).filterMap fun a =>
      (stepperEntry hitlSteps a.2).map fun entry => (entry.index, a.1)
  else []

/-! ## Where the walks keep together -/

/-- The prompts that are handed to a step. -/
def PolicyStep.takes (s : PolicyStep) : Nat := if s.gated then s.prompts else 0

/-- The sum of the form's walk behind a step. -/
def PolicyStep.sum (s : PolicyStep) (accumulated : Rat) : Rat :=
  if s.rendered then fl (accumulated + s.gates) else accumulated

/-- The map's sum stands at `used`.  A step that shows a form takes the sum of the form's
    walk, rounded up, to the map's next sum, or to no more than its last where it is handed
    no prompt; a step that shows none is handed none. -/
def InStep (accumulated : Rat) (used : Nat) : List PolicyStep → Prop
  | [] => True
  | s :: rest =>
    max (used : Int) (if s.rendered then (s.sum accumulated).ceil else 0) = used + s.takes ∧
      InStep (s.sum accumulated) (used + s.takes) rest

section Walks

variable {α σ : Type} {view : α → PolicyStep}

/-- The step of the k-th prompt, where `used` have been handed out. -/
abbrev owner (view : α → PolicyStep) (k used : Nat) (steps : List α) : Option α :=
  firstPast (fun used => decide (k < used)) (fun used s => used + (view s).prompts) used steps

theorem hand_getElem? (steps : List α) (used : Nat) {prompts : List HitlPrompt} {k : Nat}
    (h : k < prompts.length) :
    ((hand view steps prompts)[k]?).map Prod.snd = owner view (used + k) used steps := by
  induction steps generalizing used prompts k with
  | nil => rfl
  | cons s rest ih =>
    rw [hand, owner, firstPast, List.getElem?_append]
    simp only [List.length_map, List.length_take, Nat.add_lt_add_iff_left, Nat.lt_min,
      decide_eq_true_eq]
    by_cases hk : k < (view s).prompts
    · simp [hk, h]
    obtain ⟨j, rfl⟩ := Nat.exists_eq_add_of_le (Nat.not_lt.mp hk)
    have hj : j < (prompts.drop (view s).prompts).length := by
      rw [List.length_drop]
      omega
    have hlength : min (view s).prompts prompts.length = (view s).prompts := by omega
    simp only [hk, if_false, false_and, hlength, Nat.add_sub_cancel_left]
    rw [ih (used + (view s).prompts) hj, Nat.add_assoc]

theorem mem_of_firstPast {passes : σ → Bool} {add : σ → α → σ} {sum : σ} {xs : List α} {x : α}
    (h : firstPast passes add sum xs = some x) : x ∈ xs := by
  induction xs generalizing sum with
  | nil => cases h
  | cons y rest ih =>
    rw [firstPast] at h
    split at h
    · exact Option.some.inj h ▸ List.mem_cons_self
    · exact .tail _ (ih h)

/-- Two walks that pick one item alike on every gate split the gates alike at each item. -/
theorem agree_cons {p q : Nat → Prop} [DecidablePred p] [DecidablePred q] {x : α} {rest : List α}
    {f g : Nat → Option α} (hx : x ∉ rest) (hf : ∀ k y, f k = some y → y ∈ rest)
    (hg : ∀ k y, g k = some y → y ∈ rest) (used : Nat) :
    (∀ k, used ≤ k → (if p k then some x else f k) = if q k then some x else g k) ↔
      (∀ k, used ≤ k → (p k ↔ q k)) ∧ ∀ k, used ≤ k → ¬ p k → f k = g k := by
  constructor
  · intro h
    have hiff : ∀ k, used ≤ k → (p k ↔ q k) := fun k hk => by
      have hk' := h k hk
      by_cases hp : p k <;> by_cases hq : q k <;> simp only [hp, hq, if_true, if_false] at hk' ⊢
      · exact absurd (hg k x hk'.symm) hx
      · exact absurd (hf k x hk') hx
    refine ⟨hiff, fun k hk hp => ?_⟩
    have hk' := h k hk
    rwa [if_neg hp, if_neg (fun hq => hp ((hiff k hk).mpr hq))] at hk'
  · rintro ⟨hiff, hrest⟩ k hk
    by_cases hp : p k
    · rw [if_pos hp, if_pos ((hiff k hk).mp hp)]
    · rw [if_neg hp, if_neg (fun hq => hp ((hiff k hk).mpr hq)), hrest k hk hp]

theorem owner_cons (s : α) (rest : List α) {k used : Nat} (hk : used ≤ k) :
    owner view k used ((s :: rest).filter fun s => (view s).gated) =
      if k < used + (view s).takes then some s
      else owner view k (used + (view s).takes) (rest.filter fun s => (view s).gated) := by
  cases hg : (view s).gated with
  | true => simp [owner, firstPast, hg, PolicyStep.takes]
  | false => simp [hg, hk, PolicyStep.takes]

theorem stepOfGate_cons (s : α) (rest : List α) (k : Nat) (accumulated : Rat) :
    stepOfGate view k accumulated ((s :: rest).filter fun s => (view s).rendered) =
      if (k : Int) < (if (view s).rendered then ((view s).sum accumulated).ceil else 0) then some s
      else stepOfGate view k ((view s).sum accumulated) (rest.filter fun s => (view s).rendered) := by
  have hceil : ∀ x : Rat, (k : Int) < x.ceil ↔ (k : Rat) < x := fun x => Rat.lt_ceil_iff
  cases hr : (view s).rendered with
  | true => simp [stepOfGate, firstPast, hr, PolicyStep.sum, hceil]
  | false => simp [hr, PolicyStep.sum]

/-- **The walks agree exactly while their sums keep together.** -/
theorem agree_iff {steps : List α} (hnd : steps.Nodup) (accumulated : Rat) (used : Nat) :
    (∀ k, used ≤ k → owner view k used (steps.filter fun s => (view s).gated) =
      stepOfGate view k accumulated (steps.filter fun s => (view s).rendered)) ↔
      InStep accumulated used (steps.map view) := by
  induction steps generalizing accumulated used with
  | nil => exact iff_of_true (fun _ _ => rfl) trivial
  | cons s rest ih =>
    obtain ⟨hs, hrest⟩ := List.nodup_cons.mp hnd
    have hmem : ∀ {p : α → Bool} {x : α}, x ∈ rest.filter p → x ∈ rest := fun h =>
      (List.mem_filter.mp h).1
    have hcons := agree_cons (p := fun k => k < used + (view s).takes)
      (q := fun k => (k : Int) <
        if (view s).rendered then ((view s).sum accumulated).ceil else 0)
      (f := fun k => owner view k (used + (view s).takes) (rest.filter fun s => (view s).gated))
      (g := fun k => stepOfGate view k ((view s).sum accumulated)
        (rest.filter fun s => (view s).rendered))
      hs (fun k y hy => hmem (mem_of_firstPast hy)) (fun k y hy => hmem (mem_of_firstPast hy)) used
    rw [List.map_cons, InStep, ← ih hrest]
    refine Iff.trans (forall_congr' fun k => forall_congr' fun hk => ?_) (hcons.trans
      (and_congr ?_ (forall_congr' fun k => ?_)))
    · rw [owner_cons s rest hk, stepOfGate_cons]
    · generalize (if (view s).rendered then ((view s).sum accumulated).ceil else 0) = c
      constructor
      · intro h
        have hend := h (used + (view s).takes)
        have hlast := h (used + (view s).takes - 1)
        omega
      · intro h k hk
        omega
    · exact ⟨fun h hk => h (by omega) (by omega), fun h _ hk => h (by omega)⟩

end Walks

/-- **The k-th gate shows and stores under one step, for every k, exactly where** the counts
    keep together; what a gated step was handed is in the map either way. -/
theorem gates_agree_iff (steps : List PolicyStep) :
    ((∀ (prompts : List HitlPrompt) (k : Nat), k < prompts.length →
        ((handed Prod.fst steps.zipIdx prompts)[k]?).map Prod.snd =
          selectStep Prod.fst steps.zipIdx k) ∧
      ∀ (hitlSteps : List StepperEntry) (prompts : List HitlPrompt),
        ∀ a ∈ handed id steps prompts, ∀ entry, stepperEntry hitlSteps a.2 = some entry →
          (entry.index, a.1) ∈ buildSubmissionMapByStepIndex true steps hitlSteps prompts) ↔
      InStep 0 0 steps := by
  have hnd : steps.zipIdx.Nodup := by
    refine List.Nodup.of_map Prod.snd ?_
    rw [List.zipIdx_map_snd]
    exact List.nodup_range'
  have hagree := @agree_iff (PolicyStep × Nat) Prod.fst _ hnd 0 0
  rw [List.zipIdx_map_fst] at hagree
  rw [← hagree]
  constructor
  · rintro ⟨h, -⟩ k -
    have hk := h (List.replicate (k + 1) ⟨.null, none, ""⟩) k (by simp)
    rwa [handed, hand_getElem? _ 0 (by simp), Nat.zero_add] at hk
  · intro h
    refine ⟨fun prompts k hk => ?_, fun hitlSteps prompts a ha entry hentry => ?_⟩
    · rw [handed, hand_getElem? _ 0 hk, Nat.zero_add]
      exact h k (Nat.zero_le k)
    · exact List.mem_filterMap.mpr ⟨a, ha, by rw [hentry]; rfl⟩

/-- The first step asks for no gate. -/
def gatelessStep : List PolicyStep :=
  [{ stepNumber := some 1, xRenderer := some (.str "a:b"), gateCount := some 0 },
    { stepNumber := some 2, xRenderer := some (.str "a:c") }]

theorem gatelessStep_apart : ¬ ∀ (prompts : List HitlPrompt) (k : Nat), k < prompts.length →
    ((handed Prod.fst gatelessStep.zipIdx prompts)[k]?).map Prod.snd =
      selectStep Prod.fst gatelessStep.zipIdx k := fun h =>
  absurd (h [⟨.null, none, ""⟩] 0 Nat.one_pos) (by decide +kernel)

end AgentRuns
