import Mathlib.Data.List.Chain
import Mathlib.Data.List.Nodup
import Mathlib.Data.List.Perm.Subperm

/-! # SimplePaths — how deep the simple paths from a node go

    A walk follows every path that meets no node twice, notes the deepest node it comes
    to, and turns back behind a budget.  `walk_spec`: it ends, and the depth it notes
    is within the budget exactly if every simple path is. -/

namespace SimplePaths

variable {α : Type} [DecidableEq α]

/-- A path that leaves `a` along edges and meets no node twice, nor one of `onPath`. -/
structure Extends (next : α → List α) (onPath : List α) (a : α) (p : List α) : Prop where
  edges : (a :: p).IsChain (fun a b => b ∈ next a)
  simple : p.Nodup
  fresh : ∀ x ∈ p, x ∉ onPath

/-- One edge of the node at hand. -/
def descend (below : α → Nat → Option Nat) (onPath : List α) (maxDepth : Nat) (v : α) : Option Nat :=
  if v ∈ onPath then some maxDepth else below v maxDepth

/-- The deepest depth noted, below `node` and before; `none` where the rounds run out. -/
def walk (next : α → List α) (budget : Int) : Nat → Nat → List α → α → Nat → Option Nat
  | 0, _, _, _, _ => none
  | fuel + 1, depth, onPath, node, maxDepth =>
    let noted := if maxDepth < depth then depth else maxDepth
    if budget < depth then some noted
    else (next node).foldlM (fun m v =>
      descend (fun v m => walk next budget fuel (depth + 1) (v :: onPath) v m) onPath m v) noted

variable {next : α → List α} {nodes onPath : List α} {a : α}

omit [DecidableEq α] in
theorem Extends.nil (a : α) : Extends next onPath a [] :=
  ⟨List.isChain_singleton a, List.nodup_nil, fun _ hx => by cases hx⟩

omit [DecidableEq α] in
/-- A path goes over an edge to a node that is new, and on from there. -/
theorem extends_cons {v : α} {p : List α} :
    Extends next onPath a (v :: p) ↔ v ∈ next a ∧ v ∉ onPath ∧ Extends next (v :: onPath) v p := by
  constructor
  · rintro ⟨hedges, hsimple, hfresh⟩
    obtain ⟨hav, hrest⟩ := List.isChain_cons_cons.mp hedges
    obtain ⟨hv, hp⟩ := List.nodup_cons.mp hsimple
    refine ⟨hav, hfresh v (.head _), hrest, hp, fun x hx hin => ?_⟩
    rcases List.mem_cons.mp hin with rfl | hin
    · exact hv hx
    · exact hfresh x (List.mem_cons_of_mem v hx) hin
  · rintro ⟨hav, hv, hedges, hsimple, hfresh⟩
    refine ⟨List.isChain_cons_cons.mpr ⟨hav, hedges⟩, List.nodup_cons.mpr ⟨?_, hsimple⟩, ?_⟩
    · exact fun hin => hfresh v hin (.head _)
    · intro x hx
      rcases List.mem_cons.mp hx with rfl | hx
      · exact hv
      · exact fun hin => hfresh x hx (List.mem_cons_of_mem v hin)

/-- What a walk below a node on the path comes to. -/
def Measures (next : α → List α) (nodes : List α) (budget : Int) (fuel : Nat) : Prop :=
  ∀ (depth : Nat) (onPath : List α) (node : α) (maxDepth : Nat), onPath.Nodup →
    (∀ x ∈ onPath, x ∈ nodes) → nodes.length < fuel + onPath.length →
    ∃ m, walk next budget fuel depth onPath node maxDepth = some m ∧
      ((m : Int) ≤ budget ↔ (maxDepth : Int) ≤ budget ∧
        ∀ p, Extends next onPath node p → (depth + p.length : Int) ≤ budget)

variable {budget : Int}

theorem edges_spec {fuel : Nat} (depth : Nat) (hwalk : Measures next nodes budget fuel)
    (hnd : onPath.Nodup) (hin : ∀ x ∈ onPath, x ∈ nodes)
    (hfuel : nodes.length < fuel + 1 + onPath.length) (vs : List α) (hvs : ∀ v ∈ vs, v ∈ nodes) :
    ∀ maxDepth : Nat, ∃ m, vs.foldlM (fun m v =>
        descend (fun v m => walk next budget fuel (depth + 1) (v :: onPath) v m) onPath m v) maxDepth =
          some m ∧ ((m : Int) ≤ budget ↔ (maxDepth : Int) ≤ budget ∧ ∀ v ∈ vs, v ∉ onPath →
        ∀ p, Extends next (v :: onPath) v p → (depth + (v :: p).length : Int) ≤ budget) := by
  induction vs with
  | nil =>
    intro maxDepth
    refine ⟨maxDepth, rfl, fun h => ⟨h, fun v hv => absurd hv List.not_mem_nil⟩, And.left⟩
  | cons v vs ih =>
    have ih := ih (fun x hx => hvs x (List.mem_cons_of_mem v hx))
    intro maxDepth
    rw [List.foldlM_cons, descend]
    by_cases hv : v ∈ onPath
    · rw [if_pos hv]
      obtain ⟨m, hrun, hm⟩ := ih maxDepth
      refine ⟨m, hrun, hm.trans (and_congr_right (fun _ => ?_))⟩
      rw [List.forall_mem_cons]
      exact (and_iff_right (fun hnew => absurd hv hnew)).symm
    · rw [if_neg hv]
      have hin' : ∀ x ∈ v :: onPath, x ∈ nodes := by
        intro x hx
        rcases List.mem_cons.mp hx with rfl | hx
        · exact hvs x (.head _)
        · exact hin x hx
      obtain ⟨m₁, hrun₁, hm₁⟩ := hwalk (depth + 1) (v :: onPath) v maxDepth
        (List.nodup_cons.mpr ⟨hv, hnd⟩) hin' (by rw [List.length_cons]; omega)
      obtain ⟨m, hrun, hm⟩ := ih m₁
      refine ⟨m, ?_, ?_⟩
      · rw [hrun₁]
        exact hrun
      · rw [hm, hm₁, List.forall_mem_cons, and_assoc]
        refine and_congr_right (fun _ => and_congr_left (fun _ => ?_))
        rw [forall_prop_of_true hv]
        refine forall_congr' (fun p => forall_congr' (fun _ => ?_))
        rw [List.length_cons]
        push_cast
        omega

/-- **A walk** ends; what it notes is within the budget exactly if every simple path is. -/
theorem walk_spec (hclosed : ∀ a, ∀ b ∈ next a, b ∈ nodes) (fuel : Nat) :
    Measures next nodes budget fuel := by
  induction fuel with
  | zero =>
    intro depth onPath node maxDepth hnd hin hfuel
    have hlen := (List.subperm_of_subset hnd hin).length_le
    omega
  | succ fuel ih =>
    intro depth onPath node maxDepth hnd hin hfuel
    rw [walk]
    have hnoted : (((if maxDepth < depth then depth else maxDepth : Nat) : Int) ≤ budget ↔
        (maxDepth : Int) ≤ budget ∧ (depth : Int) ≤ budget) := by
      split <;> omega
    by_cases hover : budget < depth
    · rw [if_pos hover]
      refine ⟨_, rfl, hnoted.trans (and_congr_right (fun _ => ?_))⟩
      refine iff_of_false (by omega) (fun h => ?_)
      have hnil := h [] (Extends.nil node)
      rw [List.length_nil] at hnil
      omega
    · rw [if_neg hover]
      obtain ⟨m, hrun, hm⟩ := edges_spec depth ih hnd hin hfuel (next node)
        (hclosed node) (if maxDepth < depth then depth else maxDepth)
      refine ⟨m, hrun, hm.trans ?_⟩
      rw [hnoted, and_assoc]
      refine and_congr_right (fun _ => ?_)
      constructor
      · rintro ⟨hdepth, hall⟩ p hp
        cases p with
        | nil =>
          rw [List.length_nil]
          omega
        | cons v p =>
          obtain ⟨hv, hnew, hp⟩ := extends_cons.mp hp
          exact hall v hv hnew p hp
      · intro hall
        refine ⟨by omega, fun v hv hnew p hp => ?_⟩
        exact hall (v :: p) (extends_cons.mpr ⟨hv, hnew, hp⟩)

end SimplePaths
