import Cinatra.Lib.CycleSearch
import Cinatra.Lib.OrderedMap
import Cinatra.Lib.SimplePaths

/-! # CrossKind — cycles and authoring chains across extension kinds

    An artifact extension names the agents its skills may invoke, an agent extension the
    artifacts it produces.  `crossKind_checks`: the cycle check reports cycles of that
    graph and none exactly when there is none, and an authoring chain is within budget
    exactly when the longest path that meets no extension twice is. -/

namespace ExtCrossKind

inductive CrossKind where
  | artifact | agent | skill | connector
deriving DecidableEq

structure CrossKindNode where
  packageName : String
  kind : CrossKind
  agentDependencies : List String := []
  produces : List String := []

structure CrossKindGraph where
  nodes : OrderedMap String CrossKindNode
  edges : OrderedMap String (List String)

/-- `set.add(x)`. -/
def addTo (xs : List String) (x : String) : List String := if x ∈ xs then xs else xs ++ [x]

/-- The edges of a node's declarations. -/
def declare (edges : OrderedMap String (List String)) (n : CrossKindNode) :
    OrderedMap String (List String) :=
  OrderedMap.set n.packageName ((n.agentDependencies ++ n.produces).foldl addTo
    ((OrderedMap.get? n.packageName edges).getD [])) edges

def buildCrossKindGraph (nodes : List CrossKindNode) : CrossKindGraph where
  nodes := nodes.foldl (fun m n => OrderedMap.set n.packageName n m) []
  edges := nodes.foldl declare (nodes.foldl (fun m n =>
    if (OrderedMap.get? n.packageName m).isSome then m else OrderedMap.set n.packageName [] m) [])

namespace CrossKindGraph

variable (graph : CrossKindGraph)

def keys : List String := OrderedMap.keys graph.nodes

/-- The extensions a package depends on that the graph has; others are no error. -/
def next (u : String) : List String :=
  ((OrderedMap.get? u graph.edges).getD []).filter (fun v => v ∈ graph.keys)

def DependsOn (a b : String) : Prop := b ∈ graph.next a

def Acyclic : Prop := ∀ a, ¬ Relation.TransGen graph.DependsOn a a

abbrev IsCycle (c : List String) : Prop := CycleSearch.Cycle graph.next graph.keys c

/-- What comes behind `start` on a path of the graph that meets no extension twice. -/
def SimplePath (start : String) (p : List String) : Prop :=
  start ∈ graph.keys ∧ SimplePaths.Extends graph.next [start] start p

end CrossKindGraph

/-- All directed cycles the walk comes across. -/
def detectCycles (graph : CrossKindGraph) : Option (List (List String)) :=
  (CycleSearch.search graph.next graph.keys).map CycleSearch.State.cycles

/-- `DEFAULT_AUTHORING_RECURSION_BUDGET`. -/
def defaultAuthoringRecursionBudget : Int := 8

structure RecursionCheck where
  withinBudget : Bool
  maxDepthReached : Nat
  budget : Int

def checkAuthoringRecursionBudget (graph : CrossKindGraph) (start : String)
    (budget : Int := defaultAuthoringRecursionBudget) : Option RecursionCheck :=
  (if start ∈ graph.keys then
    SimplePaths.walk graph.next budget graph.keys.length 0 [start] start 0
  else some 0).map
    (fun maxDepth : Nat => ⟨maxDepth ≤ budget, maxDepth, budget⟩)

theorem next_closed (graph : CrossKindGraph) (a : String) : ∀ b ∈ graph.next a, b ∈ graph.keys :=
  fun _ hb => of_decide_eq_true (List.mem_filter.mp hb).2

theorem detectCycles_spec (graph : CrossKindGraph) :
    ∃ cycles, detectCycles graph = some cycles ∧ (∀ c ∈ cycles, graph.IsCycle c) ∧
      (cycles = [] ↔ graph.Acyclic) := by
  obtain ⟨st, hrun, hreal, hnone⟩ :=
    CycleSearch.search_spec graph.next graph.keys (next_closed graph)
  exact ⟨st.cycles, by rw [detectCycles, hrun]; rfl, hreal, hnone⟩

theorem budget_spec (graph : CrossKindGraph) (start : String) (budget : Int) :
    ∃ r, checkAuthoringRecursionBudget graph start budget = some r ∧ (r.withinBudget = true ↔
        0 ≤ budget ∧ ∀ p, graph.SimplePath start p → (p.length : Int) ≤ budget) := by
  rw [checkAuthoringRecursionBudget]
  by_cases hstart : start ∈ graph.keys
  · rw [if_pos hstart]
    obtain ⟨m, hrun, hm⟩ := SimplePaths.walk_spec (next_closed graph) graph.keys.length 0 [start]
      start 0 (by simp) (by simpa using hstart) (by simp)
    refine ⟨_, by rw [hrun]; rfl, ?_⟩
    show decide ((m : Int) ≤ budget) = true ↔ _
    rw [decide_eq_true_eq, hm]
    refine and_congr Iff.rfl (forall_congr' (fun p => ?_))
    rw [CrossKindGraph.SimplePath, and_iff_right hstart, Int.natCast_zero, Int.zero_add]
  · rw [if_neg hstart]
    refine ⟨_, rfl, ?_⟩
    show decide (((0 : Nat) : Int) ≤ budget) = true ↔ _
    rw [decide_eq_true_eq]
    exact (and_iff_left (fun p hp => absurd hp.1 hstart)).symm

/-- **The cross-kind checks are exact.**  Both end; the cycle check reports cycles, and
    none exactly of an acyclic graph; the budget check passes exactly when every path that
    meets no extension twice has at most `budget` edges. -/
theorem crossKind_checks (graph : CrossKindGraph) (start : String) (budget : Int) :
    (∃ cycles, detectCycles graph = some cycles ∧ (∀ c ∈ cycles, graph.IsCycle c) ∧
      (cycles = [] ↔ graph.Acyclic)) ∧
    ∃ r, checkAuthoringRecursionBudget graph start budget = some r ∧ (r.withinBudget = true ↔
        0 ≤ budget ∧ ∀ p, graph.SimplePath start p → (p.length : Int) ≤ budget) :=
  ⟨detectCycles_spec graph, budget_spec graph start budget⟩

/-- Two extensions that lead to each other, and a third that leads to both. -/
example : detectCycles (buildCrossKindGraph
      [{ packageName := "a", kind := .artifact, agentDependencies := ["b"] },
        { packageName := "b", kind := .agent, produces := ["a"] },
        { packageName := "c", kind := .agent, produces := ["a", "b"] }]) =
    some [["a", "b", "a"]] := by
  decide +kernel

end ExtCrossKind
