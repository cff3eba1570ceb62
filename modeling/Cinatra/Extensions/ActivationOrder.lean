import Cinatra.Extensions.CanonicalTypes
import Cinatra.Lib.CodeUnits
import Cinatra.Lib.OrderedMap
import Cinatra.Lib.ReadyOrder

/-! # ActivationOrder — dependencies are activated first

    The packages being activated are taken in lexicographic order, each as soon as those
    it depends on are placed; what is left of a cycle goes last as it stands.  Peer edges
    and packages outside the set play no part.  `activation_order` is the whole of it:
    the order is one of the set, and only a cycle puts a package before a dependency. -/

namespace ExtActivation

open ExtCanonical ReadyOrder

/-- The edges a package declares. -/
def edgesOf (edgesByPackage : OrderedMap String (List ExtensionDependency)) (name : String) :
    List ExtensionDependency := (OrderedMap.get? name edgesByPackage).getD []

/-- The packages of the set that one depends on, by an edge that is no peer's. -/
def dependsOn (names : List String) (edgesByPackage : OrderedMap String (List ExtensionDependency))
    (name : String) : List String :=
  ((edgesOf edgesByPackage name).filter
    (fun d => d.edgeType ≠ .peer && names.contains d.packageName)).map
      ExtensionDependency.packageName

def orderPackagesByDependencyFirst (names : List String)
    (edgesByPackage : OrderedMap String (List ExtensionDependency)) : List String :=
  loop (dependsOn names edgesByPackage) List.head? names.length [] (CodeUnits.jsSort names)

variable {names names' : List String} {edgesByPackage : OrderedMap String (List ExtensionDependency)}

theorem mem_dependsOn {name d : String} : d ∈ dependsOn names edgesByPackage name ↔ d ∈ names ∧
      ∃ e ∈ edgesOf edgesByPackage name, e.edgeType ≠ .peer ∧ e.packageName = d := by
  rw [dependsOn, List.mem_map]
  constructor
  · rintro ⟨e, he, rfl⟩
    obtain ⟨hin, hkept⟩ := List.mem_filter.mp he
    rw [Bool.and_eq_true, decide_eq_true_eq, List.contains_iff_mem] at hkept
    exact ⟨hkept.2, e, hin, hkept.1, rfl⟩
  · rintro ⟨hin, e, he, hpeer, rfl⟩
    refine ⟨e, List.mem_filter.mpr ⟨he, ?_⟩, rfl⟩
    rw [Bool.and_eq_true, decide_eq_true_eq, List.contains_iff_mem]
    exact ⟨hpeer, hin⟩

theorem head_picks : Picks (List.head? : List String → Option String) where
  mem := fun h => List.mem_of_head? h
  some := fun hne h => hne (List.head?_eq_none_iff.mp h)

theorem order_perm (hnd : names.Nodup) :
    (orderPackagesByDependencyFirst names edgesByPackage).Perm names := by
  have hsorted := CodeUnits.jsSort_perm names
  have hloop : (orderPackagesByDependencyFirst names edgesByPackage).Perm
      ([] ++ CodeUnits.jsSort names) :=
    loop_perm head_picks _ [] _ (hsorted.nodup_iff.mpr hnd) (Nat.le_of_eq hsorted.length_eq)
  exact hloop.trans hsorted

theorem order_congr (h : names'.Perm names) : orderPackagesByDependencyFirst names' edgesByPackage =
      orderPackagesByDependencyFirst names edgesByPackage := by
  have hdepends : dependsOn names' edgesByPackage = dependsOn names edgesByPackage := by
    funext name
    rw [dependsOn, dependsOn]
    congr 2
    funext d
    rw [h.contains_eq]
  rw [orderPackagesByDependencyFirst, orderPackagesByDependencyFirst, hdepends, h.length_eq,
    CodeUnits.jsSort_eq_of_perm h]

theorem order_places (hnd : names.Nodup) :
    Places (dependsOn names edgesByPackage) (orderPackagesByDependencyFirst names edgesByPackage) := by
  have hsorted := CodeUnits.jsSort_perm names
  refine loop_places head_picks _ [] _ (hsorted.nodup_iff.mpr hnd) ?_ (fun a ha => ?_)
  · intro a _ b hb
    exact hsorted.mem_iff.mpr (mem_dependsOn.mp hb).1
  · cases ha

/-- A package that lies on a cycle of the set, or depends on one. -/
abbrev OnOrBehindCycle (names : List String)
    (edgesByPackage : OrderedMap String (List ExtensionDependency)) (name : String) : Prop :=
  Entangled (dependsOn names edgesByPackage) name

/-- **Activation order.**  The loop ends within as many rounds as there are names; the
    order is one of the names, whatever order they came in; and a package comes behind
    each of its dependencies in the set, unless a cycle keeps one of the two back. -/
theorem activation_order (names : List String)
    (edgesByPackage : OrderedMap String (List ExtensionDependency)) (hnd : names.Nodup) :
    (∀ more, loop (dependsOn names edgesByPackage) List.head? (names.length + more) []
        (CodeUnits.jsSort names) = orderPackagesByDependencyFirst names edgesByPackage) ∧
      (orderPackagesByDependencyFirst names edgesByPackage).Perm names ∧
      (∀ names', names'.Perm names → orderPackagesByDependencyFirst names' edgesByPackage =
        orderPackagesByDependencyFirst names edgesByPackage) ∧
      ∀ a ∈ names, ∀ e ∈ edgesOf edgesByPackage a, e.edgeType ≠ .peer → e.packageName ∈ names →
        ¬ (OnOrBehindCycle names edgesByPackage a ∨
          OnOrBehindCycle names edgesByPackage e.packageName) →
        [e.packageName, a].Sublist (orderPackagesByDependencyFirst names edgesByPackage) := by
  refine ⟨fun more => ?_, order_perm hnd, fun names' h => order_congr h, ?_⟩
  · exact loop_enough head_picks _ more [] _ (Nat.le_of_eq (CodeUnits.jsSort_perm names).length_eq)
  · intro a ha e he hpeer hin hfree
    have hdep : e.packageName ∈ dependsOn names edgesByPackage a :=
      mem_dependsOn.mpr ⟨hin, e, he, hpeer, rfl⟩
    exact order_places hnd a ((order_perm hnd).mem_iff.mpr ha) (fun h => hfree (.inl h)) _ hdep

/-- A runtime edge to any version. -/
def runtimeEdge (packageName : String) : ExtensionDependency :=
  ⟨packageName, none, .runtime, .semverRange "*", .required⟩

/-- `b` depends on `c`, while `x` and `y` depend on each other. -/
def halfCyclic : OrderedMap String (List ExtensionDependency) :=
  [("b", [runtimeEdge "c"]), ("x", [runtimeEdge "y"]), ("y", [runtimeEdge "x"])]

theorem halfCyclic_ordered :
    ["c", "b"].Sublist (orderPackagesByDependencyFirst ["y", "b", "x", "c"] halfCyclic) := by
  have hc : ¬ OnOrBehindCycle ["y", "b", "x", "c"] halfCyclic "c" := by
    intro h
    obtain ⟨p, hp, _⟩ := entangled_iff.mp h
    cases hp
  have hb : ¬ OnOrBehindCycle ["y", "b", "x", "c"] halfCyclic "b" := by
    intro h
    obtain ⟨p, hp, hcycle⟩ := entangled_iff.mp h
    have hdepends : dependsOn ["y", "b", "x", "c"] halfCyclic "b" = ["c"] := by decide +kernel
    rw [hdepends, List.mem_singleton] at hp
    exact hc (hp ▸ hcycle)
  exact (activation_order ["y", "b", "x", "c"] halfCyclic (by decide)).2.2.2 "b" (by decide)
    (runtimeEdge "c") (by decide) (by decide) (by decide) (not_or.mpr ⟨hb, hc⟩)

end ExtActivation
