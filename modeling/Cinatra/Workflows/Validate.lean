import Cinatra.Workflows.Host

/-! # Validate — the template tier

    The structural checks of `validateTemplate` on a parsed spec, in source
    order, each with its code, message and path.  The resource limits, the field
    patterns of the schema and the scan for unbound template variables are left
    out: they narrow what is accepted further. -/

namespace WfValidate

open JsonValue WfSpec WfHost

structure StructuredSpecError where
  code : String
  message : String
  path : Option String

def quoteKey (key : String) : String := "\"" ++ key ++ "\""

/-- The path of a field of the task at `i`. -/
def taskPath (i : Nat) (field : String) : Option String :=
  some ("tasks[" ++ toString i ++ "]." ++ field)

/-! ## Cycles -/

/-- An adjacency map. -/
abbrev Adjacency := List (String × List String)

def Adjacency.next (adjacency : Adjacency) (node : String) : List String :=
  ((adjacency.find? (fun e => e.1 = node)).map Prod.snd).getD []

/-- Depth-first search from the nodes left to visit: `gray` are open, `black`
    closed.  `none` is a cycle. -/
def visitAll (adjacency : Adjacency) :
    Nat → List String → List String → List String → Option (List String)
  | 0, _, _, black => some black
  | _ + 1, _, [], black => some black
  | fuel + 1, gray, node :: nodes, black =>
    if gray.contains node then none
    else if black.contains node then visitAll adjacency fuel gray nodes black
    else
      match visitAll adjacency fuel (node :: gray) (adjacency.next node) black with
      | none => none
      | some black => visitAll adjacency fuel gray nodes (node :: black)

def edgeCount (adjacency : Adjacency) : Nat := adjacency.foldl (fun n e => n + e.2.length) 0

def hasCycle (adjacency : Adjacency) : Bool :=
  (visitAll adjacency (2 * (adjacency.length + edgeCount adjacency) + 2) []
    (adjacency.map Prod.fst) []).isNone

/-! ## Tasks and dependencies -/

section Checks

variable (spec : WorkflowSpec)

def known (key : String) : Bool := spec.keys.contains key

def checkEmpty : List StructuredSpecError :=
  if spec.tasks = [] then
    [⟨"EMPTY_SPEC", "A workflow must have at least one task.", none⟩]
  else []

/-- The keys met twice, in the order they are met again; `seen` holds the keys
    before. -/
def duplicateKeys : List String → List String → List String → List String
  | _, dupes, [] => dupes
  | seen, dupes, k :: ks =>
    if seen.contains k then
      duplicateKeys seen (if dupes.contains k then dupes else dupes ++ [k]) ks
    else duplicateKeys (k :: seen) dupes ks

def checkUnique : List StructuredSpecError :=
  (duplicateKeys [] [] spec.keys).map (fun k =>
    ⟨"DUPLICATE_TASK_KEY", "Duplicate task key " ++ quoteKey k ++ ".", none⟩)

/-- Errors of the task at each position. -/
def perTask (check : Nat → TaskSpec → List StructuredSpecError) : List StructuredSpecError :=
  spec.tasks.zipIdx.flatMap (fun e => check e.2 e.1)

/-- Errors of each dependency of a task. -/
def perDependency (check : Nat → TaskDependency → List StructuredSpecError) (t : TaskSpec) :
    List StructuredSpecError :=
  t.dependsOn.zipIdx.flatMap (fun e => check e.2 e.1)

def dependencyPath (i j : Nat) (suffix : String) : Option String :=
  taskPath i ("dependsOn[" ++ toString j ++ "]" ++ suffix)

def checkDependency (i : Nat) (t : TaskSpec) (j : Nat) (dep : TaskDependency) :
    List StructuredSpecError :=
  (if known spec dep.taskKey then []
   else [⟨"UNKNOWN_DEPENDENCY", "Task " ++ quoteKey t.key ++ " depends on unknown task " ++
     quoteKey dep.taskKey ++ ".", dependencyPath i j ".taskKey"⟩]) ++
  (if dep.taskKey = t.key then
    [⟨"SELF_DEPENDENCY", "Task " ++ quoteKey t.key ++ " cannot depend on itself.",
      dependencyPath i j ".taskKey"⟩]
   else [])

def checkDependencies : List StructuredSpecError :=
  perTask spec (fun i t => perDependency (checkDependency spec i t) t)

def depAdjacency : Adjacency :=
  spec.tasks.map (fun t =>
    (t.key, (t.dependsOn.map TaskDependency.taskKey).filter (known spec)))

def checkDependencyCycle : List StructuredSpecError :=
  if hasCycle (depAdjacency spec) then
    [⟨"DEPENDENCY_CYCLE", "The dependency graph contains a cycle.", none⟩]
  else []

/-- The task key a relative schedule is anchored to. -/
def anchorKey (t : TaskSpec) : Option String :=
  match t.schedule with
  | some (.relative anchor _ _ _ _ _ _) => if anchor = targetAnchor then none else some anchor
  | _ => none

def checkAnchor (i : Nat) (t : TaskSpec) : List StructuredSpecError :=
  match anchorKey t with
  | none => []
  | some anchor =>
    if !known spec anchor then
      [⟨"UNKNOWN_ANCHOR", "Task " ++ quoteKey t.key ++ " schedule anchors to unknown task " ++
        quoteKey anchor ++ ".", taskPath i "schedule.anchor"⟩]
    else if anchor = t.key then
      [⟨"SELF_ANCHOR", "Task " ++ quoteKey t.key ++
        " cannot anchor its schedule to itself.", taskPath i "schedule.anchor"⟩]
    else []

def anchorAdjacency : Adjacency :=
  spec.tasks.map (fun t =>
    (t.key, (anchorKey t).toList.filter (fun a => known spec a && a ≠ t.key)))

def checkAnchorCycle : List StructuredSpecError :=
  if hasCycle (anchorAdjacency spec) then
    [⟨"ANCHOR_CYCLE", "The schedule-anchor graph contains a cycle.", none⟩]
  else []

/-! ## Hierarchy -/

def checkParent (i : Nat) (t : TaskSpec) : List StructuredSpecError :=
  match t.parent with
  | none => []
  | some parent =>
    if !known spec parent then
      [⟨"UNKNOWN_PARENT", "Task " ++ quoteKey t.key ++ " has unknown parent " ++
        quoteKey parent ++ ".", taskPath i "parent"⟩]
    else if parent = t.key then
      [⟨"SELF_PARENT", "Task " ++ quoteKey t.key ++ " cannot be its own parent.",
        taskPath i "parent"⟩]
    else []

def parentAdjacency : Adjacency :=
  spec.tasks.map (fun t =>
    (t.key, t.parent.toList.filter (fun a => known spec a && a ≠ t.key)))

def checkParentCycle : List StructuredSpecError :=
  if hasCycle (parentAdjacency spec) then
    [⟨"PARENT_CYCLE", "The task hierarchy contains a cycle.", none⟩]
  else []

/-- The key is the parent of some task. -/
def hasChildren (key : String) : Bool := spec.tasks.any (fun t => t.parent = some key)

def checkSummaryParent (i : Nat) (t : TaskSpec) : List StructuredSpecError :=
  if !hasChildren spec t.key then []
  else
    (if t.schedule.isSome then
      [⟨"PARENT_HAS_SCHEDULE", "Task " ++ quoteKey t.key ++ " is a parent (has children) " ++
        "and cannot carry its own schedule; its window derives from its children.",
        taskPath i "schedule"⟩]
     else []) ++
    (if t.pinned.getD false then
      [⟨"PINNED_PARENT_INVALID", "Task " ++ quoteKey t.key ++ " is a parent (has children) " ++
        "and cannot be pinned; its window derives from its children.", taskPath i "pinned"⟩]
     else [])

def parentOf (key : String) : Option String :=
  ((spec.tasks.filter (fun t => t.key = key)).getLast?).bind TaskSpec.parent

/-- The ancestors of a key, up to `maxTasks` hops. -/
def ancestorsOf : Nat → String → List String
  | 0, _ => []
  | hops + 1, key =>
    match parentOf spec key with
    | none => []
    | some p => p :: ancestorsOf hops p

def maxTasks : Nat := 200

def checkHierarchyCycle (i : Nat) (t : TaskSpec) : List StructuredSpecError :=
  match anchorKey t with
  | none => []
  | some anchor =>
    if (ancestorsOf spec maxTasks t.key).contains anchor then
      [⟨"HIERARCHY_SCHEDULE_CYCLE", "Task " ++ quoteKey t.key ++
        " anchors its schedule to ancestor " ++ quoteKey anchor ++
        "; the parent's window already derives from this child.",
        taskPath i "schedule.anchor"⟩]
    else []

/-! ## Foreach -/

/-- The position of the last task with this key. -/
def taskOrder (key : String) : Option Nat :=
  ((spec.tasks.zipIdx.filter (fun e => e.1.key = key)).getLast?).map Prod.snd

def checkForeachSource (i : Nat) (t : TaskSpec) (fe : ForeachConfig) : List StructuredSpecError :=
  if !known spec fe.source then
    [⟨"FOREACH_UNKNOWN_SOURCE", "Task " ++ quoteKey t.key ++
      " foreach.source references unknown task " ++ quoteKey fe.source ++ ".",
      taskPath i "foreach.source"⟩]
  else if fe.source = t.key then
    [⟨"FOREACH_SOURCE_SELF", "Task " ++ quoteKey t.key ++
      " foreach.source cannot reference itself.", taskPath i "foreach.source"⟩]
  else if (taskOrder spec fe.source).all (fun k => i ≤ k) then
    [⟨"FOREACH_SOURCE_NOT_PRIOR", "Task " ++ quoteKey t.key ++ " foreach.source " ++
      quoteKey fe.source ++ " must be declared BEFORE the foreach parent in spec.tasks[] " ++
      "(foreach can only materialize after its source terminalizes).",
      taskPath i "foreach.source"⟩]
  else []

/-- The template inside a template's own foreach. -/
def innerTemplate (node : Json) : Option Json :=
  (node.field? "foreach").bind (Json.field? "template")

def visitTemplateDeps (i : Nat) (t : TaskSpec) : Nat → Json → String → List StructuredSpecError
  | 0, _, _ => []
  | fuel + 1, node, p =>
    let deps := ((node.fieldOrNull "dependsOn").bind Json.arr?).getD []
    (deps.filter (fun d => d.field? "taskKey" = some (.str t.key))).map (fun _ =>
      ⟨"FOREACH_TEMPLATE_DEPENDS_ON_PARENT", "Task " ++ quoteKey t.key ++
        " foreach.template (or nested template) declares dependsOn[" ++ quoteKey t.key ++
        "] — that would deadlock (parent waits for children; children wait for parent).",
        taskPath i ("foreach." ++ p ++ ".dependsOn")⟩) ++
    match innerTemplate node with
    | none => []
    | some inner => visitTemplateDeps i t fuel inner (p ++ ".foreach.template")

def visitTemplate (i : Nat) (t : TaskSpec) : Nat → Json → String → List StructuredSpecError
  | 0, _, _ => []
  | fuel + 1, node, p =>
    match node.field? "foreach" with
    | some (.obj fields) =>
      ⟨"FOREACH_NESTED_NOT_SUPPORTED", "Task " ++ quoteKey t.key ++
        " foreach.template declares a nested foreach at " ++ p ++
        ".foreach; nested foreach is not supported (single-level fan-out only).",
        taskPath i ("foreach." ++ p ++ ".foreach")⟩ ::
      match (Json.obj fields).field? "template" with
      | none => []
      | some inner => visitTemplate i t fuel inner (p ++ ".foreach.template")
    | _ => []

/-- No template nests deeper than the schema's `maxJsonDepth` lets it. -/
def maxTemplateDepth : Nat := 10

def checkForeach (i : Nat) (t : TaskSpec) : List StructuredSpecError :=
  match t.foreach with
  | none => []
  | some fe =>
    checkForeachSource spec i t fe ++
    visitTemplateDeps i t maxTemplateDepth fe.template "template" ++
    visitTemplate i t maxTemplateDepth fe.template "template"

/-! ## Duplicate edges, time zones -/

def checkDuplicateDependency (i : Nat) (t : TaskSpec) (j : Nat) (dep : TaskDependency) :
    List StructuredSpecError :=
  if (t.dependsOn.take j).any (fun d => d.taskKey = dep.taskKey) then
    [⟨"DUPLICATE_DEPENDENCY", "Task " ++ quoteKey t.key ++ " lists " ++ quoteKey dep.taskKey ++
      " as a dependency more than once.", dependencyPath i j ""⟩]
  else []

def checkTimeZone (host : Host) (tz path : String) : List StructuredSpecError :=
  if host.isValidTimeZone tz then []
  else [⟨"INVALID_TIMEZONE", "Unknown timezone " ++ quoteKey tz ++ ".", some path⟩]

def checkTimeZones (host : Host) : List StructuredSpecError :=
  (match spec.target with
   | none => []
   | some target => checkTimeZone host target.tz "target.tz") ++
  perTask spec (fun i t =>
    match t.schedule.bind ScheduleSpec.tz with
    | none => []
    | some tz => checkTimeZone host tz ((taskPath i "schedule.tz").getD ""))

end Checks

/-- The structural errors of a spec; none means template-valid. -/
def validateTemplate (host : Host) (spec : WorkflowSpec) : List StructuredSpecError :=
  checkEmpty spec ++ checkUnique spec ++ checkDependencies spec ++ checkDependencyCycle spec ++
  perTask spec (checkAnchor spec) ++ checkAnchorCycle spec ++
  perTask spec (checkParent spec) ++ checkParentCycle spec ++
  perTask spec (checkSummaryParent spec) ++ perTask spec (checkHierarchyCycle spec) ++
  perTask spec (checkForeach spec) ++
  perTask spec (fun i t => perDependency (checkDuplicateDependency i t) t) ++
  checkTimeZones spec host

/-- A spec the template tier accepts. -/
def TemplateValid (host : Host) (spec : WorkflowSpec) : Prop := validateTemplate host spec = []

instance (host : Host) (spec : WorkflowSpec) : Decidable (TemplateValid host spec) :=
  inferInstanceAs (Decidable (validateTemplate host spec = []))

/-! ## What a valid spec is known to have -/

private theorem append_eq_nil_left {α : Type} {a b : List α} (h : a ++ b = []) : a = [] :=
  (List.append_eq_nil_iff.mp h).1

private theorem subset_duplicateKeys (ks : List String) :
    ∀ (seen dupes : List String), ∀ k ∈ dupes, k ∈ duplicateKeys seen dupes ks := by
  induction ks with
  | nil => intro _ dupes k hk; exact hk
  | cons a ks ih =>
    intro seen dupes k hk
    rw [duplicateKeys]
    by_cases hseen : seen.contains a = true
    · rw [if_pos hseen]
      refine ih _ _ k ?_
      by_cases hd : dupes.contains a = true
      · rw [if_pos hd]; exact hk
      · rw [if_neg hd]; exact List.mem_append_left _ hk
    · rw [if_neg hseen]
      exact ih _ _ k hk

private theorem nodup_of_duplicateKeys (ks : List String) :
    ∀ (seen : List String), duplicateKeys seen [] ks = [] → ks.Nodup ∧ ∀ k ∈ ks, k ∉ seen := by
  induction ks with
  | nil => intro _ _; exact ⟨List.nodup_nil, fun _ h => absurd h (List.not_mem_nil)⟩
  | cons a ks ih =>
    intro seen h
    rw [duplicateKeys] at h
    by_cases hseen : seen.contains a = true
    · rw [if_pos hseen] at h
      have hmem := subset_duplicateKeys ks seen [a] a (List.mem_singleton.mpr rfl)
      have h' : duplicateKeys seen [a] ks = [] := h
      rw [h'] at hmem
      exact absurd hmem (List.not_mem_nil)
    · rw [if_neg hseen] at h
      obtain ⟨hnd, hout⟩ := ih (a :: seen) h
      have hna : a ∉ ks := fun ha => hout a ha (List.mem_cons_self ..)
      refine ⟨List.nodup_cons.mpr ⟨hna, hnd⟩, ?_⟩
      intro k hk
      rcases List.mem_cons.mp hk with rfl | hk
      · intro hin
        exact hseen (List.contains_iff_mem.mpr hin)
      · exact fun hin => hout k hk (.tail _ hin)

variable {t : TaskSpec}

private theorem perTask_eq_nil {spec : WorkflowSpec}
    {check : Nat → TaskSpec → List StructuredSpecError} (h : perTask spec check = [])
    (ht : t ∈ spec.tasks) : ∃ i, check i t = [] := by
  obtain ⟨i, hi⟩ := List.mem_iff_getElem?.mp ht
  have hmem : (t, i) ∈ spec.tasks.zipIdx := by
    rw [List.mem_zipIdx_iff_getElem?]
    exact hi
  exact ⟨i, List.flatMap_eq_nil_iff.mp h (t, i) hmem⟩

variable {d : TaskDependency}

private theorem perDependency_eq_nil {check : Nat → TaskDependency → List StructuredSpecError}
    (h : perDependency check t = []) {j : Nat}
    (hd : t.dependsOn[j]? = some d) : check j d = [] := by
  have hmem : (d, j) ∈ t.dependsOn.zipIdx := by
    rw [List.mem_zipIdx_iff_getElem?]
    exact hd
  exact List.flatMap_eq_nil_iff.mp h (d, j) hmem

section Valid

variable {host : Host} {spec : WorkflowSpec} (h : TemplateValid host spec)

/-- Every check of the template tier passes. -/
structure ChecksPass (spec : WorkflowSpec) : Prop where
  unique : checkUnique spec = []
  dependencies : checkDependencies spec = []
  dependencyCycle : checkDependencyCycle spec = []
  anchors : perTask spec (checkAnchor spec) = []
  anchorCycle : checkAnchorCycle spec = []
  parents : perTask spec (checkParent spec) = []
  parentCycle : checkParentCycle spec = []
  summaryParents : perTask spec (checkSummaryParent spec) = []
  foreach : perTask spec (checkForeach spec) = []
  duplicates : perTask spec (fun i t => perDependency (checkDuplicateDependency i t) t) = []

include h

theorem TemplateValid.checks : ChecksPass spec := by
  have h : validateTemplate host spec = [] := h
  simp only [validateTemplate, List.append_eq_nil_iff] at h
  obtain ⟨⟨⟨⟨⟨⟨⟨⟨⟨⟨⟨⟨-, h₁⟩, h₂⟩, h₃⟩, h₄⟩, h₅⟩, h₆⟩, h₇⟩, h₈⟩, -⟩, h₁₀⟩, h₁₁⟩, -⟩ := h
  exact ⟨h₁, h₂, h₃, h₄, h₅, h₆, h₇, h₈, h₁₀, h₁₁⟩

theorem TemplateValid.keys_nodup : spec.keys.Nodup := by
  have hc := h.checks.unique
  exact (nodup_of_duplicateKeys spec.keys [] (List.map_eq_nil_iff.mp hc)).1

variable {t : TaskSpec}

theorem TemplateValid.dependency_known (ht : t ∈ spec.tasks)
    (hd : d ∈ t.dependsOn) : d.taskKey ∈ spec.keys ∧ d.taskKey ≠ t.key := by
  have hc := h.checks.dependencies
  obtain ⟨i, hi⟩ := perTask_eq_nil hc ht
  obtain ⟨j, hj⟩ := List.mem_iff_getElem?.mp hd
  have hdep := perDependency_eq_nil hi hj
  rw [checkDependency, List.append_eq_nil_iff] at hdep
  obtain ⟨hknown, hself⟩ := hdep
  refine ⟨?_, ?_⟩
  · by_cases hk : known spec d.taskKey = true
    · exact List.contains_iff_mem.mp hk
    · rw [if_neg hk] at hknown
      cases hknown
  · intro he
    rw [if_pos he] at hself
    cases hself

variable {p : String}

theorem TemplateValid.parent_known (ht : t ∈ spec.tasks)
    (hp : t.parent = some p) : p ∈ spec.keys := by
  have hc := h.checks.parents
  obtain ⟨i, hi⟩ := perTask_eq_nil hc ht
  rw [checkParent, hp] at hi
  by_cases hk : known spec p = true
  · exact List.contains_iff_mem.mp hk
  · have : (!known spec p) = true := by simp [hk]
    simp only [this, if_true] at hi
    cases hi

theorem TemplateValid.parent_other (ht : t ∈ spec.tasks) (hp : t.parent = some p) : p ≠ t.key := by
  have hc := h.checks.parents
  have hk := h.parent_known ht hp
  obtain ⟨i, hi⟩ := perTask_eq_nil hc ht
  rw [checkParent, hp] at hi
  have hknown : (!known spec p) = false := by
    rw [known, List.contains_iff_mem.mpr hk]
    rfl
  intro he
  simp only [hknown, Bool.false_eq_true, if_false, if_pos he] at hi
  cases hi

/-- A relative schedule is anchored to another task of the spec. -/
theorem TemplateValid.anchor_known (ht : t ∈ spec.tasks) {a : String}
    (ha : anchorKey t = some a) : a ∈ spec.keys ∧ a ≠ t.key := by
  have hc := h.checks.anchors
  obtain ⟨i, hi⟩ := perTask_eq_nil hc ht
  rw [checkAnchor, ha] at hi
  by_cases hk : known spec a = true
  · refine ⟨List.contains_iff_mem.mp hk, ?_⟩
    intro he
    simp only [hk, Bool.not_true, Bool.false_eq_true, if_false, if_pos he] at hi
    cases hi
  · have hk' : (!known spec a) = true := by simp [hk]
    simp only [hk', if_true] at hi
    cases hi

theorem TemplateValid.summary_unscheduled (ht : t ∈ spec.tasks)
    (hchildren : hasChildren spec t.key = true) : t.schedule = none := by
  have hc := h.checks.summaryParents
  obtain ⟨i, hi⟩ := perTask_eq_nil hc ht
  rw [checkSummaryParent, hchildren] at hi
  simp only [Bool.not_true, Bool.false_eq_true, if_false, List.append_eq_nil_iff] at hi
  cases hs : t.schedule with
  | none => rfl
  | some s =>
    rw [hs] at hi
    simp only [Option.isSome_some, if_true] at hi
    cases hi.1

theorem TemplateValid.no_anchor_cycle : hasCycle (anchorAdjacency spec) = false := by
  have hc := h.checks.anchorCycle
  rw [checkAnchorCycle] at hc
  split at hc
  · cases hc
  · rename_i hno
    simpa using hno

theorem TemplateValid.no_parent_cycle : hasCycle (parentAdjacency spec) = false := by
  have hc := h.checks.parentCycle
  rw [checkParentCycle] at hc
  split at hc
  · cases hc
  · rename_i hno
    simpa using hno

theorem TemplateValid.foreach_source_known (ht : t ∈ spec.tasks)
    {fe : ForeachConfig} (hfe : t.foreach = some fe) : fe.source ∈ spec.keys := by
  have hc := h.checks.foreach
  obtain ⟨i, hi⟩ := perTask_eq_nil hc ht
  rw [checkForeach, hfe] at hi
  have hsrc := append_eq_nil_left (append_eq_nil_left hi)
  rw [checkForeachSource] at hsrc
  by_cases hk : known spec fe.source = true
  · exact List.contains_iff_mem.mp hk
  · have : (!known spec fe.source) = true := by simp [hk]
    simp only [this, if_true] at hsrc
    cases hsrc

end Valid

end WfValidate
