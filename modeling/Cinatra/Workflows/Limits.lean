import Cinatra.Lib.JsonPaths
import Cinatra.Workflows.Host
import Cinatra.Lib.CodeUnits

/-! # Limits — the resource limits of a specification

    `checkLimits` reads the specification as the JSON value it is.  Its depth walker
    starts to count again below every key `template`, though only a task's
    `foreach.template` is a specification of its own.  So the nesting limit holds of
    exactly the accepted specifications whose other `template` subtrees fit where they
    stand (`nesting_bound_iff_templates_fit`); three of them in an agent's input pass
    twelve levels (`template_keys_pass_twelve_levels`). -/

namespace WfLimits

open JsonValue WfHost

def maxTasks : Nat := 200
def maxDependencies : Nat := 1000
def maxApprovals : Nat := 100
def maxTitleLength : Nat := 200
def maxInputBytes : Nat := 32768
def maxJsonDepth : Nat := 10
def maxTotalSpecBytes : Nat := 262144
def maxOffsetDays : Nat := 365

structure StructuredSpecError where
  code : String
  message : String
  path : Option String
  limit : Nat
  actual : Nat

/-- An ISO duration in seconds, a year as 365 days and a month as 30; `none` for a
    malformed one.  The source keeps the same number as a fraction of days. -/
def iso8601DurationToApproxSeconds (duration : String) : Option Nat :=
  (parseIsoDuration duration).map (fun p =>
    (p.years * 365 + p.months * 30 + p.weeks * 7 + p.days) * 86400 +
      p.hours * 3600 + p.minutes * 60 + p.seconds)

/-- `days > maxOffsetDays`. -/
def overDays (seconds : Nat) : Bool := decide (maxOffsetDays * 86400 < seconds)

/-- `Math.round(days)`. -/
def roundDays (seconds : Nat) : Nat := (2 * seconds + 86400) / (2 * 86400)

mutual
/-- The depth of a value met at level `current`; a `template` that is an object or an
    array starts over at one. -/
def jsonDepth (current : Nat) : Json → Nat
  | .arr xs => itemsDepth current xs
  | .obj fs => fieldsDepth current fs
  | _ => current

/-- The maximum over the items of an array met at level `current`. -/
def itemsDepth (current : Nat) : List Json → Nat
  | [] => current
  | x :: xs => max (jsonDepth (current + 1) x) (itemsDepth current xs)

/-- The maximum over the fields of an object met at level `current`. -/
def fieldsDepth (current : Nat) : List (String × Json) → Nat
  | [] => current
  | (k, x) :: fs =>
    max (jsonDepth (if k = "template" ∧ x.isContainer then 1 else current + 1) x)
      (fieldsDepth current fs)
end

/-! ## `checkLimits` -/

/-- `Buffer.byteLength(JSON.stringify(value), "utf8")`. -/
def byteLength (value : Json) : Nat := (print value).foldl (fun n c => n + c.utf8Size) 0

/-- `s.length`. -/
def textLength (s : String) : Nat := (CodeUnits.units s).length

/-- A text field, the empty text where there is none. -/
def textField (name : String) (v : Json) : String :=
  ((v.field? name).bind Json.str?).getD ""

/-- The items of a list field, none where there is no list. -/
def listField (name : String) (v : Json) : List Json :=
  ((v.field? name).bind Json.arr?).getD []

/-- One error where a number is over its limit. -/
def overLimit (code : String) (message : Nat → String) (path : Option String)
    (limit actual : Nat) : List StructuredSpecError :=
  if limit < actual then [⟨code, message actual, path, limit, actual⟩] else []

def quoteKey (t : Json) : String := "\"" ++ textField "key" t ++ "\""

def taskPath (i : Nat) (field : String) : Option String :=
  some ("tasks[" ++ toString i ++ "]." ++ field)

def checkTitle (i : Nat) (t : Json) : List StructuredSpecError :=
  overLimit "TITLE_TOO_LONG" (fun n => "Task " ++ quoteKey t ++ " title is " ++ toString n ++
      " chars; the maximum is " ++ toString maxTitleLength ++ ".")
    (taskPath i "title") maxTitleLength (textLength (textField "title" t))

def checkInput (i : Nat) (t : Json) : List StructuredSpecError :=
  match t.field? "input" with
  | none => []
  | some input =>
    if textField "type" t = "agent_task" then
      overLimit "INPUT_TOO_LARGE" (fun n => "Task " ++ quoteKey t ++ " input is " ++
          toString n ++ " bytes; the maximum is " ++ toString maxInputBytes ++
          ". Reference documents/artifacts instead of embedding them.")
        (taskPath i "input") maxInputBytes (byteLength input)
    else []

/-- The cap of one duration field of a schedule. -/
def checkDuration (code what : String) (i : Nat) (t : Json) (field : String) :
    List StructuredSpecError :=
  let text := textField field ((t.field? "schedule").getD .null)
  match iso8601DurationToApproxSeconds text with
  | none => []
  | some s =>
    if overDays s then
      [⟨code, "Task " ++ quoteKey t ++ " " ++ what ++ " is ~" ++ toString (roundDays s) ++
        " days; the maximum is " ++ toString maxOffsetDays ++ ".",
        taskPath i ("schedule." ++ field), maxOffsetDays, roundDays s⟩]
    else []

def checkOffset (i : Nat) (t : Json) : List StructuredSpecError :=
  if textField "mode" ((t.field? "schedule").getD .null) = "relative" then
    checkDuration "OFFSET_TOO_LARGE" "schedule offset" i t "offsetIso8601"
  else []

def checkBar (i : Nat) (t : Json) : List StructuredSpecError :=
  checkDuration "DURATION_TOO_LARGE" "bar duration" i t "durationIso8601"

def checkTask (i : Nat) (t : Json) : List StructuredSpecError :=
  checkTitle i t ++ checkInput i t ++ checkOffset i t ++ checkBar i t

section Checks

variable (spec : Json)

def tasks : List Json := listField "tasks" spec

def depCount : Nat := (tasks spec).foldl (fun n t => n + (listField "dependsOn" t).length) 0

def approvalCount : Nat :=
  ((tasks spec).filter (fun t => textField "type" t = "approval")).length

/-- The errors of a specification that is over a limit; none when it is within all. -/
def checkLimits : List StructuredSpecError :=
  overLimit "TOO_MANY_TASKS" (fun n => "Workflow has " ++ toString n ++
    " tasks; the maximum is " ++ toString maxTasks ++ ".") none maxTasks (tasks spec).length ++
  overLimit "TOO_MANY_DEPENDENCIES" (fun n => "Workflow has " ++ toString n ++
    " dependencies; the maximum is " ++ toString maxDependencies ++ ".") none
    maxDependencies (depCount spec) ++
  overLimit "TOO_MANY_APPROVALS" (fun n => "Workflow has " ++ toString n ++
    " approval tasks; the maximum is " ++ toString maxApprovals ++ ".") none
    maxApprovals (approvalCount spec) ++
  (tasks spec).zipIdx.flatMap (fun e => checkTask e.2 e.1) ++
  overLimit "JSON_TOO_DEEP" (fun n => "Spec JSON nests " ++ toString n ++
    " levels deep; the maximum is " ++ toString maxJsonDepth ++ ".") none
    maxJsonDepth (jsonDepth 1 spec) ++
  overLimit "SPEC_TOO_LARGE" (fun n => "Spec is " ++ toString n ++
    " bytes; the maximum is " ++ toString maxTotalSpecBytes ++ ".") none
    maxTotalSpecBytes (byteLength spec)

end Checks

/-- A specification within the limits. -/
def Accepted (spec : Json) : Prop := checkLimits spec = []

instance (spec : Json) : Decidable (Accepted spec) :=
  inferInstanceAs (Decidable (checkLimits spec = []))

/-- An accepted specification is measured at most `maxJsonDepth` deep. -/
theorem Accepted.jsonDepth_le {spec : Json} (h : Accepted spec) :
    jsonDepth 1 spec ≤ maxJsonDepth := by
  have hdepth : overLimit "JSON_TOO_DEEP" (fun n => "Spec JSON nests " ++ toString n ++
      " levels deep; the maximum is " ++ toString maxJsonDepth ++ ".") none
      maxJsonDepth (jsonDepth 1 spec) = [] := by
    simp only [Accepted, checkLimits, List.append_eq_nil_iff] at h
    exact h.1.2
  rw [overLimit] at hdepth
  by_cases hlt : maxJsonDepth < jsonDepth 1 spec
  · rw [if_pos hlt] at hdepth
    cases hdepth
  · omega

/-! ## Where the counter starts over -/

theorem le_itemsDepth (c : Nat) (xs : List Json) : c ≤ itemsDepth c xs := by
  induction xs with
  | nil => exact Nat.le_refl _
  | cons x xs ih => rw [itemsDepth]; exact Nat.le_trans ih (Nat.le_max_right _ _)

theorem le_fieldsDepth (c : Nat) (fs : List (String × Json)) : c ≤ fieldsDepth c fs := by
  induction fs with
  | nil => exact Nat.le_refl _
  | cons f fs ih =>
    obtain ⟨k, x⟩ := f
    rw [fieldsDepth]
    exact Nat.le_trans ih (Nat.le_max_right _ _)

theorem le_jsonDepth (c : Nat) (v : Json) : c ≤ jsonDepth c v := by
  cases v with
  | arr xs => rw [jsonDepth]; exact le_itemsDepth c xs
  | obj fs => rw [jsonDepth]; exact le_fieldsDepth c fs
  | null | bool | num | str => exact Nat.le_refl _

variable {w : Json}

theorem jsonDepth_item {c : Nat} {xs : List Json} (h : w ∈ xs) :
    jsonDepth (c + 1) w ≤ jsonDepth c (.arr xs) := by
  show jsonDepth (c + 1) w ≤ itemsDepth c xs
  induction xs with
  | nil => cases h
  | cons x xs ih =>
    rw [itemsDepth]
    rcases List.mem_cons.mp h with rfl | h
    · exact Nat.le_max_left _ _
    · exact Nat.le_trans (ih h) (Nat.le_max_right _ _)

theorem jsonDepth_field {c : Nat} {fs : List (String × Json)} {k : String} (h : (k, w) ∈ fs) :
    jsonDepth (if k = "template" ∧ w.isContainer then 1 else c + 1) w ≤ jsonDepth c (.obj fs) := by
  show jsonDepth (if k = "template" ∧ w.isContainer then 1 else c + 1) w ≤ fieldsDepth c fs
  induction fs with
  | nil => cases h
  | cons f fs ih =>
    obtain ⟨l, x⟩ := f
    rw [fieldsDepth]
    rcases List.mem_cons.mp h with he | h
    · obtain ⟨rfl, rfl⟩ := Prod.mk.inj he
      exact Nat.le_max_left _ _
    · exact Nat.le_trans (ih h) (Nat.le_max_right _ _)

variable {p : List Step}

/-- **The walker counts along a path**, unless the path enters a `template`. -/
theorem depth_along {v u : Json} (h : Reaches v p u) (c : Nat) : c + p.length ≤ jsonDepth c v ∨
      ∃ (q r : List Step) (w : Json), p = q ++ [.field "template"] ++ r ∧
        Reaches v (q ++ [.field "template"]) w ∧ Reaches w r u ∧ w.isContainer = true := by
  induction h generalizing c with
  | here v => exact .inl (le_jsonDepth c v)
  | field hmem hrest ih =>
    rename_i fs k w u p
    by_cases ht : k = "template" ∧ w.isContainer = true
    · obtain ⟨rfl, hw⟩ := ht
      exact .inr ⟨[], p, w, rfl, .field hmem (.here w), hrest, hw⟩
    have hstep := jsonDepth_field (c := c) hmem
    rw [if_neg ht] at hstep
    rcases ih (c + 1) with hle | ⟨q, r, x, hp, hx, hr, hc⟩
    · refine .inl ?_
      rw [List.length_cons]
      omega
    · exact .inr ⟨.field k :: q, r, x, by rw [hp]; rfl, .field hmem hx, hr, hc⟩
  | item hget hrest ih =>
    rename_i xs i w u p
    have hstep := jsonDepth_item (c := c) (List.mem_of_getElem? hget)
    rcases ih (c + 1) with hle | ⟨q, r, x, hp, hx, hr, hc⟩
    · refine .inl ?_
      rw [List.length_cons]
      omega
    · exact .inr ⟨.item i :: q, r, x, by rw [hp]; rfl, .item hget hx, hr, hc⟩

/-- Where the foreach template of the task at `i` stands. -/
def templatePath (i : Nat) : List Step :=
  [.field "tasks", .item i, .field "foreach", .field "template"]

theorem jsonDepth_template {spec t : Json} {i : Nat} (h : Reaches spec (templatePath i) t)
    (ht : t.isContainer = true) : jsonDepth 1 t ≤ jsonDepth 1 spec := by
  obtain ⟨fe, hfe, hlast⟩ :=
    Reaches.split (p := [.field "tasks", .item i, .field "foreach"]) (q := [.field "template"]) h
  have hinner : jsonDepth 1 t ≤ jsonDepth 4 fe := by
    cases hlast with
    | field hmem hend =>
      cases hend
      have hstep := jsonDepth_field (c := 4) hmem
      rwa [if_pos ⟨rfl, ht⟩] at hstep
  cases hfe with
  | field htasks hfe =>
    cases hfe with
    | item htask hfe =>
      cases hfe with
      | field hforeach hfe =>
        cases hfe
        have h₁ := jsonDepth_field (c := 1) htasks
        have h₂ := jsonDepth_item (c := 2) (List.mem_of_getElem? htask)
        have h₃ := jsonDepth_field (c := 3) hforeach
        rw [if_neg (by rintro ⟨he, -⟩; revert he; decide)] at h₁ h₃
        simp only [Nat.reduceAdd] at h₁ h₂ h₃
        omega

/-! ## The nesting limit -/

/-- The path stays outside every foreach template. -/
def Outside (p : List Step) : Prop := ∀ i, ¬ templatePath i <+: p

/-- Nothing outside the foreach templates, and nothing within one, is too deep. -/
def NestingBound (spec : Json) : Prop :=
  (∀ p u, Reaches spec p u → Outside p → p.length + 1 ≤ maxJsonDepth) ∧
  ∀ i t, Reaches spec (templatePath i) t → ∀ p u, Reaches t p u → p.length + 1 ≤ maxJsonDepth

/-- The object or array under the `template` at `p` has room for its own levels there. -/
def Fits (v : Json) (p : List Step) : Prop :=
  ∀ w, Reaches v (p ++ [.field "template"]) w → w.isContainer = true →
    p.length + 1 + nesting w ≤ maxJsonDepth

/-- Every `template` that is no task's foreach template fits where it stands, in the
    specification or in the foreach template around it. -/
def StrayTemplatesFit (spec : Json) : Prop :=
  (∀ p, Outside (p ++ [.field "template"]) → Fits spec p) ∧
  ∀ i t, Reaches spec (templatePath i) t → ∀ p, Fits t p

theorem Outside.prefix {p q : List Step} (h : Outside (p ++ q)) : Outside p :=
  fun i hi => h i (hi.trans (List.prefix_append p q))

theorem Outside.below (h : Outside (p ++ [.field "template"]))
    (r : List Step) : Outside (p ++ [.field "template"] ++ r) := by
  intro i hi
  rcases List.prefix_or_prefix_of_prefix hi (List.prefix_append (p ++ [.field "template"]) r) with
    hin | ⟨s, hs⟩
  · exact h i hin
  cases s with
  | nil =>
    rw [List.append_nil] at hs
    exact h i (hs ▸ List.prefix_rfl)
  | cons a s =>
    rcases p with _ | ⟨a, _ | ⟨b, _ | ⟨c, p⟩⟩⟩
    · exact absurd hs (by simp [templatePath])
    · exact absurd hs (by simp [templatePath])
    · exact absurd hs (by simp [templatePath])
    · exact absurd (congrArg List.length hs) (by simp [templatePath]; omega)

/-- A value measured within the limit is within it along every path that enters no
    `template`, and along the others where that `template` fits. -/
theorem path_bounded {v u : Json} (hv : jsonDepth 1 v ≤ maxJsonDepth) (h : Reaches v p u)
    (hfits : ∀ q r, p = q ++ [.field "template"] ++ r → Fits v q) :
    p.length + 1 ≤ maxJsonDepth := by
  rcases depth_along h 1 with hle | ⟨q, r, w, hp, hw, hr, hc⟩
  · omega
  · have hfit := hfits q r hp w hw hc
    have hlt := hr.length_lt
    rw [hp, List.length_append, List.length_append, List.length_singleton]
    omega

/-- A bound on every path below a `template` is a bound on its own levels. -/
theorem fits_of_paths {v : Json} (h : ∀ r u, Reaches v (p ++ [Step.field "template"] ++ r) u →
      (p ++ [Step.field "template"] ++ r).length + 1 ≤ maxJsonDepth) : Fits v p := by
  intro w hw _
  obtain ⟨r, u, hr, hlen⟩ := exists_reaches_nesting w
  have hle := h r u (hw.append hr)
  rw [List.length_append, List.length_append, List.length_singleton] at hle
  omega

/-- **When the nesting limit binds**: an accepted specification keeps it if and only if
    its stray `template` subtrees fit where they stand. -/
theorem nesting_bound_iff_templates_fit {spec : Json} (h : Accepted spec) :
    NestingBound spec ↔ StrayTemplatesFit spec := by
  constructor
  · rintro ⟨hout, hin⟩
    refine ⟨?_, ?_⟩
    · intro p hp
      exact fits_of_paths (fun r u hr => hout _ u hr (hp.below r))
    · intro i t ht p
      exact fits_of_paths (fun r u hr => hin i t ht _ u hr)
  · rintro ⟨hout, hin⟩
    refine ⟨?_, ?_⟩
    · intro p u hp hoff
      refine path_bounded h.jsonDepth_le hp ?_
      rintro q r rfl
      exact hout q hoff.prefix
    · intro i t ht p u hp
      by_cases hc : t.isContainer = true
      · have hle := jsonDepth_template ht hc
        exact path_bounded (Nat.le_trans hle h.jsonDepth_le) hp (fun q _ _ => hin i t ht q)
      · cases p with
        | nil => exact by decide
        | cons s p => exact absurd hp.container hc

/-! ## An input that picks its key names -/

/-- Objects within one another, each under a `template`. -/
def nestTemplates : Nat → Json
  | 0 => .obj []
  | n + 1 => .obj [("template", nestTemplates n)]

/-- One agent task whose input is `n` templates deep. -/
def draftSpec (n : Nat) : Json :=
  .obj [("name", .str "Launch"), ("tasks", .arr [.obj [("key", .str "draft"),
    ("title", .str "Draft the post"), ("type", .str "agent_task"),
    ("agentRef", .obj [("package", .str "@cinatra-ai/blog")]),
    ("input", nestTemplates n)]])]

def draftPath (n : Nat) : List Step :=
  [.field "tasks", .item 0, .field "input"] ++ List.replicate n (.field "template")

theorem reaches_nestTemplates (n : Nat) :
    Reaches (nestTemplates n) (List.replicate n (.field "template")) (.obj []) := by
  induction n with
  | zero => exact .here _
  | succ n ih =>
    rw [List.replicate_succ]
    exact .field (List.mem_singleton.mpr rfl) ih

theorem reaches_draft (n : Nat) : Reaches (draftSpec n) (draftPath n) (.obj []) := by
  refine .field (k := "tasks") (.tail _ (List.mem_singleton.mpr rfl)) ?_
  refine .item (i := 0) rfl ?_
  refine .field (k := "input") (w := nestTemplates n) ?_ (reaches_nestTemplates n)
  simp

theorem outside_draft (n : Nat) : Outside (draftPath n) := by
  rintro i ⟨s, hs⟩
  simp [templatePath, draftPath] at hs

theorem draft_accepted : Accepted (draftSpec 8) := by decide +kernel

/-- **Twelve levels pass**: eight templates in an agent's input. -/
theorem template_keys_pass_twelve_levels :
    Accepted (draftSpec 8) ∧ ¬ NestingBound (draftSpec 8) := by
  refine ⟨draft_accepted, ?_⟩
  rintro ⟨hout, -⟩
  have hle := hout (draftPath 8) _ (reaches_draft 8) (outside_draft 8)
  exact absurd hle (by decide)

theorem nesting_bound_iff_at_draft :
    Accepted (draftSpec 2) ∧ (NestingBound (draftSpec 2) ↔ StrayTemplatesFit (draftSpec 2)) := by
  have hacc : Accepted (draftSpec 2) := by decide +kernel
  exact ⟨hacc, nesting_bound_iff_templates_fit hacc⟩

end WfLimits
