import Cinatra.Extensions.DependencyClosure
import Cinatra.Lib.Loop
import Cinatra.Lib.OrderedMap
import Cinatra.Lib.Records

/-! # ManifestEdges — the dependency edges of a manifest

    A manifest declares its dependencies in `cinatra.dependencies`, and an older one in
    the map `cinatra.agentDependencies`.  The reader takes the first where it is there,
    projects the second where it stands alone, and refuses a manifest where the first
    drops or weakens what the second names.  `manifest_dual_read`: nothing declared is
    lost. -/

namespace ExtManifest

open ExtCanonical ExtClosure JsonValue Loop

def edgeTypeText : DependencyEdgeType → String
  | .runtime => "runtime"
  | .installTime => "install-time"
  | .peer => "peer"

def requirementText : DependencyRequirement → String
  | .required => "required"
  | .optional => "optional"

def kindText : ExtensionKind → String
  | .agent => "agent"
  | .connector => "connector"
  | .artifact => "artifact"
  | .skill => "skill"
  | .workflow => "workflow"

/-- `DEPENDENCY_EDGE_TYPES`. -/
def dependencyEdgeTypes : List DependencyEdgeType := [.runtime, .installTime, .peer]

/-- `DEPENDENCY_REQUIREMENTS`. -/
def dependencyRequirements : List DependencyRequirement := [.required, .optional]

/-- `EXTENSION_KINDS`. -/
def extensionKinds : List ExtensionKind := [.agent, .connector, .artifact, .skill, .workflow]

/-! ## One entry -/

/-- A non-empty string. -/
def nonEmptyString (v : Option Json) : Option String := (v.bind Json.str?).filter (fun s => s ≠ "")

/-- The value a text is the name of. -/
def named {β : Type} (values : List β) (text : β → String) (v : Option Json) : Option β :=
  (v.bind Json.str?).bind (fun s => values.find? (fun b => text b = s))

/-- A field, or its problem. -/
def fieldOf {β : Type} (value : Option β) (problem : String) : Except String β :=
  match value with
  | some b => .ok b
  | none => .error problem

def oneOf {β : Type} (values : List β) (text : β → String) : String :=
  String.intercalate "|" (values.map text)

def packageNameField (ownPackageName : Option Json) (v : Option Json) : Except String String :=
  match nonEmptyString v with
  | none => .error "packageName must be a non-empty string"
  | some name =>
    if ownPackageName.any jsTruthy ∧ ownPackageName = some (.str name) then
      .error "self-edge (a package cannot depend on itself)"
    else .ok name

def kindField (v : Option Json) : Except String (Option ExtensionKind) :=
  match v with
  | none => .ok none
  | some _ =>
    match named extensionKinds kindText v with
    | some kind => .ok (some kind)
    | none => .error ("kind, when present, must be one of " ++ oneOf extensionKinds kindText)

/-- The text that a version constraint of some kind has to have. -/
def constraintText (vc : Json) (field : String) (make : String → VersionConstraint) :
    Except String VersionConstraint :=
  fieldOf ((nonEmptyString (vc.field? field)).map make)
    ("versionConstraint." ++ field ++ " must be a non-empty string")

/-- `typeof v === "object"`, of a value that is not null. -/
def isObject : Json → Bool
  | .obj _ => true
  | .arr _ => true
  | _ => false

def constraintField (v : Option Json) : Except String VersionConstraint :=
  match v.filter isObject with
  | none => .error "versionConstraint must be an object"
  | some vc =>
    let kind := (vc.field? "kind").bind Json.str?
    if kind = some "semver-range" then constraintText vc "range" .semverRange
    else if kind = some "exact" then constraintText vc "version" .exact
    else if kind = some "git-ref" then constraintText vc "ref" .gitRef
    else .error "versionConstraint.kind must be one of semver-range|exact|git-ref"

def problemOf {β : Type} : Except String β → List String
  | .ok _ => []
  | .error problem => [problem]

/-- An entry as the edge it is, or what is wrong with it. -/
def readDependency (ownPackageName : Option Json) (v : Json) :
    Except (List String) ExtensionDependency :=
  if v.isObj then
    let packageName := packageNameField ownPackageName (v.field? "packageName")
    let edgeType := fieldOf (named dependencyEdgeTypes edgeTypeText (v.field? "edgeType"))
      ("edgeType must be one of " ++ oneOf dependencyEdgeTypes edgeTypeText)
    let requirement :=
      fieldOf (named dependencyRequirements requirementText (v.field? "requirement"))
        ("requirement must be one of " ++ oneOf dependencyRequirements requirementText)
    let kind := kindField (v.field? "kind")
    let versionConstraint := constraintField (v.field? "versionConstraint")
    match packageName, edgeType, requirement, kind, versionConstraint with
    | .ok packageName, .ok edgeType, .ok requirement, .ok kind, .ok versionConstraint =>
      .ok ⟨packageName, kind, edgeType, versionConstraint, requirement⟩
    | _, _, _, _, _ =>
      .error (problemOf packageName ++ problemOf edgeType ++ problemOf requirement ++
        problemOf kind ++ problemOf versionConstraint)
  else .error ["entry is not an object"]

/-- `validateExtensionDependencyShape`. -/
def validateExtensionDependencyShape (v : Json) (ownPackageName : Option Json) : List String :=
  match readDependency ownPackageName v with
  | .ok _ => []
  | .error problems => problems

/-! ## The manifest -/

inductive ManifestErrorCode where
  | malformed | conflict
deriving DecidableEq

structure ManifestDependencyError where
  code : ManifestErrorCode
  message : String
deriving DecidableEq

inductive EdgeSource where
  | canonical | legacyAgent | none
deriving DecidableEq

structure ManifestDependencyReadResult where
  edges : List ExtensionDependency
  source : EdgeSource
deriving DecidableEq

def malformed (message : String) : ManifestDependencyError := ⟨.malformed, message⟩

/-- `typeof v`, with `null` and arrays told apart where the messages do. -/
def typeOf : Json → String
  | .null => "null"
  | .bool _ => "boolean"
  | .num _ => "number"
  | .str _ => "string"
  | .arr _ => "object"
  | .obj _ => "object"

def legacyTypeOf : Json → String
  | .arr _ => "array"
  | v => typeOf v

section Read

variable (pkgName : Option Json) (label : String)

def readEntry (edges : List ExtensionDependency) (entry : Json) :
    Except ManifestDependencyError (List ExtensionDependency) :=
  match readDependency pkgName entry with
  | .error problems => .error (malformed (label ++ ": malformed cinatra.dependencies entry " ++
      String.ofList (print entry) ++ " — " ++ String.intercalate "; " problems ++ "."))
  | .ok dep =>
    if dep.packageName ∈ edges.map ExtensionDependency.packageName then
      .error (malformed (label ++ ": duplicate cinatra.dependencies entry for " ++
        dep.packageName ++ "."))
    else .ok (edges ++ [dep])

/-- The canonical array; an absent key declares nothing. -/
def readCanonical : Option Json → Except ManifestDependencyError (Option (List ExtensionDependency))
  | none => .ok none
  | some (.arr entries) => (entries.foldlM (readEntry pkgName label) []).map some
  | some v => .error (malformed (label ++ ": cinatra.dependencies must be an array (got " ++
      typeOf v ++ "); declare \"no dependencies\" as []."))

def readLegacyEntry (legacy : OrderedMap String String) (e : String × Json) :
    Except ManifestDependencyError (OrderedMap String String) :=
  match (if e.1 = "" then none else nonEmptyString (some e.2)) with
  | none => .error (malformed (label ++ ": malformed cinatra.agentDependencies entry " ++
      String.ofList (print (.obj [e])) ++ " — both name and range must be non-empty strings."))
  | some range =>
    if pkgName.any jsTruthy ∧ pkgName = some (.str e.1) then
      .error (malformed (label ++
        ": cinatra.agentDependencies self-edge (a package cannot depend on itself)."))
    else .ok (OrderedMap.set e.1 range legacy)

/-- The legacy map, by name. -/
def readLegacy : Option Json → Except ManifestDependencyError (Option (OrderedMap String String))
  | none => .ok none
  | some (.obj fields) => (fields.foldlM (readLegacyEntry pkgName label) []).map some
  | some v => .error (malformed (label ++
      ": cinatra.agentDependencies must be a \x7b name: range \x7d map (got " ++
      legacyTypeOf v ++ ")."))

/-- What is wrong with the canonical array, of a name in the legacy map. -/
def conflictOf (canonical : List ExtensionDependency) (name : String) : Option String :=
  match canonical.find? (fun d => d.packageName = name) with
  | none => some (name ++
      " is declared in cinatra.agentDependencies but missing from cinatra.dependencies")
  | some c =>
    if c.requirement ≠ .required ∨ c.edgeType = .peer then
      some (name ++ " is a required runtime edge in cinatra.agentDependencies but declared " ++
        edgeTypeText c.edgeType ++ "/" ++ requirementText c.requirement ++
        " in cinatra.dependencies")
    else none

def conflictError (conflicts : List String) : ManifestDependencyError :=
  ⟨.conflict, label ++ ": cinatra.dependencies and legacy cinatra.agentDependencies disagree — " ++
    String.intercalate "; " conflicts ++ ". Fix the manifest (the canonical " ++
    "cinatra.dependencies array is the source of truth; the legacy map may only restate a " ++
    "subset of its required runtime/install-time edges)."⟩

/-- A legacy entry as an edge. -/
def projected (e : String × String) : ExtensionDependency :=
  ⟨e.1, none, .runtime, .semverRange e.2, .required⟩

/-- The two vocabularies put together. -/
def resolveEdges (canonical : Option (List ExtensionDependency))
    (legacy : Option (OrderedMap String String)) :
    Except ManifestDependencyError ManifestDependencyReadResult :=
  match canonical with
  | some edges =>
    let conflicts := (OrderedMap.keys (legacy.getD [])).filterMap (conflictOf edges)
    if conflicts = [] then .ok ⟨edges, .canonical⟩ else .error (conflictError label conflicts)
  | none =>
    let entries := legacy.getD []
    if entries = [] then .ok ⟨[], .none⟩ else .ok ⟨entries.map projected, .legacyAgent⟩

end Read

/-- The name a manifest is read under. -/
def ownName (packageName : Option String) (manifest : Json) : Option Json :=
  match packageName with
  | some name => some (.str name)
  | none => manifest.field? "name"

def labelOf (pkgName : Option Json) : String :=
  match pkgName with
  | none => "(unknown package)"
  | some .null => "(unknown package)"
  | some v => toText v

def canonicalRaw (manifest : Json) : Option Json :=
  (manifest.field? "cinatra").bind (fun cinatra => cinatra.field? "dependencies")

def legacyRaw (manifest : Json) : Option Json :=
  (manifest.field? "cinatra").bind (fun cinatra => cinatra.field? "agentDependencies")

def parseManifestDependencyEdges (manifest : Json) (packageName : Option String) :
    Except ManifestDependencyError ManifestDependencyReadResult :=
  let pkgName := ownName packageName manifest
  let label := labelOf pkgName
  do
    let canonical ← readCanonical pkgName label (canonicalRaw manifest)
    let legacy ← readLegacy pkgName label (legacyRaw manifest)
    resolveEdges label canonical legacy

/-! ## What an entry declares -/

/-- The kind, the field and the text of a version constraint. -/
def constraintParts : VersionConstraint → String × String × String
  | .semverRange range => ("semver-range", "range", range)
  | .exact version => ("exact", "version", version)
  | .gitRef ref => ("git-ref", "ref", ref)

/-- An entry's own type, requirement and constraint are those of the edge. -/
structure Declares (v : Json) (dep : ExtensionDependency) : Prop where
  packageName : v.field? "packageName" = some (.str dep.packageName)
  kind : v.field? "kind" = dep.kind.map (fun k => .str (kindText k))
  edgeType : v.field? "edgeType" = some (.str (edgeTypeText dep.edgeType))
  requirement : v.field? "requirement" = some (.str (requirementText dep.requirement))
  constraint : ∃ vc, v.field? "versionConstraint" = some vc ∧
    vc.field? "kind" = some (.str (constraintParts dep.versionConstraint).1) ∧
    vc.field? (constraintParts dep.versionConstraint).2.1 =
      some (.str (constraintParts dep.versionConstraint).2.2)

variable {pkgName : Option Json} {label : String}

variable {v : Option Json} {s : String}

theorem str?_eq_some : v.bind Json.str? = some s ↔ v = some (.str s) := by
  cases v with
  | none => simp
  | some v => cases v <;> simp [Json.str?]

theorem nonEmptyString_eq_some : nonEmptyString v = some s ↔ v = some (.str s) ∧ s ≠ "" := by
  rw [nonEmptyString, Option.filter_eq_some_iff, str?_eq_some, decide_eq_true_eq]

variable {β : Type}

theorem fieldOf_ok {value : Option β} {problem : String} {b : β} :
    fieldOf value problem = .ok b ↔ value = some b := by
  cases value <;> simp [fieldOf]

theorem named_eq_some {values : List β} {text : β → String} {b : β}
    (h : named values text v = some b) : v = some (.str (text b)) := by
  rw [named, Option.bind_eq_some_iff] at h
  obtain ⟨s, hs, hfind⟩ := h
  have htext : text b = s := by simpa using List.find?_some hfind
  rw [htext]
  exact str?_eq_some.mp hs

variable {name : String}

theorem packageNameField_ok (h : packageNameField pkgName v = .ok name) :
    v = some (.str name) ∧ name ≠ "" ∧ pkgName ≠ some (.str name) := by
  rw [packageNameField] at h
  cases hname : nonEmptyString v with
  | none =>
    rw [hname] at h
    cases h
  | some s =>
    rw [hname] at h
    obtain ⟨hv, hne⟩ := nonEmptyString_eq_some.mp hname
    simp only at h
    split at h
    · cases h
    next hself =>
      obtain rfl := Except.ok.inj h
      refine ⟨hv, hne, fun howner => hself ⟨?_, howner⟩⟩
      rw [howner]
      exact bne_iff_ne.mpr hne

theorem kindField_ok {kind : Option ExtensionKind}
    (h : kindField v = .ok kind) : v = kind.map (fun k => .str (kindText k)) := by
  cases v with
  | none =>
    obtain rfl := Except.ok.inj h
    rfl
  | some v =>
    rw [kindField] at h
    cases hnamed : named extensionKinds kindText (some v) with
    | none =>
      rw [hnamed] at h
      cases h
    | some k =>
      rw [hnamed] at h
      obtain rfl := Except.ok.inj h
      exact named_eq_some hnamed

variable {c : VersionConstraint}

theorem constraintText_ok {vc : Json} {field : String} {make : String → VersionConstraint}
    (h : constraintText vc field make = .ok c) :
    ∃ s, c = make s ∧ vc.field? field = some (.str s) := by
  obtain ⟨s, hs, rfl⟩ := Option.map_eq_some_iff.mp (fieldOf_ok.mp h)
  exact ⟨s, rfl, (nonEmptyString_eq_some.mp hs).1⟩

theorem constraintField_ok (h : constraintField v = .ok c) : ∃ vc, v = some vc ∧
      vc.field? "kind" = some (.str (constraintParts c).1) ∧
      vc.field? (constraintParts c).2.1 = some (.str (constraintParts c).2.2) := by
  rw [constraintField] at h
  cases hobj : v.filter isObject with
  | none =>
    rw [hobj] at h
    cases h
  | some vc =>
    rw [hobj] at h
    have hv : v = some vc := (Option.filter_eq_some_iff.mp hobj).1
    refine ⟨vc, hv, ?_⟩
    simp only at h
    split at h
    · next hkind =>
        obtain ⟨s, rfl, hs⟩ := constraintText_ok h
        exact ⟨str?_eq_some.mp hkind, hs⟩
    split at h
    · next hkind =>
        obtain ⟨s, rfl, hs⟩ := constraintText_ok h
        exact ⟨str?_eq_some.mp hkind, hs⟩
    split at h
    · next hkind =>
        obtain ⟨s, rfl, hs⟩ := constraintText_ok h
        exact ⟨str?_eq_some.mp hkind, hs⟩
    · cases h

variable {v : Json}

/-- **An entry that is read** declares the edge, which is none to the package itself. -/
theorem readDependency_ok {dep : ExtensionDependency} (h : readDependency pkgName v = .ok dep) :
    Declares v dep ∧ pkgName ≠ some (.str dep.packageName) := by
  rw [readDependency] at h
  split at h
  · simp only at h
    split at h
    · next hname htype hreq hkind hvc =>
        obtain rfl := Except.ok.inj h
        obtain ⟨hv, _, hself⟩ := packageNameField_ok hname
        exact ⟨⟨hv, kindField_ok hkind, named_eq_some (fieldOf_ok.mp htype),
          named_eq_some (fieldOf_ok.mp hreq), constraintField_ok hvc⟩, hself⟩
    · cases h
  · cases h

/-! ## The two lists -/

variable {edges : List ExtensionDependency}

theorem readEntry_ok {edges' : List ExtensionDependency}
    (h : readEntry pkgName label edges v = .ok edges') : ∃ dep, readDependency pkgName v = .ok dep ∧
      dep.packageName ∉ edges.map ExtensionDependency.packageName ∧ edges' = edges ++ [dep] := by
  rw [readEntry] at h
  cases hread : readDependency pkgName v with
  | error problems =>
    rw [hread] at h
    cases h
  | ok dep =>
    rw [hread] at h
    simp only at h
    split at h
    · cases h
    · next hnew => exact ⟨dep, rfl, hnew, (Except.ok.inj h).symm⟩

/-- The edges of a canonical array: no target twice, none to itself, one for each entry. -/
structure ReadsAll (pkgName : Option Json) (entries : List Json) (edges : List ExtensionDependency) :
    Prop where
  nodup : (edges.map ExtensionDependency.packageName).Nodup
  other : ∀ e ∈ edges, pkgName ≠ some (.str e.packageName)
  declared : ∀ v ∈ entries, ∃ e ∈ edges, Declares v e
  declaring : ∀ e ∈ edges, ∃ v ∈ entries, Declares v e

theorem ReadsAll.step {before : List Json} {edges edges' : List ExtensionDependency} {v : Json}
    (hone : readEntry pkgName label edges v = .ok edges') (h : ReadsAll pkgName before edges) :
    ReadsAll pkgName (before ++ [v]) edges' := by
  obtain ⟨dep, hread, hnew, rfl⟩ := readEntry_ok hone
  obtain ⟨hdeclares, hself⟩ := readDependency_ok hread
  refine ⟨?_, fun e he => ?_, fun w hw => ?_, fun e he => ?_⟩
  · rw [List.map_append]
    exact List.concat_eq_append ▸ h.nodup.concat hnew
  · rcases List.mem_append.mp he with he | he
    · exact h.other e he
    · exact List.mem_singleton.mp he ▸ hself
  · rcases List.mem_append.mp hw with hw | hw
    · obtain ⟨e, he, hd⟩ := h.declared w hw
      exact ⟨e, List.mem_append_left _ he, hd⟩
    · refine ⟨dep, List.mem_concat_self, ?_⟩
      exact List.mem_singleton.mp hw ▸ hdeclares
  · rcases List.mem_append.mp he with he | he
    · obtain ⟨w, hw, hd⟩ := h.declaring e he
      exact ⟨w, List.mem_append_left _ hw, hd⟩
    · refine ⟨v, List.mem_concat_self, ?_⟩
      exact List.mem_singleton.mp he ▸ hdeclares

theorem readLegacyEntry_ok {legacy legacy' : OrderedMap String String} {e : String × Json}
    (h : readLegacyEntry pkgName label legacy e = .ok legacy') :
    ∃ range, e.2 = .str range ∧ pkgName ≠ some (.str e.1) ∧
      legacy' = OrderedMap.set e.1 range legacy := by
  rw [readLegacyEntry] at h
  by_cases hempty : e.1 = ""
  · rw [if_pos hempty] at h
    cases h
  rw [if_neg hempty] at h
  cases hrange : nonEmptyString (some e.2) with
  | none =>
    rw [hrange] at h
    cases h
  | some range =>
    rw [hrange] at h
    simp only at h
    split at h
    · cases h
    next hself =>
      refine ⟨range, Option.some.inj (nonEmptyString_eq_some.mp hrange).1,
        fun howner => hself ⟨?_, howner⟩, (Except.ok.inj h).symm⟩
      rw [howner]
      exact bne_iff_ne.mpr hempty

/-- The legacy map: each name of the object, with a range that it has there. -/
structure ReadsMap (pkgName : Option Json) (fields : List (String × Json))
    (legacy : OrderedMap String String) : Prop where
  nodup : (OrderedMap.keys legacy).Nodup
  other : ∀ name ∈ OrderedMap.keys legacy, pkgName ≠ some (.str name)
  named : ∀ f ∈ fields, f.1 ∈ OrderedMap.keys legacy
  ranges : ∀ name range, OrderedMap.get? name legacy = some range → (name, .str range) ∈ fields

theorem ReadsMap.step {before : List (String × Json)} {legacy legacy' : OrderedMap String String}
    {f : String × Json} (hone : readLegacyEntry pkgName label legacy f = .ok legacy')
    (h : ReadsMap pkgName before legacy) : ReadsMap pkgName (before ++ [f]) legacy' := by
  obtain ⟨range, hrange, hself, rfl⟩ := readLegacyEntry_ok hone
  refine ⟨OrderedMap.nodup_keys_set h.nodup _ _, fun name hname => ?_, fun g hg => ?_,
    fun name r hget => ?_⟩
  · rcases OrderedMap.mem_keys_set.mp hname with rfl | hname
    · exact hself
    · exact h.other name hname
  · refine OrderedMap.mem_keys_set.mpr ?_
    rcases List.mem_append.mp hg with hg | hg
    · exact .inr (h.named g hg)
    · exact .inl (congrArg Prod.fst (List.mem_singleton.mp hg))
  · rw [OrderedMap.get?_set] at hget
    split at hget
    · next heq =>
        refine List.mem_append_right _ (List.mem_singleton.mpr ?_)
        rw [heq, ← Option.some.inj hget, ← hrange]
    · exact List.mem_append_left _ (h.ranges name r hget)

/-! ## Nothing declared is lost -/

/-- An entry that declares an edge an install waits for. -/
def DeclaresBlocking (v : Json) (name : String) : Prop :=
  v.field? "packageName" = some (.str name) ∧ v.field? "requirement" = some (.str "required") ∧
    (v.field? "edgeType" = some (.str "runtime") ∨ v.field? "edgeType" = some (.str "install-time"))

/-- The legacy map names a package that no entry of the array declares so. -/
def Disagrees (manifest : Json) : Prop :=
  ∃ entries fields, canonicalRaw manifest = some (.arr entries) ∧
    legacyRaw manifest = some (.obj fields) ∧ ∃ f ∈ fields, ∀ v ∈ entries, ¬ DeclaresBlocking v f.1

theorem Declares.blocking {e : ExtensionDependency} (h : Declares v e)
    (he : isInstallBlockingEdge e = true) : DeclaresBlocking v e.packageName := by
  rw [isInstallBlockingEdge, Bool.and_eq_true, decide_eq_true_eq, decide_eq_true_eq] at he
  have hreq := h.requirement
  have htype := h.edgeType
  rw [he.1] at hreq
  refine ⟨h.packageName, hreq, ?_⟩
  cases hedge : e.edgeType with
  | runtime =>
    rw [hedge] at htype
    exact .inl htype
  | installTime =>
    rw [hedge] at htype
    exact .inr htype
  | peer => exact absurd hedge he.2

theorem conflictOf_eq_none (h : conflictOf edges name = none) :
    ∃ e ∈ edges, e.packageName = name ∧ isInstallBlockingEdge e = true := by
  rw [conflictOf] at h
  cases hfind : edges.find? (fun d => d.packageName = name) with
  | none =>
    rw [hfind] at h
    cases h
  | some c =>
    rw [hfind] at h
    simp only at h
    split at h
    · cases h
    next hweak =>
      push Not at hweak
      refine ⟨c, List.mem_of_find?_eq_some hfind, by simpa using List.find?_some hfind, ?_⟩
      rw [isInstallBlockingEdge, decide_eq_true hweak.1, decide_eq_true hweak.2]
      rfl

variable {legacy : Option (OrderedMap String String)} {r : ManifestDependencyReadResult}

/-- Where the array is there it is the result, and the map restates a part of it. -/
theorem resolveEdges_canonical (h : resolveEdges label (some edges) legacy = .ok r) :
    r.edges = edges ∧ ∀ name ∈ OrderedMap.keys (legacy.getD []),
      ∃ e ∈ edges, e.packageName = name ∧ isInstallBlockingEdge e = true := by
  rw [resolveEdges] at h
  split at h
  · next hnone =>
      refine ⟨(congrArg ManifestDependencyReadResult.edges (Except.ok.inj h)).symm, ?_⟩
      intro name hname
      exact conflictOf_eq_none (List.filterMap_eq_nil_iff.mp hnone name hname)
  · cases h

theorem resolveEdges_legacy (h : resolveEdges label none legacy = .ok r) :
    r.edges = (legacy.getD []).map projected := by
  rw [resolveEdges] at h
  split at h
  · next hnil =>
      rw [hnil, ← Except.ok.inj h]
      rfl
  · rw [← Except.ok.inj h]

variable {raw : Option Json}

theorem readCanonical_ok {canonical : Option (List ExtensionDependency)}
    (h : readCanonical pkgName label raw = .ok canonical) : raw = none ∧ canonical = none ∨
      ∃ entries edges, raw = some (.arr entries) ∧ canonical = some edges ∧
        ReadsAll pkgName entries edges := by
  cases raw with
  | none => exact .inl ⟨rfl, (Except.ok.inj h).symm⟩
  | some v =>
    cases v with
    | null | bool | num | str | obj => cases h
    | arr entries =>
      rw [readCanonical] at h
      cases hrun : entries.foldlM (readEntry pkgName label) [] with
      | error err =>
        rw [hrun] at h
        cases h
      | ok edges =>
        rw [hrun] at h
        have hempty : ReadsAll pkgName [] [] :=
          ⟨List.nodup_nil, fun e he => absurd he List.not_mem_nil,
            fun v hv => absurd hv List.not_mem_nil, fun e he => absurd he List.not_mem_nil⟩
        exact .inr ⟨entries, edges, rfl, (Except.ok.inj h).symm,
          foldlM_along hrun hempty fun _ _ _ _ => ReadsAll.step⟩

theorem readLegacy_ok (h : readLegacy pkgName label raw = .ok legacy) :
    raw = none ∧ legacy = none ∨ ∃ fields names, raw = some (.obj fields) ∧ legacy = some names ∧
        ReadsMap pkgName fields names := by
  cases raw with
  | none => exact .inl ⟨rfl, (Except.ok.inj h).symm⟩
  | some v =>
    cases v with
    | null | bool | num | str | arr => cases h
    | obj fields =>
      rw [readLegacy] at h
      cases hrun : fields.foldlM (readLegacyEntry pkgName label) [] with
      | error err =>
        rw [hrun] at h
        cases h
      | ok names =>
        rw [hrun] at h
        have hempty : ReadsMap pkgName [] [] :=
          ⟨List.nodup_nil, fun e he => absurd he List.not_mem_nil,
            fun v hv => absurd hv List.not_mem_nil, fun name range hget => by cases hget⟩
        exact .inr ⟨fields, names, rfl, (Except.ok.inj h).symm,
          foldlM_along hrun hempty fun _ _ _ _ => ReadsMap.step⟩

theorem projected_reads {fields : List (String × Json)} {names : OrderedMap String String}
    (h : ReadsMap pkgName fields names) :
    ((names.map projected).map ExtensionDependency.packageName).Nodup ∧
      ∀ e ∈ names.map projected, pkgName ≠ some (.str e.packageName) ∧
        ∃ range, e = projected (e.packageName, range) ∧ (e.packageName, .str range) ∈ fields := by
  have hkeys : (names.map projected).map ExtensionDependency.packageName = OrderedMap.keys names := by
    rw [List.map_map]
    rfl
  rw [hkeys]
  refine ⟨h.nodup, ?_⟩
  intro e he
  obtain ⟨entry, hin, rfl⟩ := List.mem_map.mp he
  exact ⟨h.other _ (List.mem_map_of_mem hin), entry.2, rfl,
    h.ranges _ _ (OrderedMap.get?_of_mem h.nodup hin)⟩

/-- What the reader promises of the edges it returns. -/
structure ReadsManifest (manifest : Json) (packageName : Option String)
    (edges : List ExtensionDependency) : Prop where
  nodup : (edges.map ExtensionDependency.packageName).Nodup
  noSelf : ∀ e ∈ edges, ownName packageName manifest ≠ some (.str e.packageName)
  canonical : ∀ entries, canonicalRaw manifest = some (.arr entries) →
    ∀ v ∈ entries, ∃ e ∈ edges, Declares v e
  legacy : ∀ fields, legacyRaw manifest = some (.obj fields) → ∀ f ∈ fields,
    ∃ e ∈ edges, e.packageName = f.1 ∧ isInstallBlockingEdge e = true ∧
      (canonicalRaw manifest = none → ∃ range, (f.1, .str range) ∈ fields ∧
        e.versionConstraint = .semverRange range)
  agrees : ¬ Disagrees manifest

/-- **The dual read loses nothing.**  If a manifest is read, no target appears twice and
    none is the package itself; every entry of the array appears with its own type,
    requirement and constraint; every package of the map appears as an edge an install
    waits for; and the two do not disagree. -/
theorem manifest_dual_read (manifest : Json) (packageName : Option String)
    (r : ManifestDependencyReadResult)
    (h : parseManifestDependencyEdges manifest packageName = .ok r) :
    ReadsManifest manifest packageName r.edges := by
  obtain ⟨canonical, hcanonical, h⟩ := bind_ok.mp h
  obtain ⟨legacy, hlegacy, h⟩ := bind_ok.mp h
  rcases readCanonical_ok hcanonical with ⟨hraw, rfl⟩ | ⟨entries, edges, hraw, rfl, hreads⟩
  · -- the map alone, or nothing
    have hedges := resolveEdges_legacy h
    have hagrees : ¬ Disagrees manifest := by
      rintro ⟨entries, _, hin, _⟩
      cases hraw.symm.trans hin
    rcases readLegacy_ok hlegacy with ⟨hnone, rfl⟩ | ⟨fields, names, hmap, rfl, hnames⟩
    · rw [hedges]
      refine ⟨List.nodup_nil, fun e he => absurd he List.not_mem_nil, ?_, ?_, hagrees⟩
      · intro entries hin
        cases hraw.symm.trans hin
      · intro fields hin
        cases hnone.symm.trans hin
    · rw [hedges]
      obtain ⟨hnd, hall⟩ := projected_reads hnames
      refine ⟨hnd, fun e he => (hall e he).1, ?_, ?_, hagrees⟩
      · intro entries hin
        cases hraw.symm.trans hin
      · intro fields' hin f hf
        obtain rfl : fields' = fields := by
          injection Option.some.inj (hin.symm.trans hmap)
        obtain ⟨range, hget⟩ := OrderedMap.mem_keys_iff.mp (hnames.named f hf)
        refine ⟨projected (f.1, range), List.mem_map_of_mem (OrderedMap.mem_of_get? hget), rfl,
          rfl, fun _ => ⟨range, hnames.ranges _ _ hget, rfl⟩⟩
  · -- the array, which the map restates a part of
    obtain ⟨hedges, hrestates⟩ := resolveEdges_canonical h
    rw [hedges]
    have hblocking : ∀ fields, legacyRaw manifest = some (.obj fields) → ∀ f ∈ fields,
        ∃ e ∈ edges, e.packageName = f.1 ∧ isInstallBlockingEdge e = true := by
      intro fields hin f hf
      rcases readLegacy_ok hlegacy with ⟨hnone, _⟩ | ⟨fields', names, hmap, rfl, hnames⟩
      · cases hnone.symm.trans hin
      · obtain rfl : fields = fields' := by
          injection Option.some.inj (hin.symm.trans hmap)
        exact hrestates f.1 (hnames.named f hf)
    refine ⟨hreads.nodup, hreads.other, ?_, ?_, ?_⟩
    · intro entries' hin v hv
      obtain rfl : entries' = entries := by
        injection Option.some.inj (hin.symm.trans hraw)
      exact hreads.declared v hv
    · intro fields hin f hf
      obtain ⟨e, he, hname, hblock⟩ := hblocking fields hin f hf
      refine ⟨e, he, hname, hblock, fun hnone => ?_⟩
      cases hraw.symm.trans hnone
    · rintro ⟨entries', fields, hin, hmap, f, hf, hno⟩
      obtain rfl : entries' = entries := by
        injection Option.some.inj (hin.symm.trans hraw)
      obtain ⟨e, he, hname, hblock⟩ := hblocking fields hmap f hf
      obtain ⟨v, hv, hdeclares⟩ := hreads.declaring e he
      exact hno v hv (hname ▸ hdeclares.blocking hblock)

/-- A canonical edge, and the legacy map that restates it. -/
def bothVocabularies : Json :=
  .obj [("name", .str "@acme/agent"), ("cinatra", .obj [
    ("dependencies", .arr [.obj [("packageName", .str "@acme/tool"), ("edgeType", .str "runtime"),
      ("requirement", .str "required"), ("versionConstraint",
        .obj [("kind", .str "semver-range"), ("range", .str "*")])]]),
    ("agentDependencies", .obj [("@acme/tool", .str "^1.0.0")])])]

theorem bothVocabularies_read : ReadsManifest bothVocabularies none
      [⟨"@acme/tool", none, .runtime, .semverRange "*", .required⟩] :=
  manifest_dual_read bothVocabularies none
    ⟨[⟨"@acme/tool", none, .runtime, .semverRange "*", .required⟩], .canonical⟩ (by decide +kernel)

end ExtManifest
