import Mathlib.Data.List.Basic

/-! # CanonicalTypes — sources and dependency edges

    What a canonical row of an installed extension says about where it comes from
    and what it needs, with the two structural checks every writer runs. -/

namespace ExtCanonical

inductive ExtensionKind where
  | agent | connector | artifact | skill | workflow
deriving DecidableEq

inductive ExtensionLifecycleStatus where
  | active | archived | locked
deriving DecidableEq

/-! ## Sources -/

structure ExtensionSourceVerdaccio where
  registryUrl : String
  packageName : String
  version : String
  integrity : String
  contentHash : Option String
  attestedSha256 : Option String
  signature : Option String
  closureHash : Option String
deriving DecidableEq

inductive ExtensionSource where
  | verdaccio (source : ExtensionSourceVerdaccio)
  | github (repo ref resolvedSha : String) (path : Option String)
  | local (path resolvedCommitOrTreeHash : String)
deriving DecidableEq

/-- `PROVENANCE_PLACEHOLDERS`. -/
def provenancePlaceholders : List String := ["pending-resolution", "latest", "HEAD"]

/-- A field that holds a resolved value. -/
def resolvedField (x : String) : Bool := x ≠ "" && !provenancePlaceholders.contains x

/-- The missing or unresolved provenance fields of a source. -/
def validateExtensionSource : ExtensionSource → List String
  | .verdaccio v =>
    ([("verdaccio.registryUrl", v.registryUrl), ("verdaccio.packageName", v.packageName),
      ("verdaccio.version", v.version), ("verdaccio.integrity", v.integrity)].filter
        (fun f => !resolvedField f.2)).map Prod.fst
  | .github repo ref resolvedSha _ =>
    ([("github.repo", repo), ("github.ref", ref), ("github.resolvedSha", resolvedSha)].filter
      (fun f => !resolvedField f.2)).map Prod.fst
  | .local path hash =>
    ([("local.path", path), ("local.resolvedCommitOrTreeHash", hash)].filter
      (fun f => !resolvedField f.2)).map Prod.fst

/-! ## Dependency edges -/

inductive DependencyEdgeType where
  | runtime | installTime | peer
deriving DecidableEq

inductive DependencyRequirement where
  | required | optional
deriving DecidableEq

inductive VersionConstraint where
  | semverRange (range : String)
  | exact (version : String)
  | gitRef (ref : String)
deriving DecidableEq

structure ExtensionDependency where
  packageName : String
  kind : Option ExtensionKind
  edgeType : DependencyEdgeType
  versionConstraint : VersionConstraint
  requirement : DependencyRequirement
deriving DecidableEq

/-- The problem of a version constraint, if it has one. -/
def VersionConstraint.problem : VersionConstraint → Option String
  | .semverRange range =>
    if range = "" then some "versionConstraint.range must be a non-empty string" else none
  | .exact version =>
    if version = "" then some "versionConstraint.version must be a non-empty string" else none
  | .gitRef ref =>
    if ref = "" then some "versionConstraint.ref must be a non-empty string" else none

/-- `validateExtensionDependencyShape`, of an edge whose enumerated fields are in
    range. -/
def validateExtensionDependencyShape (dep : ExtensionDependency) (ownPackageName : String) :
    List String :=
  (if dep.packageName = "" then ["packageName must be a non-empty string"]
    else if ownPackageName ≠ "" ∧ dep.packageName = ownPackageName then
      ["self-edge (a package cannot depend on itself)"]
    else []) ++ dep.versionConstraint.problem.toList

end ExtCanonical
