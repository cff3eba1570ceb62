import Cinatra.Authz.RunAccess

/-! # TokenScopes — what a token's scopes bound

    The run gate applies the scopes of a token to every answer but those for the
    user that started the run and for its co-owners.  The resource gate has no
    scope layer: it answers alike whatever scopes the envelope carries. -/

namespace AuthzTokenScopes

open AuthzPermissions AuthzKernel AuthzActors AuthzResourceAccess AuthzRunAccess

variable {actor : PrimitiveActorContext} {hints : Option ActorRoleHints}

theorem enforceResourceAccess_tokenScopes (resource : Option ResourceForAccessCheck)
    (actor : PrimitiveActorContext) (scopes : Option (List String)) (op : Permission)
    (hints : Option ActorRoleHints) :
    enforceResourceAccess resource (some { actor with tokenScopes := scopes }) op hints =
      enforceResourceAccess resource (some actor) op hints := by
  cases resource with
  | none => rfl
  | some resource => rfl

/-- Past the owners, a permission the run gate grants is one of the scopes. -/
theorem enforceRunAccess_scopes {run : RunForAccessCheck} {op : RunAccessOperation}
    {scopes : List String} (hscopes : actor.tokenScopes = some scopes)
    (howner : startedBy run actor = false) (hco : isRunCoOwner run actor = false)
    (h : enforceRunAccess (some run) (some actor) op hints = .ok ()) :
    (operationPermission op).text ∈ scopes := by
  rcases enforceRunAccess_ok.mp h with h | h | ⟨_, hs, _⟩
  · rw [howner] at h
    cases h
  · rw [hco] at h
    cases h
  · rw [hscopes] at hs
    exact List.contains_iff_mem.mp hs

/-- **Token scopes bound the run gate past the owners**, and the resource gate not at all. -/
theorem tokenScopes_bound (actor : PrimitiveActorContext) (hints : Option ActorRoleHints) :
    (∀ (run : RunForAccessCheck) (op : RunAccessOperation) (scopes : List String),
      actor.tokenScopes = some scopes → startedBy run actor = false →
      isRunCoOwner run actor = false →
      enforceRunAccess (some run) (some actor) op hints = .ok () →
      (operationPermission op).text ∈ scopes) ∧
    ∀ (resource : ResourceForAccessCheck) (op : Permission) (scopes : Option (List String)),
      enforceResourceAccess (some resource) (some { actor with tokenScopes := scopes }) op hints =
        enforceResourceAccess (some resource) (some actor) op hints := by
  constructor
  · intro run op scopes hscopes howner hco h
    exact enforceRunAccess_scopes hscopes howner hco h
  · intro resource op scopes
    exact enforceResourceAccess_tokenScopes (some resource) actor scopes op hints

/-- An agent whose token was issued with no scopes. -/
def scopelessAgent : PrimitiveActorContext where
  actorType := some .a2a
  source := some .a2a
  userId := some "agent"
  tokenScopes := some []

def agentRun : RunForAccessCheck where
  id := "run"
  runBy := some "agent"
  orgId := some "acme"

def agentProject : ResourceForAccessCheck := ⟨.project, "p", some "acme", .user, "agent", none, none⟩

theorem scopelessAgent_cancels_run :
    enforceRunAccess (some agentRun) (some scopelessAgent) .cancel none = .ok () ∧
      enforceResourceAccess (some agentProject) (some scopelessAgent) .projectDelete none = .ok () ∧
      scopelessAgent.tokenScopes = some [] ∧
      (operationPermission .cancel).text ∉ ([] : List String) ∧
      Permission.projectDelete.text ∉ ([] : List String) := by
  decide

/-- An agent of the same organisation whose token is good for reading runs. -/
def readingAgent : PrimitiveActorContext where
  actorType := some .a2a
  source := some .a2a
  userId := some "reader"
  orgId := some "acme"
  tokenScopes := some ["run.read"]

theorem tokenScopes_bound_reading : (operationPermission .read).text ∈ ["run.read"] :=
  (tokenScopes_bound readingAgent none).1 agentRun .read ["run.read"] rfl (by decide) (by decide)
    (by decide)

end AuthzTokenScopes
