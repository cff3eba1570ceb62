import Mathlib.Data.List.Basic

/-! # Permissions — the catalog and the default-rights matrix

    `Permission` lists the powers of the kernel in source order, `directGrants`
    the powers of each role, and `inherits` the roles a role folds in.  The
    effective grants are the flattened table; who is inside which organisation
    is not decided here. -/

namespace AuthzPermissions

inductive Permission where
  | agentRead | agentList | agentExecute | agentUpdate | agentDelete | agentShare
    | agentManagePermissions
  | runRead | runList | runReadData | runCancel | runShare | runApproveHitl | runRespondToHitl
    | runResume | runEditOutput
  | objectRead | objectList | objectSearch | objectCreate | objectUpdate | objectDelete
    | objectPromoteScope
  | projectRead | projectList | projectCreate | projectUpdate | projectDelete | projectManageMembers
  | teamRead | teamList | teamCreate | teamUpdate | teamDelete | teamManageMembers
  | organizationRead | organizationList | organizationCreate | organizationUpdate
    | organizationDelete | organizationManageMembers
  | skillRead | skillList | skillAssign | skillCreate | skillUpdate | skillDelete | skillInstall
    | skillManageVisibility
  | connectorRead | connectorUse | connectorCreate | connectorUpdate | connectorDelete
  | artifactRead | artifactList | artifactCreate | artifactUpdate | artifactDelete
  | workflowTemplateRead | workflowTemplateList | workflowTemplateCreate | workflowTemplateUpdate
    | workflowTemplateDelete
  | workflowRead | workflowList | workflowCreate | workflowUpdate | workflowCancel | workflowApprove
    | workflowExecute
  | workflowDraftRead | workflowDraftWrite | workflowDraftUpdate
  | workflowRunRead | workflowRunList | workflowRunCancel
  | workflowExtensionRead | workflowExtensionPublish
  | dashboardRead | dashboardList | dashboardCreate | dashboardUpdate | dashboardDelete
  | listRead | listList | listCreate | listUpdate | listDelete
  | entityRead | entityList | entityCreate | entityUpdate | entityDelete
  | triggerRead | triggerList | triggerCreate | triggerUpdate | triggerDelete | triggerFire
  | notificationRead | notificationList | notificationUpdate
  | metricRead | metricList
  | marketplaceTemplateRead | marketplaceTemplateList | marketplaceTemplatePublish
  | extensionRegistryRead | extensionRegistryList | extensionRegistryInstall
    | extensionRegistryUninstall
  | registryRead | registryInstall | registryUpdate | registryUninstall
  | settingsRead | settingsUpdate
  | auditRead
deriving DecidableEq

/-- The permission as tokens and audit events spell it. -/
def Permission.text : Permission → String
  | .agentRead => "agent.read"
  | .agentList => "agent.list"
  | .agentExecute => "agent.execute"
  | .agentUpdate => "agent.update"
  | .agentDelete => "agent.delete"
  | .agentShare => "agent.share"
  | .agentManagePermissions => "agent.managePermissions"
  | .runRead => "run.read"
  | .runList => "run.list"
  | .runReadData => "run.readData"
  | .runCancel => "run.cancel"
  | .runShare => "run.share"
  | .runApproveHitl => "run.approveHitl"
  | .runRespondToHitl => "run.respondToHitl"
  | .runResume => "run.resume"
  | .runEditOutput => "run.editOutput"
  | .objectRead => "object.read"
  | .objectList => "object.list"
  | .objectSearch => "object.search"
  | .objectCreate => "object.create"
  | .objectUpdate => "object.update"
  | .objectDelete => "object.delete"
  | .objectPromoteScope => "object.promoteScope"
  | .projectRead => "project.read"
  | .projectList => "project.list"
  | .projectCreate => "project.create"
  | .projectUpdate => "project.update"
  | .projectDelete => "project.delete"
  | .projectManageMembers => "project.manageMembers"
  | .teamRead => "team.read"
  | .teamList => "team.list"
  | .teamCreate => "team.create"
  | .teamUpdate => "team.update"
  | .teamDelete => "team.delete"
  | .teamManageMembers => "team.manageMembers"
  | .organizationRead => "organization.read"
  | .organizationList => "organization.list"
  | .organizationCreate => "organization.create"
  | .organizationUpdate => "organization.update"
  | .organizationDelete => "organization.delete"
  | .organizationManageMembers => "organization.manageMembers"
  | .skillRead => "skill.read"
  | .skillList => "skill.list"
  | .skillAssign => "skill.assign"
  | .skillCreate => "skill.create"
  | .skillUpdate => "skill.update"
  | .skillDelete => "skill.delete"
  | .skillInstall => "skill.install"
  | .skillManageVisibility => "skill.manageVisibility"
  | .connectorRead => "connector.read"
  | .connectorUse => "connector.use"
  | .connectorCreate => "connector.create"
  | .connectorUpdate => "connector.update"
  | .connectorDelete => "connector.delete"
  | .artifactRead => "artifact.read"
  | .artifactList => "artifact.list"
  | .artifactCreate => "artifact.create"
  | .artifactUpdate => "artifact.update"
  | .artifactDelete => "artifact.delete"
  | .workflowTemplateRead => "workflow_template.read"
  | .workflowTemplateList => "workflow_template.list"
  | .workflowTemplateCreate => "workflow_template.create"
  | .workflowTemplateUpdate => "workflow_template.update"
  | .workflowTemplateDelete => "workflow_template.delete"
  | .workflowRead => "workflow.read"
  | .workflowList => "workflow.list"
  | .workflowCreate => "workflow.create"
  | .workflowUpdate => "workflow.update"
  | .workflowCancel => "workflow.cancel"
  | .workflowApprove => "workflow.approve"
  | .workflowExecute => "workflow.execute"
  | .workflowDraftRead => "workflow_draft.read"
  | .workflowDraftWrite => "workflow_draft.write"
  | .workflowDraftUpdate => "workflow_draft.update"
  | .workflowRunRead => "workflow_run.read"
  | .workflowRunList => "workflow_run.list"
  | .workflowRunCancel => "workflow_run.cancel"
  | .workflowExtensionRead => "workflow_extension.read"
  | .workflowExtensionPublish => "workflow_extension.publish"
  | .dashboardRead => "dashboard.read"
  | .dashboardList => "dashboard.list"
  | .dashboardCreate => "dashboard.create"
  | .dashboardUpdate => "dashboard.update"
  | .dashboardDelete => "dashboard.delete"
  | .listRead => "list.read"
  | .listList => "list.list"
  | .listCreate => "list.create"
  | .listUpdate => "list.update"
  | .listDelete => "list.delete"
  | .entityRead => "entity.read"
  | .entityList => "entity.list"
  | .entityCreate => "entity.create"
  | .entityUpdate => "entity.update"
  | .entityDelete => "entity.delete"
  | .triggerRead => "trigger.read"
  | .triggerList => "trigger.list"
  | .triggerCreate => "trigger.create"
  | .triggerUpdate => "trigger.update"
  | .triggerDelete => "trigger.delete"
  | .triggerFire => "trigger.fire"
  | .notificationRead => "notification.read"
  | .notificationList => "notification.list"
  | .notificationUpdate => "notification.update"
  | .metricRead => "metric.read"
  | .metricList => "metric.list"
  | .marketplaceTemplateRead => "marketplace_template.read"
  | .marketplaceTemplateList => "marketplace_template.list"
  | .marketplaceTemplatePublish => "marketplace_template.publish"
  | .extensionRegistryRead => "extension_registry.read"
  | .extensionRegistryList => "extension_registry.list"
  | .extensionRegistryInstall => "extension_registry.install"
  | .extensionRegistryUninstall => "extension_registry.uninstall"
  | .registryRead => "registry.read"
  | .registryInstall => "registry.install"
  | .registryUpdate => "registry.update"
  | .registryUninstall => "registry.uninstall"
  | .settingsRead => "settings.read"
  | .settingsUpdate => "settings.update"
  | .auditRead => "audit.read"

inductive Role where
  | platformAdmin | orgOwner | orgAdmin | teamAdmin | member | serviceAccount
  | externalAgent | developer | releaseManager | customer
deriving DecidableEq

/-- `ALL_ROLES`. -/
def allRoles : List Role :=
  [.platformAdmin, .orgOwner, .orgAdmin, .teamAdmin, .member, .serviceAccount,
   .externalAgent, .developer, .releaseManager, .customer]

/-- The powers given to each role itself. -/
def directGrants : Role → List Permission
  | .platformAdmin =>
    [.settingsRead, .settingsUpdate, .auditRead, .organizationCreate, .registryRead,
     .registryInstall, .registryUpdate, .registryUninstall, .agentRead, .agentList, .runRead,
     .runList, .objectRead, .objectList, .objectSearch, .projectRead, .projectList,
     .projectCreate, .teamRead, .teamList, .teamCreate, .organizationRead, .organizationList,
     .skillRead, .skillList, .connectorRead]
  | .orgOwner =>
    [.projectManageMembers, .teamManageMembers, .organizationManageMembers,
     .organizationDelete, .skillManageVisibility, .agentManagePermissions, .objectPromoteScope]
  | .orgAdmin =>
    [.agentUpdate, .agentDelete, .agentShare, .objectUpdate, .objectDelete, .projectCreate,
     .projectUpdate, .projectDelete, .teamUpdate, .teamDelete, .teamCreate,
     .organizationUpdate, .skillCreate, .skillUpdate, .skillDelete, .skillInstall,
     .connectorCreate, .connectorUpdate, .connectorDelete, .runShare, .runEditOutput,
     .settingsUpdate, .registryInstall, .registryUpdate, .registryUninstall, .artifactUpdate,
     .artifactDelete, .workflowTemplateUpdate, .workflowTemplateDelete, .workflowUpdate,
     .workflowExecute, .workflowCancel, .workflowApprove, .workflowRunCancel, .dashboardUpdate,
     .dashboardDelete, .listUpdate, .listDelete, .entityUpdate, .entityDelete, .triggerUpdate,
     .triggerDelete, .extensionRegistryInstall, .extensionRegistryUninstall, .metricRead,
     .metricList]
  | .teamAdmin =>
    [.teamUpdate, .teamManageMembers, .agentShare, .skillAssign, .registryInstall]
  | .member =>
    [.agentRead, .agentList, .agentExecute, .runRead, .runList, .runReadData, .runCancel,
     .runRespondToHitl, .runApproveHitl, .runResume, .objectRead, .objectList, .objectSearch,
     .objectCreate, .projectCreate, .projectRead, .projectList, .teamRead, .teamList,
     .organizationRead, .organizationList, .skillRead, .skillList, .connectorRead,
     .connectorUse, .registryRead, .settingsRead, .artifactRead, .artifactList,
     .artifactCreate, .workflowTemplateRead, .workflowTemplateList, .workflowTemplateCreate,
     .workflowRead, .workflowList, .workflowCreate, .workflowDraftRead, .workflowDraftWrite,
     .workflowDraftUpdate, .workflowRunRead, .workflowRunList, .workflowExtensionRead,
     .dashboardRead, .dashboardList, .dashboardCreate, .listRead, .listList, .listCreate,
     .entityRead, .entityList, .entityCreate, .triggerRead, .triggerList, .triggerCreate,
     .triggerFire, .notificationRead, .notificationList, .notificationUpdate,
     .marketplaceTemplateRead, .marketplaceTemplateList, .extensionRegistryRead,
     .extensionRegistryList]
  | .serviceAccount =>
    [.agentExecute, .runRead]
  | .externalAgent =>
    [.agentExecute, .runRead]
  | .developer =>
    [.agentRead, .agentList, .agentUpdate, .agentExecute, .skillRead, .skillList, .skillCreate,
     .skillUpdate, .skillInstall, .skillAssign, .runRead, .runList, .settingsRead]
  | .releaseManager =>
    [.marketplaceTemplateRead, .marketplaceTemplateList, .marketplaceTemplatePublish,
     .workflowExtensionPublish, .registryRead]
  | .customer =>
    [.agentRead, .skillRead, .runRead, .runRespondToHitl, .notificationRead, .notificationList,
     .notificationUpdate]

/-- `INHERITS`: the roles whose grants a role folds in. -/
def inherits : Role → List Role
  | .orgOwner => [.orgAdmin]
  | .orgAdmin => [.member]
  | .teamAdmin => [.member]
  | _ => []

/-- A role's own grants and those of what it inherits; `none` is the error of a cycle.
    `path` is the chain from the root call, so it can hold each role once. -/
def flatten : Nat → List Role → Role → Option (List Permission)
  | 0, _, _ => none
  | fuel + 1, path, role =>
    if path.contains role then none
    else do
      let parents ← (inherits role).mapM (flatten fuel (path ++ [role]))
      return directGrants role ++ parents.flatten

/-- `EFFECTIVE_GRANTS`. -/
def effectiveGrants (role : Role) : List Permission :=
  (flatten (allRoles.length + 1) [] role).getD []

def roleHasPermission (role : Role) (perm : Permission) : Bool :=
  (effectiveGrants role).contains perm

theorem effectiveGrants_eq (role : Role) :
    effectiveGrants role = directGrants role ++ (inherits role).flatMap effectiveGrants := by
  cases role <;> rfl

/-- **A role has what the roles it inherits have.** -/
theorem roleHasPermission_of_inherits {role parent : Role} {perm : Permission}
    (h : parent ∈ inherits role) (hp : roleHasPermission parent perm = true) :
    roleHasPermission role perm = true := by
  rw [roleHasPermission, List.contains_iff_mem] at hp ⊢
  rw [effectiveGrants_eq]
  exact List.mem_append_right _ (List.mem_flatMap.mpr ⟨parent, h, hp⟩)

end AuthzPermissions
