import Cinatra.Workflows.FanoutRows

/-! # ChildRows — a child against the task its template describes

    Two writers build the same row shape: `insertSpecRows` for a spec task, the
    foreach materialiser for a child.  They agree on the type, the agent, the input
    and the policies.  A child's planned dates are never computed, and its approval
    row is given the scope alone, so the two agree exactly on templates that have no
    schedule and no further approval settings (`child_as_template_iff`). -/

namespace WfChildRows

open RowTable Loop JsonValue WfTransitions WfSpec WfRows WfHost WfSchedule WfState
open WfForeach WfForeachReconciler WfStore WfLifecycle WfEngine WfActs WfInvariant WfPaths
open WfFanout WfEditing WfRuns WfFanoutRows WfValidate

variable {host : Host} {spec : WorkflowSpec} {e m m' : Engine} {now : Instant} {id : RowId}

private theorem lookup_assignIds_injective {ks : List String} (hnd : ks.Nodup) {base : Nat}
    {k k' : String} (h : lookup (assignIds (fun _ => none) base ks) k = some id)
    (h' : lookup (assignIds (fun _ => none) base ks) k' = some id) : k = k' := by
  rw [lookup_assignIds _ hnd] at h h'
  by_cases hk : k ∈ ks
  · by_cases hk' : k' ∈ ks
    · rw [if_pos hk] at h
      rw [if_pos hk'] at h'
      have hids := (Option.some.inj h).trans (Option.some.inj h').symm
      have hidx : base + ks.idxOf k = base + ks.idxOf k' := RowId.uuid.inj hids
      exact (List.idxOf_inj hk).mp (by omega)
    · rw [if_neg hk'] at h'
      cases h'
  · rw [if_neg hk] at h
    cases h

variable {t : TaskSpec}

/-- What a task's sidecars add: approvals of that task alone. -/
theorem insertSidecars_approvals {ids : Record RowId}
    (hid : lookup ids t.key = some id) (hok : insertSidecars host ids m t = .ok m') :
    m'.db.tasks = m.db.tasks ∧ ∃ rows, m'.db.approvals = m.db.approvals ++ rows ∧
      (∀ a ∈ rows, a.taskId = id) ∧ SpecApprovals host t rows := by
  obtain ⟨_, aps, _, rfl, _, hspec⟩ := insertSidecars_ok hok
  exact ⟨rfl, aps, rfl, hspec id hid⟩

variable {q : TaskRow}

/-- **The rows of a spec task**: its columns, and the approval it asks for. -/
theorem insertSpecRows_row {frozen : Record FrozenTaskTuple}
    (hnd : spec.keys.Nodup) (htasks : e.db.tasks = []) (happrovals : e.db.approvals = [])
    (hok : insertSpecRows host spec frozen e = .ok m) (ht : t ∈ spec.tasks)
    (hq : q ∈ m.db.tasks) (hkey : q.key = t.key) :
    ∃ resolved, resolveSchedule host spec frozen e.clock = some resolved ∧
      q.toTaskCols = buildCols resolved t ∧
      SpecApprovals host t (m.db.approvals.filter (fun a => a.taskId = q.id)) := by
  rw [insertSpecRows] at hok
  obtain ⟨resolved, hres, hok⟩ := bind_ok.mp hok
  obtain ⟨m₁, h₁, hok⟩ := bind_ok.mp hok
  obtain ⟨m₂, h₂, h₃⟩ := bind_ok.mp hok
  obtain ⟨hrows₂, hnone₂⟩ := inserted_rows htasks h₁ h₂
  have hids : ∀ s ∈ spec.tasks, ∃ id,
      lookup (assignIds (fun _ => none) e.nextUuid spec.keys) s.key = some id := by
    intro s hs
    have hmem : s.key ∈ spec.keys := List.mem_map_of_mem hs
    rw [lookup_assignIds _ hnd, if_pos hmem]
    exact ⟨_, rfl⟩
  have hsame : m.db.tasks = m₂.db.tasks := by
    refine foldlM_keeps (P := fun n : Engine => n.db.tasks = m₂.db.tasks) h₃ rfl ?_
    intro a s b hs hstep ha
    obtain ⟨id, hid⟩ := hids s hs
    exact (insertSidecars_approvals hid hstep).1.trans ha
  -- the row of the key is the one of `t`
  rw [hsame] at hq
  obtain ⟨s, hs, hid, hcols⟩ := hrows₂ q hq
  have hst : s = t := by
    refine eq_of_key hnd hs ht ?_
    have hk := congrArg TaskCols.key hcols
    exact hk.symm.trans hkey
  rw [hst] at hid hcols
  refine ⟨resolved, resolveOrThrow_ok hres, hcols, ?_⟩
  have hother : ∀ (a : Engine) (s : TaskSpec) (b : Engine), s ∈ spec.tasks → s ≠ t →
      insertSidecars host (assignIds (fun _ => none) e.nextUuid spec.keys) a s = .ok b →
      b.db.approvals.filter (fun a => a.taskId = q.id) =
        a.db.approvals.filter (fun a => a.taskId = q.id) := by
    intro a s b hs hne hstep
    obtain ⟨id, hid'⟩ := hids s hs
    obtain ⟨_, rows, hrows, htask, _⟩ := insertSidecars_approvals hid' hstep
    have hnone : rows.filter (fun a => a.taskId = q.id) = [] := by
      rw [List.filter_eq_nil_iff]
      intro r hr hrq
      rw [htask r hr, decide_eq_true_eq] at hrq
      rw [hrq] at hid'
      exact hne (eq_of_key hnd hs ht (lookup_assignIds_injective hnd hid' hid))
    rw [hrows, List.filter_append, hnone, List.append_nil]
  refine foldlM_reaches
    (P := fun n : Engine => n.db.approvals.filter (fun a => a.taskId = q.id) = [])
    (Q := fun n : Engine => SpecApprovals host t
      (n.db.approvals.filter (fun a => a.taskId = q.id))) h₃ (List.Nodup.of_map _ hnd) ht ?_ ?_ ?_ ?_
  · show m₂.db.approvals.filter _ = []
    rw [hnone₂]
    exact congrArg (List.filter _) happrovals
  · intro a s b hs hne hstep ha
    rw [hother a s b hs hne hstep]
    exact ha
  · intro a s b hs hne hstep ha
    rw [hother a s b hs hne hstep]
    exact ha
  · intro a b hstep ha
    obtain ⟨_, rows, hrows, htask, hspec⟩ := insertSidecars_approvals hid hstep
    have hall : rows.filter (fun a => a.taskId = q.id) = rows := by
      rw [List.filter_eq_self]
      exact fun r hr => decide_eq_true (htask r hr)
    rw [hrows, List.filter_append, ha, hall, List.nil_append]
    exact hspec

/-! ## The rows of a child -/

variable {args : MaterializeForeachInput}

/-- The plan of an item is the materialiser's for that item alone. -/
theorem childPlans_get {known : String → Bool} {total : Nat} (stables : List String) :
    ∀ (k : Nat) (items : List Json) (plans : List ChildPlan) (i : Nat) (p : ChildPlan)
      (item : Json),
      childPlans host args known total k stables items = .ok plans → plans[i]? = some p →
      items[i]? = some item →
      ∃ stable, childPlan host args known total (k + i) stable item = .ok p := by
  induction stables with
  | nil =>
    intro k items plans i p item h hp hitem
    rw [childPlans] at h
    · rw [← Except.ok.inj h] at hp
      cases hp
    · intro _ _ _ _ hnil _
      cases hnil
  | cons stable stables ih =>
    intro k items plans i p item h hp hitem
    cases items with
    | nil => cases hitem
    | cons first items =>
      rw [childPlans] at h
      obtain ⟨plan, hplan, hrest⟩ := bind_ok.mp h
      obtain ⟨rest, hrest, heq⟩ := bind_ok.mp hrest
      rw [← Except.ok.inj heq] at hp
      cases i with
      | zero =>
        rw [← Option.some.inj hp, ← Option.some.inj hitem]
        exact ⟨stable, hplan⟩
      | succ i =>
        obtain ⟨stable', h'⟩ := ih (k + 1) items rest i p item hrest hp hitem
        refine ⟨stable', ?_⟩
        rw [Nat.add_assoc, Nat.add_comm 1 i] at h'
        exact h'

/-- The template of a parent with the variables of an item put in. -/
def substituted (fe : ForeachConfig) (items : List Json) (i : Nat) (item : Json) : Json :=
  substituteValue (resolveVar fe.as item ⟨i, i + 1, items.length⟩) fe.template

variable {plans : List ChildPlan} {p : ChildPlan}

theorem materialize_get (h : materializeForeachChildren host args = .ok plans) {items : List Json}
    (hitems : sourceItems args.sourceOutput = some items) {i : Nat} {item : Json}
    (hp : plans[i]? = some p) (hitem : items[i]? = some item) :
    ∃ stable, p.cols = childCols args.parentKey stable (childKey args.parentKey stable)
        (substituted args.foreachConfig items i item) ∧
      p.approval = childApproval host p.id p.cols.type
        (substituted args.foreachConfig items i item) := by
  obtain ⟨_, stables, _, hitems', _, hplans⟩ := materialize_ok h
  obtain rfl := Option.some.inj (hitems'.symm.trans hitems)
  obtain ⟨stable, hplan⟩ := childPlans_get _ _ _ _ _ _ _ hplans hp hitem
  rw [Nat.zero_add, childPlan] at hplan
  obtain ⟨deps, _, heq⟩ := bind_ok.mp hplan
  rw [← Except.ok.inj heq]
  exact ⟨stable, rfl, rfl⟩

/-- The approval rows a batch asks for. -/
def batchApprovals (e : Engine) (plans : List ChildPlan) : List ApprovalRow :=
  plans.filterMap (fun p => p.approval.map (childApprovalRow e p.id))

theorem batchApprovals_cons (e : Engine) (p : ChildPlan) (plans : List ChildPlan) :
    batchApprovals e (p :: plans) =
      (p.approval.map (childApprovalRow e p.id)).toList ++ batchApprovals e plans := by
  rw [batchApprovals, List.filterMap_cons]
  cases p.approval with
  | none | some => rfl

private theorem insertChildApprovals_rows (plans : List ChildPlan)
    (h : plans.foldlM insertChildApproval m = .ok m') :
    m'.db.approvals = m.db.approvals ++ batchApprovals m plans := by
  induction plans generalizing m with
  | nil =>
    rw [← Except.ok.inj h]
    exact (List.append_nil _).symm
  | cons p plans ih =>
    obtain ⟨m₁, hfirst, hrest⟩ := foldlM_cons_ok.mp h
    have hrows := ih hrest
    rw [batchApprovals_cons]
    rcases insertChildApproval_ok hfirst with ⟨hap, rfl⟩ | ⟨_, hap, _, _, rfl⟩
    · rw [hap]
      exact hrows
    · rw [hrows, hap, List.append_assoc]
      rfl

/-- **What a batch adds to the approvals.** -/
theorem persistChildPlans_approvals (h : persistChildPlans now plans m = .ok m') :
    m'.db.approvals = m.db.approvals ++ batchApprovals m plans := by
  rw [persistChildPlans] at h
  obtain ⟨m₁, h₁, h⟩ := bind_ok.mp h
  obtain ⟨m₂, h₂, h₃⟩ := bind_ok.mp h
  have hrows₁ : m₁.db.approvals = m.db.approvals ∧ m₁.clock = m.clock := by
    refine foldlM_keeps (P := fun n : Engine => n.db.approvals = m.db.approvals ∧
      n.clock = m.clock) h₁ ⟨rfl, rfl⟩ ?_
    intro a p b _ hstep ha
    rcases insertChild_ok hstep with ⟨rfl, -⟩ | ⟨_, _, rfl⟩
    · exact ha
    · exact ha
  have hrows₂ : m₂.db.approvals = m.db.approvals ∧ m₂.clock = m.clock := by
    refine foldlM_keeps (P := fun n : Engine => n.db.approvals = m.db.approvals ∧
      n.clock = m.clock) h₂ hrows₁ ?_
    intro a p b _ hstep ha
    refine foldlM_keeps (P := fun n : Engine => n.db.approvals = m.db.approvals ∧
      n.clock = m.clock) hstep ha ?_
    intro a' d b' _ hstep' ha'
    rcases insertChildDependency_ok hstep' with rfl | ⟨_, _, _, rfl⟩
    · exact ha'
    · exact ha'
  have hbatch : batchApprovals m₂ plans = batchApprovals m plans := by
    rw [batchApprovals, batchApprovals]
    refine List.filterMap_congr ?_
    intro p _
    cases p.approval with
    | none => rfl
    | some ap => simp only [Option.map_some, childApprovalRow, hrows₂.2]
  rw [insertChildApprovals_rows plans h₃, hrows₂.1, hbatch]

/-- The approvals of one child of a batch whose children are new and distinct. -/
theorem approvals_of_child (hfk : ∀ a ∈ m.db.approvals, ∃ t ∈ m.db.tasks, t.id = a.taskId)
    (hnew : ∀ q ∈ plans, ∀ t ∈ m.db.tasks, t.id ≠ q.id) (hnd : (plans.map ChildPlan.id).Nodup)
    (hp : p ∈ plans) :
    (m.db.approvals ++ batchApprovals m plans).filter (fun a => a.taskId = p.id) =
      (p.approval.map (childApprovalRow m p.id)).toList := by
  rw [List.filter_append]
  have hold : m.db.approvals.filter (fun a => a.taskId = p.id) = [] := by
    rw [List.filter_eq_nil_iff]
    intro a ha hid
    obtain ⟨t, ht, htid⟩ := hfk a ha
    exact hnew p hp t ht (htid.trans (of_decide_eq_true hid))
  rw [hold, List.nil_append]
  have hbatch : ∀ l : List ChildPlan, l.Nodup → (∀ q ∈ l, q ∈ plans) →
      (batchApprovals m l).filter (fun a => a.taskId = p.id) =
        if p ∈ l then (p.approval.map (childApprovalRow m p.id)).toList else [] := by
    intro l
    induction l with
    | nil =>
      intro _ _
      rw [if_neg List.not_mem_nil]
      rfl
    | cons q l ih =>
      intro hl hsub
      rw [List.nodup_cons] at hl
      rw [batchApprovals_cons, List.filter_append,
        ih hl.2 (fun r hr => hsub r (.tail _ hr))]
      by_cases hqp : q.id = p.id
      · have heq : q = p := eq_of_key hnd (hsub q (List.mem_cons_self ..)) hp hqp
        rw [heq] at hl ⊢
        rw [if_neg hl.1, if_pos (List.mem_cons_self ..), List.append_nil, List.filter_eq_self]
        intro a ha
        obtain ⟨ap, _, rfl⟩ := Option.map_eq_some_iff.mp (Option.mem_toList.mp ha)
        exact decide_eq_true rfl
      · have hnone : ((q.approval.map (childApprovalRow m q.id)).toList).filter
            (fun a => a.taskId = p.id) = [] := by
          rw [List.filter_eq_nil_iff]
          intro a ha hid
          obtain ⟨ap, _, rfl⟩ := Option.map_eq_some_iff.mp (Option.mem_toList.mp ha)
          exact hqp (of_decide_eq_true hid)
        have hne : p ≠ q := fun h => hqp (congrArg ChildPlan.id h.symm)
        rw [hnone, List.nil_append]
        by_cases hpl : p ∈ l
        · rw [if_pos hpl, if_pos (.tail _ hpl)]
        rw [if_neg hpl, if_neg]
        intro h
        rcases List.mem_cons.mp h with h | h
        · exact hne h
        · exact hpl h
  rw [hbatch plans (List.Nodup.of_map _ hnd) (fun _ h => h), if_pos hp]

/-! ## The template of a child as a task -/

def failurePolicyText : FailurePolicy → String
  | .block => "block"
  | .skip => "skip"

def missedWindowPolicyText : MissedWindowPolicy → String
  | .requireManualDecision => "require_manual_decision"
  | .fireAsap => "fire_asap"

def rejectionPolicyText : RejectionPolicy → String
  | .needsRevision => "needs_revision"
  | .cancel => "cancel"
  | .skip => "skip"

/-- A field that holds an object, or is absent. -/
def ObjectField (v : Option Json) : Prop := ∀ j, v = some j → j.isObj = true

/-- The fields of each type. -/
def DescribesBody (tmpl : Json) : TaskBody → Prop
  | .agentTask ref input =>
    (∃ j, tmpl.field? "agentRef" = some j ∧ j.isObj = true ∧ stored j = stored ref.toJson ∧
      j.field? "package" = some (.str ref.package)) ∧
    tmpl.field? "input" = input ∧ ObjectField input
  | .approval scope solicitation deadline policy =>
    (∃ j, tmpl.field? "requiredScope" = some j ∧ j.isObj = true ∧ stored j = stored scope.toJson) ∧
    (tmpl.field? "solicitation").map stored = solicitation.map (fun s => stored s.toJson) ∧
    tmpl.field? "deadlineIso8601" = deadline.map Json.str ∧
    tmpl.field? "rejectionPolicy" = policy.map (fun p => .str (rejectionPolicyText p))
  | _ => True

/-- A template, its variables put in, is the JSON of a spec task: `taskSchema` reads the
    task back from it. -/
structure Describes (tmpl : Json) (t : TaskSpec) : Prop where
  type : tmpl.field? "type" = some (.str t.body.type.text)
  required : tmpl.field? "required" = t.required.map Json.bool
  schedule : (tmpl.field? "schedule").map stored = t.schedule.map (fun s => stored s.toJson)
  failurePolicy : tmpl.field? "failurePolicy" =
    t.failurePolicy.map (fun p => .str (failurePolicyText p))
  missedWindowPolicy : tmpl.field? "missedWindowPolicy" =
    t.missedWindowPolicy.map (fun p => .str (missedWindowPolicyText p))
  retryPolicy : tmpl.field? "retryPolicy" = t.retryPolicy ∧ ObjectField t.retryPolicy
  maxAttempts : tmpl.field? "maxAttempts" = t.maxAttempts.map decimal
  cancelPolicy : tmpl.field? "cancelPolicy" = t.cancelPolicy ∧ ObjectField t.cancelPolicy
  body : DescribesBody tmpl t.body

/-! ## The settings of a row -/

/-- What a task row says about how the task runs; a `jsonb` column up to field order. -/
structure Settings where
  type : TaskType
  agentPackage : Option String
  agentRef : Option Json
  input : Option Json
  required : Bool
  failurePolicy : Option FailurePolicy
  missedWindowPolicy : Option MissedWindowPolicy
  retryPolicy : Option Json
  maxAttempts : Option Nat
  cancelPolicy : Option Json

def settings (c : TaskCols) : Settings where
  type := c.type
  agentPackage := c.agentPackage
  agentRef := c.agentRef.map stored
  input := c.input.map stored
  required := c.required
  failurePolicy := c.failurePolicy
  missedWindowPolicy := c.missedWindowPolicy
  retryPolicy := c.retryPolicy.map stored
  maxAttempts := c.maxAttempts
  cancelPolicy := c.cancelPolicy.map stored

/-- What an approval row says about whom to ask, when, and what a rejection does. -/
structure ApprovalSettings where
  requiredScope : Json
  solicitationSchedule : Option Json
  deadlineUtc : Option Instant
  rejectionPolicy : Option RejectionPolicy

def approvalSettings (a : ApprovalRow) : ApprovalSettings where
  requiredScope := a.requiredScope
  solicitationSchedule := a.solicitationSchedule
  deadlineUtc := a.deadlineUtc
  rejectionPolicy := a.rejectionPolicy

/-- The approvals of a task row. -/
def approvalsOf (e : Engine) (r : TaskRow) : List ApprovalRow :=
  e.db.approvals.filter (fun a => a.taskId = r.id)

/-! ### Reading a template -/

variable {tmpl : Json} {v : Option Json} {name : String}

theorem fieldOrNull_of
    (h : tmpl.field? name = v) (hv : v ≠ some .null) : tmpl.fieldOrNull name = v := by
  rw [Json.fieldOrNull, h]
  cases v with
  | none => rfl
  | some j =>
    cases j with
    | null => exact absurd rfl hv
    | bool | num | str | arr | obj => rfl

theorem ObjectField.ne_null (h : ObjectField v) : v ≠ some .null := by
  intro hv
  exact Bool.noConfusion (h _ hv)

theorem natOf_decimal (n : Nat) : natOf (decimal n) = some n := by
  have hdigits : (Nat.toDigits 10 n).all Char.isDigit = true := by
    rw [List.all_eq_true]
    exact fun c hc => Nat.isDigit_of_mem_toDigits (by decide) (by decide) hc
  show (if (Nat.toDigits 10 n).all Char.isDigit = true then some (number (Nat.toDigits 10 n))
    else none) = some n
  rw [if_pos hdigits]
  exact congrArg some (Nat.ofDigitChars_toDigits (by decide) (by decide))

theorem ofText_text (b : TaskBody) : TaskType.ofText b.type.text = b.type := by
  cases b <;> rfl

section Agreement

variable {tmpl : Json} {t : TaskSpec}

theorem read_written {α : Type} {x : Option α} {write : α → Json}
    (read : Option Json → Option α) (h : tmpl.field? name = x.map write)
    (hnull : ∀ a, write a ≠ .null) (hnone : read none = none)
    (hsome : ∀ a, read (some (write a)) = some a) : read (tmpl.fieldOrNull name) = x := by
  cases x with
  | none => rw [fieldOrNull_of h (by simp), Option.map_none, hnone]
  | some a => rw [fieldOrNull_of h (by simp [hnull]), Option.map_some, hsome]

section

variable (h : Describes tmpl t)

include h

theorem Describes.failurePolicyOf :
    failurePolicyOf (tmpl.fieldOrNull "failurePolicy") = t.failurePolicy :=
  read_written _ h.failurePolicy nofun rfl fun p => by cases p <;> rfl

theorem Describes.missedWindowPolicyOf :
    missedWindowPolicyOf (tmpl.fieldOrNull "missedWindowPolicy") = t.missedWindowPolicy :=
  read_written _ h.missedWindowPolicy nofun rfl fun p => by cases p <;> rfl

theorem Describes.maxAttemptsOf : (tmpl.fieldOrNull "maxAttempts").bind natOf = t.maxAttempts :=
  read_written (·.bind natOf) h.maxAttempts nofun rfl natOf_decimal

theorem Describes.requiredOf (parentKey stable key : String) :
    (childCols parentKey stable key tmpl).required = t.required.getD true := by
  have hf := h.required
  cases hr : t.required with
  | none =>
    rw [hr] at hf
    simp only [childCols, hf, Option.map_none, Option.getD_none]
  | some b =>
    rw [hr] at hf
    simp only [childCols, hf, Option.map_some, Option.getD_some, jsTruthy]

theorem Describes.typeOf (parentKey stable key : String) :
    (childCols parentKey stable key tmpl).type = t.body.type := by
  have htype : tmpl.fieldOrNull "type" = some (.str t.body.type.text) :=
    fieldOrNull_of h.type (by simp)
  have htext : TaskType.ofText (toText (.str t.body.type.text)) = t.body.type := by
    rw [toText, ofText_text]
  simp only [childCols, htype, htext]

theorem Describes.agentOf (parentKey stable key : String) (resolved : Record ResolvedTask) :
    (childCols parentKey stable key tmpl).agentPackage = (buildCols resolved t).agentPackage ∧
      (childCols parentKey stable key tmpl).agentRef.map stored =
        (buildCols resolved t).agentRef.map stored ∧
      (childCols parentKey stable key tmpl).input.map stored =
        (buildCols resolved t).input.map stored := by
  have htype := h.typeOf parentKey stable key
  -- the agent columns are read for an agent task only
  have hcols : (childCols parentKey stable key tmpl).agentPackage = textAt "package"
        (if (childCols parentKey stable key tmpl).type = .agentTask then
          tmpl.fieldOrNull "agentRef" else none) ∧
      (childCols parentKey stable key tmpl).agentRef =
        (if (childCols parentKey stable key tmpl).type = .agentTask then
          tmpl.fieldOrNull "agentRef" else none) ∧
      (childCols parentKey stable key tmpl).input =
        (if (childCols parentKey stable key tmpl).type = .agentTask then
          tmpl.fieldOrNull "input" else none) := ⟨rfl, rfl, rfl⟩
  rw [hcols.1, hcols.2.1, hcols.2.2, htype]
  have hbody := h.body
  cases hb : t.body with
  | agentTask ref input =>
    rw [hb] at hbody
    obtain ⟨⟨j, hj, hobj, hstored, hpackage⟩, hinput, hobject⟩ := hbody
    have href : tmpl.fieldOrNull "agentRef" = some j := by
      refine fieldOrNull_of hj ?_
      intro hnull
      rw [Option.some.inj hnull] at hobj
      cases hobj
    have hin := fieldOrNull_of hinput hobject.ne_null
    have hpkg : j.fieldOrNull "package" = some (.str ref.package) :=
      fieldOrNull_of hpackage (by simp)
    have hagent : (TaskBody.agentTask ref input).type = .agentTask := rfl
    rw [if_pos hagent, if_pos hagent, href, hin]
    simp only [textAt, Option.bind_some, hpkg, Json.str?, buildCols, agentRefOf, inputOf, hb,
      Option.map_some, hstored, and_self]
  | approval | manual | notification | wait | checkpoint =>
    rw [if_neg (by simp [TaskBody.type]), if_neg (by simp [TaskBody.type])]
    simp [textAt, buildCols, agentRefOf, inputOf, hb]

/-- **What the two writers agree on.** -/
theorem settings_agree (resolved : Record ResolvedTask) (parentKey stable key : String) :
    settings (childCols parentKey stable key tmpl) = settings (buildCols resolved t) := by
  have htype := h.typeOf parentKey stable key
  have hretry := fieldOrNull_of h.retryPolicy.1 h.retryPolicy.2.ne_null
  have hcancel := fieldOrNull_of h.cancelPolicy.1 h.cancelPolicy.2.ne_null
  have hagent := h.agentOf parentKey stable key resolved
  have hretry' : (childCols parentKey stable key tmpl).retryPolicy = t.retryPolicy := hretry
  have hcancel' : (childCols parentKey stable key tmpl).cancelPolicy = t.cancelPolicy := hcancel
  have hfail : (childCols parentKey stable key tmpl).failurePolicy = t.failurePolicy :=
    h.failurePolicyOf
  have hmissed : (childCols parentKey stable key tmpl).missedWindowPolicy =
      t.missedWindowPolicy := h.missedWindowPolicyOf
  have hmax : (childCols parentKey stable key tmpl).maxAttempts = t.maxAttempts :=
    h.maxAttemptsOf
  rw [settings, htype, h.requiredOf, hagent.1, hagent.2.1, hagent.2.2, hretry', hcancel', hfail,
    hmissed, hmax]
  rfl

end

/-- An approval that is given its scope and nothing else. -/
def scopeOnly : TaskBody → List ApprovalSettings
  | .approval scope _ _ _ => [⟨stored scope.toJson, none, none, none⟩]
  | _ => []

theorem childApproval_agree (h : Describes tmpl t) (e : Engine) (childId : RowId) :
    (((childApproval host childId t.body.type tmpl).map (childApprovalRow e childId)).toList).map
        approvalSettings = scopeOnly t.body := by
  have hbody := h.body
  cases hb : t.body with
  | approval scope solicitation deadline policy =>
    rw [hb] at hbody
    obtain ⟨⟨j, hj, hobj, hstored⟩, _⟩ := hbody
    have hsome : childApproval host childId (TaskBody.approval scope solicitation deadline
        policy).type tmpl =
          some ⟨deterministicSidecarId host "wapp" childId "approval", stored scope.toJson⟩ := by
      simp only [TaskBody.type, childApproval, hj, hobj, Bool.true_or, if_true, hstored]
    rw [hsome]
    rfl
  | agentTask | manual | notification | wait | checkpoint => rfl

end Agreement

/-! ## Both writers at work -/

/-- `r` is the row a committed turn of some parent wrote for an item, the template with the
    item's variables put in being `tmpl`. -/
def WrittenChild (host : Host) (tmpl : Json) (m' : Engine) (r : TaskRow) : Prop :=
  ∃ now e m parent fe source items i item, Reachable host e ∧ e.db.workflow.status = .active ∧
    DueTurn host now e parent fe source m m' ∧ parent ∈ m.db.tasks ∧
    KeysFree host e m parent fe source ∧
    sourceItems (turnArgs e m parent fe source).sourceOutput = some items ∧
    items[i]? = some item ∧ (newRows m m')[i]? = some r ∧ tmpl = substituted fe items i item

/-- `q` is the row `insertSpecRows` wrote for the task `t` of a spec. -/
def WrittenTask (host : Host) (t : TaskSpec) (m : Engine) (q : TaskRow) : Prop :=
  ∃ spec frozen e, spec.keys.Nodup ∧ t ∈ spec.tasks ∧ e.db.tasks = [] ∧ e.db.approvals = [] ∧
    insertSpecRows host spec frozen e = .ok m ∧ q ∈ m.db.tasks ∧ q.key = t.key

variable {r : TaskRow}

theorem WrittenChild.plan (h : WrittenChild host tmpl m' r) :
    ∃ (e : Engine) (p : ChildPlan) (parentKey stable key : String), r.toTaskCols = p.cols ∧
      p.cols = childCols parentKey stable key tmpl ∧
      approvalsOf m' r = ((childApproval host p.id p.cols.type tmpl).map
        (childApprovalRow e p.id)).toList := by
  obtain ⟨now, e, m, parent, fe, source, items, i, item, hreach, hactive, hturn, hmem, hfree,
    hitems, hitem, hr, rfl⟩ := h
  obtain ⟨hinv, hsrc⟩ := sound_reachable hreach
  have hpaths := hturn.path hinv hsrc (.inl hactive)
  rcases hturn.outcome with ⟨err, hmat, rfl⟩ | ⟨hmat, rfl⟩ | ⟨plans, m₁, hmat, hne, h₁, rfl⟩
  · -- a refused batch writes no row
    have hnone : newRows m (persistForeachMaterializationFailure m parent err.code) = [] :=
      newRows_setParent (fun _ => rfl) hmem (List.append_nil _).symm
        (fun r hr => absurd hr List.not_mem_nil)
    rw [hnone] at hr
    cases hr
  · have hnone : newRows m (setParent m parent (fun t =>
        { t with status := .succeeded, actualStartUtc := some m.clock,
                 actualEndUtc := some m.clock })) = [] :=
      newRows_setParent (fun _ => rfl) hmem (List.append_nil _).symm
        (fun r hr => absurd hr List.not_mem_nil)
    rw [hnone] at hr
    cases hr
  · obtain ⟨hrows, hnew⟩ := persistChildPlans_rows (materialize_keys_nodup hmat) h₁
    have hall := (keysFree_iff hmat).mp hfree
    have hnewRows : newRows m (setParent m₁ parent (started m₁.clock)) =
        (plans.filter (free m)).map (childRow m) :=
      newRows_setParent (fun _ => rfl) hmem hrows (childRow_ids hnew)
    have hr' : (plans.map (childRow m))[i]? = some r := by
      rw [← hall, ← hnewRows]
      exact hr
    rw [List.getElem?_map, Option.map_eq_some_iff] at hr'
    obtain ⟨p, hp, rfl⟩ := hr'
    obtain ⟨stable, hcols, happ⟩ := materialize_get hmat hitems hp hitem
    refine ⟨m, p, _, stable, _, rfl, hcols, ?_⟩
    have hids : (plans.map ChildPlan.id).Nodup := by
      have hkeyed := (hinv.path hpaths.2).keyed.ids
      have hids₁ : (m₁.db.tasks.map TaskRow.id).Nodup := by
        have hsame : (setParent m₁ parent (started m₁.clock)).db.tasks.map TaskRow.id =
            m₁.db.tasks.map TaskRow.id := map_updateWhere _ _ (fun _ => rfl)
        rw [← hsame]
        exact hkeyed
      rw [hrows, hall, List.map_append, List.map_map] at hids₁
      exact (List.nodup_append.mp hids₁).2.1
    rw [hall] at hnew
    have happrovals := approvals_of_child (hinv.path hpaths.1).linked.approvals hnew hids
      (List.mem_of_getElem? hp)
    rw [← persistChildPlans_approvals h₁] at happrovals
    have happ' : p.approval = childApproval host p.id p.cols.type (substituted fe items i item) :=
      happ
    rw [← happ']
    exact happrovals

/-- The child is the ordinary task in the settings of its row and of its approval and, if
    the template has a schedule, in the due instant derived from it. -/
def SameTask (t : TaskSpec) (m' : Engine) (r : TaskRow) (m : Engine) (q : TaskRow) : Prop :=
  settings r.toTaskCols = settings q.toTaskCols ∧
  (approvalsOf m' r).map approvalSettings = (approvalsOf m q).map approvalSettings ∧
  (t.schedule ≠ none → r.dueAtUtc = q.dueAtUtc)

/-- An approval body that says nothing but the scope. -/
def PlainBody : TaskBody → Prop
  | .approval _ solicitation deadline policy =>
    solicitation = none ∧ deadline = none ∧ policy = none
  | _ => True

/-- A template without a schedule and without further approval settings. -/
def PlainTemplate (t : TaskSpec) : Prop := t.schedule = none ∧ PlainBody t.body

theorem optionalDate_eq_none {s : Option String} {d : Option Instant}
    (h : optionalDate host s = .ok d) : d = none ↔ s = none := by
  cases s with
  | none =>
    rw [← Except.ok.inj h]
    exact ⟨fun _ => rfl, fun _ => rfl⟩
  | some s =>
    rw [optionalDate] at h
    cases hp : host.dateParse s with
    | none =>
      rw [hp] at h
      cases h
    | some ms =>
      rw [hp] at h
      rw [← Except.ok.inj h]
      constructor
      · intro hn
        cases hn
      · intro hn
        cases hn

theorem specApprovals_scopeOnly {rows : List ApprovalRow} (h : SpecApprovals host t rows) :
    scopeOnly t.body = rows.map approvalSettings ↔ PlainBody t.body := by
  rw [SpecApprovals] at h
  cases hb : t.body with
  | approval scope solicitation deadline policy =>
    rw [hb] at h
    obtain ⟨d, a, hd, rfl, hscope, hsol, hdl, hpol⟩ := h
    have hset : approvalSettings a =
        ⟨stored scope.toJson, solicitation.map ScheduleSpec.toJson, d, policy⟩ := by
      rw [approvalSettings, hscope, hsol, hdl, hpol]
    show [(⟨stored scope.toJson, none, none, none⟩ : ApprovalSettings)] = [approvalSettings a] ↔
      solicitation = none ∧ deadline = none ∧ policy = none
    rw [hset, List.cons.injEq, and_iff_left rfl, ApprovalSettings.mk.injEq, ← optionalDate_eq_none hd]
    constructor
    · rintro ⟨_, hs, hdn, hp⟩
      exact ⟨Option.map_eq_none_iff.mp hs.symm, hdn.symm, hp.symm⟩
    · rintro ⟨hs, hdn, hp⟩
      exact ⟨rfl, (Option.map_eq_none_iff.mpr hs).symm, hdn.symm, hp.symm⟩
  | agentTask | manual | notification | wait | checkpoint =>
    rw [hb] at h
    have hnil : rows = [] := h
    rw [hnil]
    exact ⟨fun _ => trivial, fun _ => rfl⟩

/-- **A child is the task its template describes exactly when** the template has no schedule
    and no approval settings beyond the scope.  Its due instant is never set, while a spec
    task's always is. -/
theorem child_as_template_iff {tmpl : Json} {t : TaskSpec} {r q : TaskRow}
    (hchild : WrittenChild host tmpl m' r) (htask : WrittenTask host t m q)
    (hdesc : Describes tmpl t) :
    (SameTask t m' r m q ↔ PlainTemplate t) ∧ r.dueAtUtc = none ∧ q.dueAtUtc ≠ none := by
  obtain ⟨e, p, parentKey, stable, key, hr, hcols, happ⟩ := hchild.plan
  obtain ⟨spec, frozen, e₀, hnd, ht, htasks, happrovals, hok, hq, hkey⟩ := htask
  obtain ⟨resolved, hres, hqcols, hqapp⟩ :=
    insertSpecRows_row hnd htasks happrovals hok ht hq hkey
  rw [hcols] at hr happ
  have hsettings : settings r.toTaskCols = settings q.toTaskCols := by
    rw [hr, hqcols]
    exact settings_agree hdesc resolved parentKey stable key
  have hchildApp : (approvalsOf m' r).map approvalSettings = scopeOnly t.body := by
    rw [happ, hdesc.typeOf]
    exact childApproval_agree hdesc e p.id
  have hdue : r.dueAtUtc = none := congrArg TaskCols.dueAtUtc hr
  have hqdue : q.dueAtUtc ≠ none := by
    have hcol : q.dueAtUtc = (lookup resolved t.key).map ResolvedTask.dueAtUtc :=
      congrArg TaskCols.dueAtUtc hqcols
    rw [hcol]
    obtain ⟨window, hwindow, _⟩ := lookup_collect hres ht
    rw [hwindow]
    exact Option.some_ne_none _
  refine ⟨?_, hdue, hqdue⟩
  rw [SameTask, PlainTemplate, hchildApp, hdue]
  show _ ∧ scopeOnly t.body = (m.db.approvals.filter (fun a => a.taskId = q.id)).map
    approvalSettings ∧ _ ↔ _
  rw [specApprovals_scopeOnly hqapp]
  constructor
  · rintro ⟨_, hplain, hsched⟩
    refine ⟨?_, hplain⟩
    by_contra hne
    exact hqdue (hsched hne).symm
  · rintro ⟨hsched, hplain⟩
    exact ⟨hsettings, hplain, fun hne => absurd hsched hne⟩

/-! ## One template, both ways -/

/-- A checkpoint with the given schedule, as a task and as a template. -/
def checkpointAt (schedule : Option ScheduleSpec) : TaskSpec :=
  { key := "q", title := "q", body := .checkpoint, schedule := schedule }

def checkpointTemplate (schedule : Option ScheduleSpec) : Json :=
  .obj ([("type", .str "checkpoint"), ("key", .str "q"), ("title", .str "q")] ++
    (schedule.map (fun s => ("schedule", s.toJson))).toList)

def eachCheckpoint (schedule : Option ScheduleSpec) : ForeachConfig :=
  ⟨"s", "item", none, checkpointTemplate schedule, none, none⟩

/-- A workflow with the checkpoint as the template of a fan-out and as a task. -/
def twice (schedule : Option ScheduleSpec) : WorkflowSpec :=
  { name := "w"
    tasks := [{ key := "s", title := "s", body := .agentTask ⟨"pkg", none, none, none⟩ none },
      { key := "p", title := "p", body := .checkpoint,
        foreach := some (eachCheckpoint schedule) },
      checkpointAt schedule] }

def beforeTwice (schedule : Option ScheduleSpec) : Engine :=
  run plainHost (start plainHost (twice schedule)) oneItem

def afterTwice (schedule : Option ScheduleSpec) : Engine :=
  step plainHost (beforeTwice schedule) (.foreachPass 0 [])

theorem writtenTask_start (hvalid : TemplateValid host spec)
    (h : starts host spec = true) (ht : t ∈ spec.tasks) (hq : q ∈ (start host spec).db.tasks)
    (hkey : q.key = t.key) : WrittenTask host t (start host spec) q := by
  have hcreate : createWorkflowFromSpec host "wf" spec.name spec 0 = .ok (start host spec) := by
    rw [starts] at h
    rw [start]
    cases hc : createWorkflowFromSpec host "wf" spec.name spec 0 with
    | ok e => rfl
    | error err =>
      rw [hc] at h
      cases h
  rw [createWorkflowFromSpec] at hcreate
  obtain ⟨at_, _, hok⟩ := bind_ok.mp hcreate
  exact ⟨spec, [], _, hvalid.keys_nodup, ht, rfl, rfl, hok, hq, hkey⟩

variable {schedule : Option ScheduleSpec}

/-- The one child of `twice`, once its run is known to be due and its key free. -/
theorem writtenChild_twice (hvalid : TemplateValid plainHost (twice schedule))
    (hstart : starts plainHost (twice schedule) = true)
    (hactive : (beforeTwice schedule).db.workflow.status = .active)
    (hrows : (beforeTwice schedule).db.tasks = [rowOf (beforeTwice schedule) "s",
      rowOf (beforeTwice schedule) "p", rowOf (beforeTwice schedule) "q"])
    (hturn : DueTurn plainHost 0 (beforeTwice schedule) (rowOf (beforeTwice schedule) "p")
      (eachCheckpoint schedule) (rowOf (beforeTwice schedule) "s") (beforeTwice schedule) (afterTwice schedule))
    (hitems : sourceItems (turnArgs (beforeTwice schedule) (beforeTwice schedule)
      (rowOf (beforeTwice schedule) "p") (eachCheckpoint schedule)
      (rowOf (beforeTwice schedule) "s")).sourceOutput = some [.str "x"])
    (hfree : ∀ t ∈ (beforeTwice schedule).db.tasks,
      t.key ≠ childKey (rowOf (beforeTwice schedule) "p").key "0000")
    (hids : stableIds plainHost (eachCheckpoint schedule) (rowOf (beforeTwice schedule) "p").key 0 []
      [.str "x"] = .ok ["0000"])
    (hnew : newRows (beforeTwice schedule) (afterTwice schedule) = [r]) :
    WrittenChild plainHost (substituted (eachCheckpoint schedule) [.str "x"] 0 (.str "x"))
      (afterTwice schedule) r := by
  refine ⟨0, beforeTwice schedule, beforeTwice schedule, rowOf (beforeTwice schedule) "p", _,
    rowOf (beforeTwice schedule) "s", [.str "x"], 0, .str "x",
    reachable_run plainHost (twice schedule) oneItem hvalid hstart (by decide +kernel), hactive,
    hturn, ?_, ?_, hitems, rfl, ?_, rfl⟩
  · rw [hrows]
    exact .tail _ (List.mem_cons_self ..)
  · intro _ items stables hitems' hstables s hs t ht
    rw [Option.some.inj (hitems'.symm.trans hitems)] at hstables
    rw [Except.ok.inj (hstables.symm.trans hids), List.mem_singleton] at hs
    rw [hs]
    exact hfree t ht
  · rw [hnew]
    rfl

theorem objectField_none : ObjectField none := by
  intro j hj
  cases hj

/-- A template with a type and at most a schedule describes a checkpoint. -/
theorem describes_checkpoint (htype : tmpl.field? "type" = some (.str "checkpoint"))
    (hschedule : (tmpl.field? "schedule").map stored = schedule.map (fun s => stored s.toJson))
    (hnone : ∀ name ∈ ["required", "failurePolicy", "missedWindowPolicy", "retryPolicy",
      "maxAttempts", "cancelPolicy"], tmpl.field? name = none) :
    Describes tmpl (checkpointAt schedule) where
  type := htype
  required := hnone _ (by simp)
  schedule := hschedule
  failurePolicy := hnone _ (by simp)
  missedWindowPolicy := hnone _ (by simp)
  retryPolicy := ⟨hnone _ (by simp), objectField_none⟩
  maxAttempts := hnone _ (by simp)
  cancelPolicy := ⟨hnone _ (by simp), objectField_none⟩
  body := trivial

def atEpoch : Option ScheduleSpec := some (.absolute "1970-01-01T00:00:00Z" none none none)

set_option maxRecDepth 8000 in
theorem child_as_template_unscheduled :
    SameTask (checkpointAt none) (afterTwice none) (rowOf (afterTwice none) "p__0000")
      (start plainHost (twice none)) (rowOf (start plainHost (twice none)) "q") := by
  have hrows : (beforeTwice none).db.tasks = [rowOf (beforeTwice none) "s",
      rowOf (beforeTwice none) "p", rowOf (beforeTwice none) "q"] := by decide +kernel
  have hturn : DueTurn plainHost 0 (beforeTwice none) (rowOf (beforeTwice none) "p")
      (eachCheckpoint none) (rowOf (beforeTwice none) "s") (beforeTwice none) (afterTwice none) :=
    dueTurn_second hrows (by decide +kernel) (by decide +kernel) (by decide +kernel)
      (by decide +kernel)
  have hchild := writtenChild_twice (r := rowOf (afterTwice none) "p__0000") (by decide +kernel)
    (by decide +kernel) (by decide +kernel) hrows hturn (by decide +kernel) (by decide +kernel)
    (by decide +kernel) (by decide +kernel)
  have htask : WrittenTask plainHost (checkpointAt none) (start plainHost (twice none))
      (rowOf (start plainHost (twice none)) "q") :=
    writtenTask_start (by decide +kernel) (by decide +kernel) (by decide +kernel)
      (by decide +kernel) (by decide +kernel)
  have hdesc : Describes (substituted (eachCheckpoint none) [.str "x"] 0 (.str "x"))
      (checkpointAt none) :=
    describes_checkpoint (by decide +kernel) (by decide +kernel) (by decide +kernel)
  exact (child_as_template_iff hchild htask hdesc).1.mpr ⟨rfl, trivial⟩

set_option maxRecDepth 8000 in
/-- A scheduled template: its child is never due, the task is. -/
theorem scheduledChild_differs : ∃ tmpl r q, WrittenChild plainHost tmpl (afterTwice atEpoch) r ∧
      WrittenTask plainHost (checkpointAt atEpoch) (start plainHost (twice atEpoch)) q ∧
      Describes tmpl (checkpointAt atEpoch) ∧
      ¬ SameTask (checkpointAt atEpoch) (afterTwice atEpoch) r
        (start plainHost (twice atEpoch)) q := by
  have hrows : (beforeTwice atEpoch).db.tasks = [rowOf (beforeTwice atEpoch) "s",
      rowOf (beforeTwice atEpoch) "p", rowOf (beforeTwice atEpoch) "q"] := by decide +kernel
  have hturn : DueTurn plainHost 0 (beforeTwice atEpoch) (rowOf (beforeTwice atEpoch) "p")
      (eachCheckpoint atEpoch) (rowOf (beforeTwice atEpoch) "s") (beforeTwice atEpoch) (afterTwice atEpoch) :=
    dueTurn_second hrows (by decide +kernel) (by decide +kernel) (by decide +kernel)
      (by decide +kernel)
  refine ⟨_, rowOf (afterTwice atEpoch) "p__0000", rowOf (start plainHost (twice atEpoch)) "q",
    writtenChild_twice (by decide +kernel) (by decide +kernel) (by decide +kernel) hrows hturn
      (by decide +kernel) (by decide +kernel) (by decide +kernel) (by decide +kernel),
    writtenTask_start (by decide +kernel) (by decide +kernel) (by decide +kernel)
      (by decide +kernel) (by decide +kernel), ?_, ?_⟩
  · exact describes_checkpoint (by decide +kernel) (by decide +kernel) (by decide +kernel)
  · rintro ⟨_, _, hdue⟩
    have hne : (rowOf (afterTwice atEpoch) "p__0000").dueAtUtc ≠
        (rowOf (start plainHost (twice atEpoch)) "q").dueAtUtc := by decide +kernel
    exact hne (hdue (by decide +kernel))

end WfChildRows
