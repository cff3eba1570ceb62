import Cinatra.Extensions.BatchRollback

/-! # AllOrNothing — the two ends of a batch install

    Either every planned member is there and the ledger says so, or everything
    the batch has added is gone again, newest first, or named.  What was in sight
    before is never uninstalled: of a member that only the platform had, or the
    organisation at another version, the batch keeps no way back. -/

namespace ExtBatchRollback

open Process RowTable ExtInstallBatch ExtBatchWorld

variable {planner : Planner} {start w : World} {org orgId : Option String}
  {rows : List LiveRow} {name : String} {ordered : List PlannedMember}

/-! ## Rows of other packages -/

theorem find?_rowAt_filter {p : LiveRow → Bool} (hp : ∀ r, rowAt name orgId r = true → p r = true) :
    (rows.filter p).find? (rowAt name orgId) = rows.find? (rowAt name orgId) := by
  rw [List.find?_filter]
  congr 1
  funext r
  cases hr : rowAt name orgId r with
  | false => simp
  | true => simp [hp r hr]

theorem findLiveRow_remove {p : String} (hne : name ≠ p) :
    findLiveRow (removeRows p rows) name org = findLiveRow rows name org := by
  have hkeep : ∀ o r, rowAt name o r = true → decide (r.packageName ≠ p) = true := by
    intro o r hr
    rw [(rowAt_iff.mp hr).1]
    exact decide_eq_true hne
  rw [findLiveRow, removeRows, find?_rowAt_filter (hkeep org), find?_rowAt_filter (hkeep none)]
  rfl

variable {m : PlannedMember}

theorem findLiveRow_upsert (hne : name ≠ m.packageName) :
    findLiveRow (upsertRow orgId rows m) name org = findLiveRow rows name org := by
  have hnot : ∀ o r, r.packageName = m.packageName → rowAt name o r = false := by
    intro o r hr
    rw [← Bool.not_eq_true]
    intro hat
    exact hne ((rowAt_iff.mp hat).1.symm.trans hr)
  have hone : ∀ o, (upsertRow orgId rows m).find? (rowAt name o) = rows.find? (rowAt name o) := by
    intro o
    rw [upsertRow, List.find?_append, find?_rowAt_filter, List.find?_singleton, hnot o _ rfl]
    · cases rows.find? (rowAt name o) <;> rfl
    · intro r hr
      cases hm : rowAt m.packageName orgId r with
      | false => rfl
      | true =>
        rw [hnot o r (rowAt_iff.mp hm).1] at hr
        exact absurd hr (by decide)
  rw [findLiveRow, hone, hone, findLiveRow]

variable {ms : List PlannedMember}

theorem findLiveRow_installAll (hn : name ∉ ms.map PlannedMember.packageName) :
    findLiveRow (installAll orgId ms rows) name org = findLiveRow rows name org := by
  induction ms generalizing rows with
  | nil => rfl
  | cons m ms ih =>
    rw [List.map_cons, List.mem_cons, not_or] at hn
    show findLiveRow (installAll orgId ms (upsertRow orgId rows m)) name org = _
    rw [ih hn.2, findLiveRow_upsert hn.1]

theorem findLiveRow_removeAll {names : List String} (hn : name ∉ names) :
    findLiveRow (removeAll names rows) name org = findLiveRow rows name org := by
  induction names generalizing rows with
  | nil => rfl
  | cons p names ih =>
    rw [List.mem_cons, not_or] at hn
    show findLiveRow (removeAll names (removeRows p rows)) name org = _
    rw [ih hn.2, findLiveRow_remove hn.1]

/-- An installed member has its row, when no other of the list is of its package. -/
theorem mem_installAll (hm : m ∈ ms) (hnd : (ms.map PlannedMember.packageName).Nodup) :
    ⟨m.packageName, org, some m.version⟩ ∈ installAll org ms rows := by
  have hkeep : ∀ (rest : List PlannedMember) (rows : List LiveRow),
      m.packageName ∉ rest.map PlannedMember.packageName →
      (⟨m.packageName, org, some m.version⟩ : LiveRow) ∈ rows →
      ⟨m.packageName, org, some m.version⟩ ∈ installAll org rest rows := by
    intro rest
    induction rest with
    | nil => exact fun _ _ h => h
    | cons x rest ih =>
      intro rows hnot hrow
      rw [List.map_cons, List.mem_cons, not_or] at hnot
      refine ih _ hnot.2 (List.mem_append_left _ (List.mem_filter.mpr ⟨hrow, ?_⟩))
      rw [Bool.not_eq_true', ← Bool.not_eq_true, rowAt_iff]
      exact fun h => hnot.1 h.1
  induction ms generalizing rows with
  | nil => cases hm
  | cons x ms ih =>
    rw [List.map_cons, List.nodup_cons] at hnd
    rcases List.mem_cons.mp hm with rfl | hm
    · exact hkeep ms _ hnd.1 (List.mem_concat_self)
    · exact ih hm hnd.2

variable {input : PlanInput}

theorem skipped_notMem (h : PlanSound rows input ordered) (hm : m ∈ ordered)
    (hskip : m.alreadyInstalled = true) :
    m.packageName ∉ (toInstallOf ordered).map PlannedMember.packageName := by
  intro hin
  obtain ⟨m', hm', hname⟩ := List.mem_map.mp hin
  obtain ⟨hm', hto⟩ := List.mem_filter.mp hm'
  rw [eq_of_key h.names hm' hm hname, hskip] at hto
  exact absurd hto (by decide)

/-- A skipped member is in sight, and where it is at a version it is the pinned one. -/
theorem skipped_inSight (h : PlanSound rows input ordered) (hm : m ∈ ordered)
    (hskip : m.alreadyInstalled = true) : ∃ r, findLiveRow rows m.packageName input.orgId = some r ∧
      (r.version = none ∨ r.version = some m.version) := by
  have hne : m.packageName ≠ input.rootPackage := by
    intro hroot
    obtain ⟨deps, root, hord, hname, hto⟩ := h.root
    have hr : root ∈ ordered := by
      rw [hord]
      exact List.mem_concat_self
    rw [eq_of_key h.names hm hr (hroot.trans hname.symm), hto] at hskip
    exact absurd hskip (by decide)
  obtain ⟨r, hr⟩ := Option.isSome_iff_exists.mp ((h.skipped m hm hne).mp hskip)
  exact ⟨r, hr, h.pinned m hm hskip r hr⟩

/-! ## Both ends -/

/-- Every member is there: the new ones at their version, the skipped ones as before. -/
def EveryMember (start : World) (org : Option String) (ordered : List PlannedMember) (w : World) :
    Prop :=
  ∀ m ∈ ordered, (m.alreadyInstalled = false → ⟨m.packageName, org, some m.version⟩ ∈ w.rows) ∧
    (m.alreadyInstalled = true →
      findLiveRow w.rows m.packageName org = findLiveRow start.rows m.packageName org ∧
      ∃ r, findLiveRow start.rows m.packageName org = some r ∧
        (r.version = none ∨ r.version = some m.version))

/-- Nothing new is left: a member that was not in sight is gone or named, one that
    was is not uninstalled, and one the plan skips is as before. -/
def NothingNew (start : World) (org : Option String) (ordered : List PlannedMember)
    (undone failures : List String) (w : World) : Prop :=
  ∀ m ∈ ordered, (findLiveRow start.rows m.packageName org = none →
      ¬ LiveAt w.rows m.packageName org ∨ m.packageName ∈ failures) ∧
    ((findLiveRow start.rows m.packageName org).isSome = true → m.packageName ∉ undone) ∧
    (m.alreadyInstalled = true →
      findLiveRow w.rows m.packageName org = findLiveRow start.rows m.packageName org)

/-- A call has been made to uninstall the package, and was answered with a fault. -/
def Refused (made : List (Call × Answer)) (name : String) : Prop :=
  MayRefuse (fun c f => (c, f) ∈ made) name

/-- How an install ends that has made these calls: with a result or an error, in a world. -/
structure AllOrNothing (planner : Planner) (start : World) (input : InstallInput)
    (made : List (Call × Answer)) (r : Except BatchError BatchInstallResult) (w : World) :
    Prop where
  all : ∀ result, r = .ok result → ∃ ordered, PlannedFor planner start input ordered ∧
    Delivered start input ordered result w ∧ EveryMember start input.orgId ordered w
  nothing : ∀ err, r = .error err → Untouched start w ∨
    ∃ ordered, PlannedFor planner start input ordered ∧
      ∃ failedMember cause compensated failures installed undone,
        err = abortError failedMember cause compensated failures ∧
        RolledBack (Refused made) start input.orgId ordered installed undone failures w ∧
        NothingNew start input.orgId ordered undone failures w

variable {input : InstallInput}

theorem Delivered.everyMember {result : BatchInstallResult}
    (hplan : PlannedFor planner start input ordered)
    (h : Delivered start input ordered result w) : EveryMember start input.orgId ordered w := by
  obtain ⟨version, closure, hplan⟩ := hplan
  have hsound := planner.sound _ _ _ hplan
  intro m hm
  refine ⟨fun hto => ?_, fun hskip => ⟨?_, skipped_inSight hsound hm hskip⟩⟩
  · rw [h.rows]
    refine mem_installAll (List.mem_filter.mpr ⟨hm, by rw [hto]; rfl⟩) ?_
    exact hsound.names.sublist ((List.filter_sublist).map _)
  · rw [h.rows]
    exact findLiveRow_installAll (skipped_notMem hsound hm hskip)

theorem RolledBack.nothingNew {refused : String → Prop} {installed : List PlannedMember}
    {undone failures : List String} (hplan : PlannedFor planner start input ordered)
    (h : RolledBack refused start input.orgId ordered installed undone failures w) :
    NothingNew start input.orgId ordered undone failures w := by
  obtain ⟨version, closure, hplan⟩ := hplan
  have hsound := planner.sound _ _ _ hplan
  have hnotUndone : ∀ n, (findLiveRow start.rows n input.orgId).isSome = true → n ∉ undone := by
    intro n hn hin
    rw [h.absent n hin] at hn
    exact absurd hn (by decide)
  intro m hm
  refine ⟨fun hn => ?_, hnotUndone m.packageName, fun hskip => ?_⟩
  · by_cases hf : m.packageName ∈ failures
    · exact .inr hf
    · exact .inl (h.gone hn hf)
  · obtain ⟨r, hr, -⟩ := skipped_inSight hsound hm hskip
    rw [h.rows, findLiveRow_removeAll (hnotUndone _ (by rw [hr]; rfl)),
      findLiveRow_installAll (fun hin => skipped_notMem hsound hm hskip (List.map_subset _ h.plan.subset hin))]

theorem refused_of_mayRefuse {made : List (Call × Answer)}
    (h : MayRefuse (fun c f => (c, f) ∈ made ∨ f.fault = none) name) : Refused made name := by
  obtain ⟨version, typeId, f, hmade | hnone, hfault⟩ := h
  · exact ⟨version, typeId, f, hmade, hfault⟩
  · rw [hnone] at hfault
    cases hfault

/-- **A batch install is all or nothing**: whatever fails, and wherever. -/
theorem all_or_nothing (planner : Planner) (input : InstallInput) (start : World)
    (hfresh : Fresh start) (s : Nat → Answer) : AllOrNothing planner start input
      (calls (environment planner) (installExtensionWithDependencies input) s start)
      (run (environment planner) (installExtensionWithDependencies input) s start).1
      (run (environment planner) (installExtensionWithDependencies input) s start).2 := by
  -- a call is answered as the run answers it, or without a fault
  have hspec : Guarded planner (fun c f => (c, f) ∈ calls (environment planner)
        (installExtensionWithDependencies input) s start ∨ f.fault = none) start input.orgId
      (installExtensionWithDependencies input) (Ends planner (MayRefuse _) start input) start :=
    install_spec hfresh
  have hends := Spec.run_restricted (fun _ => ⟨{}, .inr rfl⟩) hspec (fun x hx => .inl hx)
  revert hends
  generalize run (environment planner) (installExtensionWithDependencies input) s start = e
  obtain ⟨r, w⟩ := e
  intro hends
  constructor
  · rintro result rfl
    obtain ⟨⟨ordered, hplan, hdel⟩, -⟩ := hends
    exact ⟨ordered, hplan, hdel, hdel.everyMember hplan⟩
  · rintro err rfl
    rcases hends.1 with huntouched | ⟨ordered, hplan, id, ⟨hthrown, -⟩⟩
    · exact .inl huntouched
    · obtain ⟨failedMember, cause, compensated, failures, installed, undone, herr, hback⟩ :=
        hthrown
      have hback' : RolledBack (Refused _) start input.orgId ordered installed undone failures w :=
        { hback with refused := fun n hn => (hback.refused n hn).imp_right refused_of_mayRefuse }
      exact .inr ⟨ordered, hplan, failedMember, cause, compensated, failures, installed,
        undone, herr, hback', hback'.nothingNew hplan⟩

/-! ### One root and one dependency -/

/-- A planner with one answer. -/
def Planner.one (rows : List LiveRow) (input : PlanInput) (ordered : List PlannedMember)
    (h : PlanSound rows input ordered) : Planner where
  plan rows' input' :=
    if rows' = rows ∧ input' = input then .ok ordered else .error (.step "no plan" false)
  sound := by
    intro rows' input' ordered' hplan
    split at hplan
    · rename_i heq
      rw [heq.1, heq.2, ← Except.ok.inj hplan]
      exact h
    · exact absurd hplan (by simp)

def emptyWorld (rows : List LiveRow) : World := ⟨rows, [], 0, 0, [], []⟩

/-- The platform has version 1 of the root. -/
def platformRoot : List LiveRow := [⟨"root", none, some "1"⟩]

def rootInput : InstallInput := ⟨"root", some "2", some "acme", false, none⟩

/-- The fault of one call. -/
def failAt (k : Nat) (n : Nat) : Answer :=
  if n = k then { fault := some (.step "unavailable" false) } else {}

def depThenRoot : Planner :=
  Planner.one platformRoot ⟨"root", "2", some "acme", none⟩
    [⟨"dep", "1", "skill", false⟩, ⟨"root", "2", "agent", false⟩]
    ⟨by decide, ⟨[⟨"dep", "1", "skill", false⟩], ⟨"root", "2", "agent", false⟩, rfl, rfl, rfl⟩,
      by decide, by decide⟩

def rootAlone : Planner :=
  Planner.one platformRoot ⟨"root", "2", some "acme", none⟩ [⟨"root", "2", "agent", false⟩]
    ⟨by decide, ⟨[], ⟨"root", "2", "agent", false⟩, rfl, rfl, rfl⟩, by decide, by decide⟩

/-- The install of the root under a schedule of answers. -/
def outcome (planner : Planner) (s : Nat → Answer) : Except BatchError BatchInstallResult × World :=
  run (environment planner) (installExtensionWithDependencies rootInput) s (emptyWorld platformRoot)

/-- The install of the root asks for a rebuild, and `dep` is not uninstalled. -/
def stuck : Nat → Answer
  | 16 => { fault := some (.step "rebuild" true) }
  | 19 => { fault := some (.step "unavailable" false) }
  | _ => {}

theorem all_or_nothing_stuck : AllOrNothing depThenRoot (emptyWorld platformRoot) rootInput
      (calls (environment depThenRoot) (installExtensionWithDependencies rootInput) stuck
        (emptyWorld platformRoot)) (outcome depThenRoot stuck).1 (outcome depThenRoot stuck).2 :=
  all_or_nothing depThenRoot rootInput (emptyWorld platformRoot) (fun _ hb => by cases hb) stuck

theorem root_kept : ((outcome rootAlone (fun _ => {})).1.toOption.isSome = true ∧
      (outcome rootAlone (fun _ => {})).2.ledger = []) ∧ (outcome depThenRoot (failAt 19)).1 =
      .error (.memberInstall "root" ["dep"] [] (.step "unavailable" false)) ∧
    ¬ LiveAt platformRoot "root" (some "acme") ∧
    LiveAt (outcome depThenRoot (failAt 19)).2.rows "root" (some "acme") := by
  decide

end ExtBatchRollback
