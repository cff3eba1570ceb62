import Cinatra.Extensions.BatchWorld
import Cinatra.Lib.Pool

/-! # BatchViews — what an install and a sweep know of themselves

    The view of a running install or sweep: whether it holds the lifecycle lock,
    what it has planned, whether the overlap guard has let it through, the batch it
    drives, the batches it sweeps.  Each program makes only the calls its view
    allows: an install begins a batch under the lock and writes to that batch until
    it is finalized; a sweep writes to the batches it has listed. -/

namespace ExtBatchViews

open Process ExtInstallBatch

/-- What an install or a sweep knows of itself. -/
structure View where
  org : Option String
  /-- It holds the lifecycle lock. -/
  held : Bool := false
  /-- The packages it has planned. -/
  names : List String := []
  /-- The overlap guard has let it through: the install is in flight. -/
  cleared : Bool := false
  drawn : Option Nat := none
  /-- The batch it drives; an install without one is on the root-only fast path. -/
  batch : Option Nat := none
  /-- It has finalized its batch. -/
  closed : Bool := false
  /-- The stale batches it has listed. -/
  stale : List InstallBatch := []
deriving DecidableEq

/-- What a reply teaches. -/
def see (v : View) : (c : Call) → Except BatchError (Call.Reply c) → View
  | .acquireLifecycleLock, .ok _ => { v with held := true }
  | .releaseLifecycleLock, .ok _ => { v with held := false }
  | .plan _, .ok ordered => { v with names := List.map PlannedMember.packageName ordered }
  | .listActive, .ok active =>
    { v with cleared := List.all active (fun b => overlapNames v.names v.org b = []) }
  | .randomUUID, .ok id => { v with drawn := some id }
  | .begin _ _ _ _, .ok batch => { v with batch := some (InstallBatch.batchId batch) }
  | .setPhase _ .finalized, .ok _ => { v with closed := true }
  | .listStale _, .ok batches => { v with stale := batches }
  | _, _ => v

/-- The batch is the one it drives, or one it sweeps. -/
def Writes (v : View) (batchId : Nat) : Prop :=
  (v.batch = some batchId ∧ v.closed = false) ∨ ∃ b ∈ v.stale, b.batchId = batchId

/-- The calls a view allows. -/
def Allowed (v : View) : Call → Prop
  | .acquireLifecycleLock => v.held = false ∧ v.cleared = false
  | .plan _ | .listActive => v.held = true ∧ v.cleared = false
  | .randomUUID => v.batch = none
  | .begin batchId _ orgId members => v.held = true ∧ v.cleared = true ∧ v.batch = none ∧
      v.drawn = some batchId ∧ orgId = v.org ∧
      members.map InstallBatchMember.packageName = v.names
  | .setPhase batchId phase => Writes v batchId ∧ (phase = .finalized → v.stale = [])
  | .updateMember batchId _ _ => Writes v batchId
  | .installMember m orgId => v.cleared = true ∧ m.packageName ∈ v.names ∧ orgId = v.org
  | .uninstallMember packageName _ _ => (v.cleared = true ∧ packageName ∈ v.names) ∨
      ∃ b ∈ v.stale, ∃ m ∈ b.members, sweepable m = true ∧ m.packageName = packageName
  | .listStale _ => v.batch = none ∧ v.drawn = none
  | _ => True

instance : Inhabited BatchError := ⟨.duplicateBatch⟩

variable {α β : Type} {v : View} {batch : InstallBatch}

/-! ## Programs that learn nothing -/

/-- The program makes allowed calls only and leaves the view; `F` holds of its
    result. -/
def Steady (v : View) (F : α → Prop) (p : P α) : Prop :=
  Spec (observed see) Allowed p (fun r v' => v' = v ∧ ∀ a, r = .ok a → F a) v

variable {F : α → Prop} {G : β → Prop}

theorem steady_call {c : Call} (hA : Allowed v c) (hsee : ∀ r, see v c r = v) :
    Steady v (fun _ => True) (perform c : P (Call.Reply c)) :=
  observe_spec hA (fun r => ⟨hsee r, fun _ _ => trivial⟩)

theorem steady_ok {a : α} (h : F a) : Steady v F (.done (.ok a)) :=
  ⟨rfl, fun _ hok => Except.ok.inj hok ▸ h⟩

theorem steady_error {err : BatchError} : Steady v F (.done (.error err)) :=
  ⟨rfl, fun _ hok => nomatch hok⟩

variable {p : P α}

/-- Programs that learn nothing compose. -/
theorem Steady.bind {f : α → P β} (hp : Steady v F p)
    (hf : ∀ a, F a → Steady v G (f a)) : Steady v G (p.bind f) := by
  refine Spec.bind (Spec.mono hp ?_)
  rintro r v' ⟨rfl, hr⟩
  cases r with
  | ok a => exact hf a (hr a rfl)
  | error err => exact steady_error

theorem Steady.attempt (hp : Steady v F p) :
    Steady v (fun r => ∀ a, r = .ok a → F a) p.attempt := by
  refine Spec.attempt (Spec.mono hp ?_)
  rintro r v' ⟨rfl, hr⟩
  exact steady_ok hr

theorem Steady.swallow (hp : Steady v F p) : Steady v (fun _ => True) (swallow p) :=
  Spec.swallow (Spec.mono hp (fun _ _ h => ⟨h.1, fun _ _ => trivial⟩))

/-! ## An install -/

/-- The view of an install that is under way, through the guard. -/
structure Drives (v : View) (batch : InstallBatch) : Prop where
  cleared : v.cleared = true
  batch : v.batch = some batch.batchId
  closed : v.closed = false

theorem Drives.writes (h : Drives v batch) : Writes v batch.batchId := .inl ⟨h.batch, h.closed⟩

theorem steady_setPhase {phase : InstallBatchPhase} (h : Writes v batch.batchId)
    (hphase : phase ≠ .finalized) :
    Steady v (fun _ => True) (perform <| Call.setPhase batch.batchId phase) := by
  refine steady_call ⟨h, fun hc => absurd hc hphase⟩ (fun r => ?_)
  cases phase with
  | finalized => exact absurd rfl hphase
  | planning | installing | failed | compensated => rfl

theorem steady_updateMember {packageName : String} {patch : MemberPatch}
    (h : Writes v batch.batchId) :
    Steady v (fun _ => True) (perform <| Call.updateMember batch.batchId packageName patch) :=
  steady_call h (fun _ => rfl)

/-- The packages of a list are among those the view has planned. -/
def Within (v : View) (ms : List PlannedMember) : Prop := ∀ m ∈ ms, m.packageName ∈ v.names

variable {m : PlannedMember}

theorem Within.tail {rest : List PlannedMember} (h : Within v (m :: rest)) :
    Within v rest := fun x hx => h x (.tail _ hx)

theorem Within.snoc {ms : List PlannedMember} (h : Within v ms)
    (hm : m.packageName ∈ v.names) : Within v (ms ++ [m]) := by
  intro x hx
  rcases RowTable.mem_concat.mp hx with hx | rfl
  · exact h x hx
  · exact hm

/-- Undoing members writes to the own batch only. -/
theorem compensateMembers_steady (hd : Drives v batch) (ms : List PlannedMember) :
    ∀ compensated failures : List String, Within v ms →
      Steady v (fun _ => True) (compensateMembers batch ms compensated failures) := by
  induction ms with
  | nil => exact fun _ _ _ => steady_ok trivial
  | cons m rest ih =>
    intro compensated failures hms
    rw [compensateMembers]
    split
    · exact ih _ _ hms.tail
    refine Steady.bind (Steady.attempt (Steady.bind (steady_call (c := .uninstallMember _ _ _)
      (.inl ⟨hd.cleared, hms m (.head _)⟩) (fun _ => rfl))
      (fun _ _ => steady_updateMember hd.writes))) ?_
    rintro r -
    cases r with
    | ok u => exact ih _ _ hms.tail
    | error err =>
      exact Steady.bind (Steady.swallow (steady_updateMember hd.writes))
        (fun _ _ => ih _ _ hms.tail)

variable {installed : List PlannedMember}

/-- So does an abort. -/
theorem abort_steady {failedMember : String} {cause : BatchError}
    (hd : Drives v batch) (hms : Within v installed) :
    Steady v F (abortAndCompensate batch installed failedMember cause) := by
  refine Steady.bind (Steady.swallow (steady_updateMember hd.writes)) (fun _ _ => ?_)
  refine Steady.bind (Steady.swallow (steady_setPhase hd.writes (by decide))) (fun _ _ => ?_)
  refine Steady.bind (compensateMembers_steady hd _ _ _
    (fun m hm => hms m (List.mem_reverse.mp hm))) ?_
  rintro ⟨compensated, failures⟩ -
  refine Steady.bind (Steady.swallow (steady_setPhase hd.writes ?_)) (fun _ _ => ?_)
  · split
    · decide
    · decide
  · show Steady v F (ite _ _ _)
    split
    · exact steady_error
    · exact steady_error

variable {resolution : Option GrantResolution} {input : InstallInput} {rootVersion : String}

theorem refreshIfNear_steady :
    Steady v (fun _ => True) (refreshIfNear input rootVersion resolution) := by
  cases resolution with
  | none => exact steady_ok trivial
  | some resolution =>
    simp only [refreshIfNear]
    split
    · exact steady_error
    refine Steady.bind (steady_call (c := .now) trivial (fun _ => rfl)) (fun now _ => ?_)
    show Steady v _ (ite _ _ _)
    split
    · refine Steady.bind (steady_call (c := .refreshGrant _ _ _) trivial (fun _ => rfl))
        (fun refreshed _ => ?_)
      show Steady v _ (ite _ _ _)
      split
      · exact steady_ok trivial
      · exact steady_error
    · exact steady_ok trivial

/-- Members are installed after the guard, and only planned ones. -/
theorem installMembers_steady
    (hd : Drives v batch) (horg : input.orgId = v.org) (ms : List PlannedMember) :
    ∀ (resolution : Option GrantResolution) (installed : List PlannedMember),
      Within v installed → Within v ms →
      Steady v (Within v) (installMembers input rootVersion batch ms resolution installed) := by
  induction ms with
  | nil => exact fun _ _ hin _ => steady_ok hin
  | cons m rest ih =>
    intro resolution installed hin hms
    have hm : m.packageName ∈ v.names := hms m (.head _)
    rw [installMembers]
    refine Steady.bind (F := fun _ => True) ?_ ?_
    · refine Spec.mono (Steady.attempt (F := fun _ => True) ?_) (fun _ _ h => ⟨h.1, fun _ _ => trivial⟩)
      refine Steady.bind refreshIfNear_steady (fun _ _ => ?_)
      refine Steady.bind (steady_updateMember hd.writes) (fun _ _ => ?_)
      exact Steady.bind (steady_call (c := .installMember _ _) ⟨hd.cleared, hm, horg⟩
        (fun _ => rfl)) (fun _ _ => steady_ok trivial)
    · rintro r -
      cases r with
      | error err => exact abort_steady hd hin
      | ok resolution =>
        refine Steady.bind (Steady.attempt (Steady.bind (Steady.attempt
          (steady_call (c := .readInstallOp _ _) trivial (fun _ => rfl)))
          (fun _ _ => steady_updateMember hd.writes))) ?_
        rintro r -
        cases r with
        | error err => exact abort_steady hd (hin.snoc hm)
        | ok u => exact ih _ _ (hin.snoc hm) hms.tail

variable {org : Option String}

theorem captureMembers_steady (ms : List PlannedMember) :
    Steady v (fun members => members.map InstallBatchMember.packageName =
      ms.map PlannedMember.packageName) (captureMembers org ms) := by
  induction ms with
  | nil => exact steady_ok rfl
  | cons m rest ih =>
    have hmember : Steady v (fun x => x.packageName = m.packageName) (captureMember org m) :=
      Steady.bind (steady_call (c := .readLiveRowVersion _ _) trivial (fun _ => rfl))
        (fun _ _ => Steady.bind (steady_call (c := .readInstallOp _ _) trivial (fun _ => rfl))
          (fun _ _ => steady_ok rfl))
    refine Steady.bind hmember (fun x hx => Steady.bind ih (fun xs hxs => steady_ok ?_))
    rw [List.map_cons, List.map_cons, hx, hxs]

/-- The planning section ends with the guard passed, and the batch it has begun. -/
def Planned.View (org : Option String) (held : Bool) (planned : Planned) (v : View) : Prop :=
  v.org = org ∧ v.held = held ∧ v.names = planned.ordered.map PlannedMember.packageName ∧
    v.cleared = true ∧ v.batch = planned.batch.map InstallBatch.batchId ∧ v.closed = false ∧
    v.stale = []

theorem all_clear {names : List String} {active : List InstallBatch}
    (h : active.find? (fun b => overlapNames names org b ≠ []) = none) :
    active.all (fun b => overlapNames names org b = []) = true := by
  rw [List.all_eq_true]
  intro b hb
  have hb' := List.find?_eq_none.mp h b hb
  simpa using hb'

/-- **A plan that goes on has passed the guard** under the lock, and its batch is drawn. -/
theorem planBatch_views : Spec (observed see) Allowed (planBatch input resolution)
      (Post (Planned.View input.orgId true) (fun _ _ => True))
      { org := input.orgId, held := true } := by
  refine Spec.bind (observe_spec ⟨rfl, rfl⟩ (fun ordered => ?_))
  cases ordered with
  | error err => trivial
  | ok ordered =>
    refine Spec.bind (observe_spec ⟨rfl, rfl⟩ (fun active => ?_))
    cases active with
    | error err => trivial
    | ok active =>
      dsimp only
      split
      · trivial
      rename_i hnone
      have hclear := all_clear hnone
      split
      · exact ⟨rfl, rfl, rfl, hclear, rfl, rfl, rfl⟩
      refine Spec.bind (Spec.mono (captureMembers_steady ordered) ?_)
      rintro r v₁ ⟨rfl, hr⟩
      cases r with
      | error err => trivial
      | ok members =>
        have hnames := hr members rfl
        refine Spec.bind (observe_spec rfl (fun id => ?_))
        cases id with
        | error err => trivial
        | ok id =>
          refine Spec.bind (observe_spec ⟨rfl, hclear, rfl, rfl, rfl, hnames⟩ (fun batch => ?_))
          cases batch with
          | error err => trivial
          | ok batch =>
            refine Spec.bind (Spec.mono (steady_setPhase (.inl ⟨rfl, rfl⟩) (by decide)) ?_)
            rintro r v₂ ⟨rfl, -⟩
            cases r with
            | error err => trivial
            | ok u => exact ⟨rfl, rfl, rfl, hclear, rfl, rfl, rfl⟩

theorem withLifecycleLock_views {Q : α → View → Prop}
    (hp : Spec (observed see) Allowed p
      (Post (fun a v => Q a { v with held := false }) (fun _ _ => True))
      { org := org, held := true }) :
    Spec (observed see) Allowed (withLifecycleLock p) (Post Q (fun _ _ => True))
      { org := org } := by
  refine Spec.bind (observe_spec ⟨rfl, rfl⟩ (fun u => ?_))
  cases u with
  | error err => trivial
  | ok u =>
    refine Spec.bind (Spec.attempt (Spec.mono hp ?_))
    intro r v hr
    refine Spec.bind (observe_spec trivial (fun u => ?_))
    cases u with
    | error err => trivial
    | ok u =>
      cases r with
      | error err => trivial
      | ok a => exact hr

theorem within_toInstall {ordered : List PlannedMember}
    (hn : v.names = ordered.map PlannedMember.packageName) : Within v (toInstallOf ordered) := by
  intro m hm
  rw [hn]
  exact List.mem_map_of_mem (List.mem_of_mem_filter hm)

theorem maybeReload_steady : Steady v (fun _ => True) (maybeReloadAgentRuntime installed) := by
  rw [maybeReloadAgentRuntime]
  split
  · exact Steady.swallow (steady_call (c := .triggerAgentRuntimeReload) trivial (fun _ => rfl))
  · exact steady_ok trivial

/-- An install makes only calls its view allows. -/
theorem runBatch_views : Spec (observed see) Allowed (runBatch input resolution) (fun _ _ => True)
      { org := input.orgId } := by
  have htrue : ∀ (v : View) (p : P BatchInstallResult), Steady v (fun _ => True) p →
      Spec (observed see) Allowed p (fun _ _ => True) v :=
    fun v p hp => Spec.mono hp (fun _ _ _ => trivial)
  simp only [runBatch]
  refine Spec.bind (Spec.mono (withLifecycleLock_views
    (Q := Planned.View input.orgId false) (Spec.mono planBatch_views ?_)) ?_)
  · intro r v hr
    cases r with
    | error err => trivial
    | ok planned =>
      obtain ⟨horg, -, hrest⟩ := hr
      exact ⟨horg, rfl, hrest⟩
  · intro r v hr
    cases r with
    | error err => trivial
    | ok planned =>
      obtain ⟨ordered, batch⟩ := planned
      obtain ⟨horg, -, hnames, hcleared, hbatch, hclosed, hstale⟩ := hr
      have hms : Within v (toInstallOf ordered) := within_toInstall hnames
      dsimp only
      split
      · -- the root-only fast path
        rename_i root rest heq
        rw [heq] at hms
        refine htrue _ _ (Steady.bind (steady_call (c := .installMember _ _)
          ⟨hcleared, hms root (.head _), horg.symm⟩ (fun _ => rfl)) (fun _ _ => ?_))
        exact Steady.bind maybeReload_steady (fun _ _ => steady_ok trivial)
      · trivial
      · rename_i batch
        have hd : Drives v batch := ⟨hcleared, hbatch, hclosed⟩
        refine Spec.bind (Spec.mono (installMembers_steady hd horg.symm _ _ []
          (fun _ hm => by cases hm) hms) ?_)
        rintro r v₁ ⟨rfl, hall⟩
        cases r with
        | error err => trivial
        | ok installed =>
          refine Spec.bind (Spec.attempt (observe_spec ⟨hd.writes, fun _ => hstale⟩ (fun r => ?_)))
          cases r with
          | error err => exact htrue _ _ (abort_steady hd (hall installed rfl))
          | ok u => exact htrue _ _ (Steady.bind maybeReload_steady (fun _ _ => steady_ok trivial))

/-- **Every install keeps to its view.** -/
theorem install_keeps (input : InstallInput) :
    (Task.of (installExtensionWithDependencies input) { org := input.orgId }).Keeps see
      Allowed := by
  refine Task.keeps_of (Q := fun _ _ => True) (Spec.bind ?_)
  rw [authorize]
  split
  · split
    · exact runBatch_views
    · refine Spec.bind (observe_spec trivial (fun resolution => ?_))
      cases resolution with
      | error err => trivial
      | ok resolution => exact runBatch_views
  · exact runBatch_views

variable {b : InstallBatch}

/-- A sweep undoes members of the batches it has listed. -/
theorem sweepMembers_steady (hb : b ∈ v.stale) (ms : List InstallBatchMember) :
    ∀ failures : Nat, (∀ m ∈ ms, m ∈ b.members ∧ sweepable m = true) →
      Steady v (fun _ => True) (sweepMembers b.batchId ms failures) := by
  have hw : Writes v b.batchId := .inr ⟨b, hb, rfl⟩
  induction ms with
  | nil => exact fun _ _ => steady_ok trivial
  | cons m rest ih =>
    intro failures hms
    obtain ⟨hm, hs⟩ := hms m (.head _)
    have hrest : ∀ x ∈ rest, x ∈ b.members ∧ sweepable x = true :=
      fun x hx => hms x (.tail _ hx)
    rw [sweepMembers]
    refine Steady.bind (Steady.attempt (Steady.bind (steady_call (c := .uninstallMember _ _ _)
      (.inr ⟨b, hb, m, hm, hs, rfl⟩) (fun _ => rfl))
      (fun _ _ => steady_updateMember hw))) ?_
    rintro r -
    cases r with
    | ok u => exact ih _ hrest
    | error err =>
      exact Steady.bind (Steady.swallow (steady_updateMember hw)) (fun _ _ => ih _ hrest)

theorem sweepBatch_steady (hb : b ∈ v.stale) : Steady v (fun _ => True) (sweepBatch b) := by
  refine Steady.bind (sweepMembers_steady hb _ 0 ?_) (fun failures _ => ?_)
  · intro m hm
    obtain ⟨hm, hs⟩ := List.mem_filter.mp hm
    exact ⟨List.mem_reverse.mp hm, hs⟩
  · refine Steady.swallow (steady_setPhase (.inr ⟨b, hb, rfl⟩) ?_)
    split
    · decide
    · decide

theorem sweepBatches_steady (bs : List InstallBatch) (hbs : ∀ b ∈ bs, b ∈ v.stale) :
    Steady v (fun _ => True) (sweepBatches bs) := by
  induction bs with
  | nil => exact steady_ok trivial
  | cons b rest ih =>
    exact Steady.bind (sweepBatch_steady (hbs b (.head _)))
      (fun _ _ => ih (fun x hx => hbs x (.tail _ hx)))

/-- **Every sweep keeps to its view.** -/
theorem sweep_keeps (olderThanMs : Instant) :
    (Task.of (sweepStaleInstallBatches olderThanMs) { org := none }).Keeps see Allowed := by
  refine Task.keeps_of (Q := fun _ _ => True) (Spec.bind (observe_spec ⟨rfl, rfl⟩ (fun r => ?_)))
  cases r with
  | error err => trivial
  | ok batches =>
    refine Spec.bind (Spec.mono (sweepBatches_steady batches (fun _ hb => hb)) ?_)
    rintro r v ⟨-, -⟩
    cases r with
    | error | ok => trivial

end ExtBatchViews
