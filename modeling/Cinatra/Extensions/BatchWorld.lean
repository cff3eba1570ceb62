import Cinatra.Extensions.InstallBatch
import Cinatra.Lib.Table
import Mathlib.Data.List.Sort

/-! # BatchWorld — what the injected steps do

    The canonical rows, the batch ledger and the clock.  An install upserts the
    row of its package at the actor's organisation; an uninstall takes every live
    row of its package, as the registry's dispatcher does; a step that fails
    leaves nothing.  The planner is a parameter that answers as the real one may
    (`PlanSound`). -/

namespace ExtBatchWorld

open Process RowTable ExtInstallBatch

/-- A canonical row that is active or locked. -/
structure LiveRow where
  packageName : String
  orgId : Option String
  version : Option String
deriving DecidableEq

structure World where
  rows : List LiveRow
  ledger : List InstallBatch
  clock : Instant
  nextUuid : Nat
  /-- The packages installed and uninstalled so far, in order. -/
  installs : List String
  uninstalls : List String

/-- What the world does not determine of an answer. -/
structure Answer where
  fault : Option BatchError := none
  elapsedMs : Nat := 0
  grant : GrantResolution := ⟨"latest", [], none⟩
  op : Option InstallOpRef := none

/-! ## The canonical rows -/

def rowAt (packageName : String) (orgId : Option String) (r : LiveRow) : Bool :=
  r.packageName = packageName && r.orgId = orgId

/-- The organisation's own live row, else the platform's. -/
def findLiveRow (rows : List LiveRow) (packageName : String) (orgId : Option String) :
    Option LiveRow :=
  (rows.find? (rowAt packageName orgId)).or (rows.find? (rowAt packageName none))

/-- `readLiveRowVersion` of what is in sight. -/
def liveRowVersion : Option LiveRow → LiveRowVersion
  | none => ⟨false, none⟩
  | some r => ⟨true, r.version⟩

theorem liveRowVersion_present (r : Option LiveRow) : (liveRowVersion r).present = r.isSome := by
  cases r with
  | none | some => rfl

/-- The package has a live row of this very scope. -/
def LiveAt (rows : List LiveRow) (packageName : String) (orgId : Option String) : Prop :=
  ∃ r ∈ rows, rowAt packageName orgId r = true

instance (rows : List LiveRow) (packageName : String) (orgId : Option String) :
    Decidable (LiveAt rows packageName orgId) :=
  inferInstanceAs (Decidable (∃ r ∈ rows, rowAt packageName orgId r = true))

def upsertRow (orgId : Option String) (rows : List LiveRow) (m : PlannedMember) : List LiveRow :=
  rows.filter (fun r => !rowAt m.packageName orgId r) ++ [⟨m.packageName, orgId, some m.version⟩]

def removeRows (packageName : String) (rows : List LiveRow) : List LiveRow :=
  rows.filter (fun r => r.packageName ≠ packageName)

/-- A plan: distinct packages, the root last and always to be installed; another
    member is skipped exactly when a live row of it is in sight, and then the row
    has no version or the pinned one. -/
structure PlanSound (rows : List LiveRow) (input : PlanInput) (ordered : List PlannedMember) :
    Prop where
  names : (ordered.map PlannedMember.packageName).Nodup
  root : ∃ deps root, ordered = deps ++ [root] ∧ root.packageName = input.rootPackage ∧
    root.alreadyInstalled = false
  skipped : ∀ m ∈ ordered, m.packageName ≠ input.rootPackage →
    (m.alreadyInstalled = true ↔ (findLiveRow rows m.packageName input.orgId).isSome = true)
  pinned : ∀ m ∈ ordered, m.alreadyInstalled = true → ∀ r,
    findLiveRow rows m.packageName input.orgId = some r →
    r.version = none ∨ r.version = some m.version

/-- `planDependencyInstall`, over the registry and the rows. -/
structure Planner where
  plan : List LiveRow → PlanInput → Except BatchError (List PlannedMember)
  sound : ∀ rows input ordered, plan rows input = .ok ordered → PlanSound rows input ordered

/-! ## The ledger -/

def activeBatch (b : InstallBatch) : Bool := b.phase.active

def listActiveInstallBatches (w : World) : List InstallBatch := w.ledger.filter activeBatch

/-- Oldest first. -/
def listStaleInstallBatches (w : World) (olderThanMs : Instant) : List InstallBatch :=
  (w.ledger.filter (fun b => b.phase.active && b.updatedAt < w.clock - max 0 olderThanMs)).insertionSort
    (fun a b => a.updatedAt ≤ b.updatedAt)

/-- The row a begin inserts. -/
def newBatch (w : World) (batchId : Nat) (rootPackage : String) (orgId : Option String)
    (members : List InstallBatchMember) : InstallBatch :=
  ⟨batchId, rootPackage, orgId, .planning, members, w.clock, w.clock⟩

def patchMember (packageName : String) (patch : MemberPatch) (m : InstallBatchMember) :
    InstallBatchMember := if m.packageName = packageName then patch.apply m else m

def withPhase (phase : InstallBatchPhase) (now : Instant) (b : InstallBatch) : InstallBatch :=
  { b with phase := phase, updatedAt := now }

def withMember (packageName : String) (patch : MemberPatch) (now : Instant) (b : InstallBatch) :
    InstallBatch :=
  { b with members := b.members.map (patchMember packageName patch), updatedAt := now }

/-- `UPDATE … WHERE batch_id = $n RETURNING …`. -/
def updateBatch (w : World) (batchId : Nat) (f : InstallBatch → InstallBatch) :
    Except BatchError Unit × World :=
  if w.ledger.any (fun b => b.batchId = batchId) then
    (.ok (), { w with ledger := updateWhere (fun b => b.batchId = batchId) f w.ledger })
  else (.error (.noBatchRow batchId), w)

/-! ## Answers -/

/-- What a step answers when it does not fail of itself. -/
def serve (planner : Planner) (f : Answer) (w : World) :
    (c : Call) → Except BatchError (Call.Reply c) × World
  | .authorizeRoot _ _ => (.ok f.grant, w)
  | .refreshGrant _ _ _ => (.ok f.grant, w)
  | .now => (.ok w.clock, w)
  | .acquireLifecycleLock => (.ok (), w)
  | .releaseLifecycleLock => (.ok (), w)
  | .plan input => (planner.plan w.rows input, w)
  | .listActive => (.ok (listActiveInstallBatches w), w)
  | .readLiveRowVersion packageName orgId =>
    (.ok (liveRowVersion (findLiveRow w.rows packageName orgId)), w)
  | .readInstallOp _ _ => (.ok f.op, w)
  | .randomUUID => (.ok w.nextUuid, { w with nextUuid := w.nextUuid + 1 })
  | .begin batchId rootPackage orgId members =>
    -- the partial unique index on active (root, organisation)
    if w.ledger.any (fun b => b.phase.active && b.rootPackage = rootPackage && b.orgId = orgId)
    then (.error .duplicateBatch, w)
    else (.ok (newBatch w batchId rootPackage orgId members),
      { w with ledger := w.ledger ++ [newBatch w batchId rootPackage orgId members] })
  | .setPhase batchId phase => updateBatch w batchId (withPhase phase w.clock)
  | .updateMember batchId packageName patch =>
    updateBatch w batchId (withMember packageName patch w.clock)
  | .installMember m orgId =>
    (.ok (), { w with rows := upsertRow orgId w.rows m
                      installs := w.installs ++ [m.packageName] })
  | .uninstallMember packageName _ _ =>
    (.ok (), { w with rows := removeRows packageName w.rows
                      uninstalls := w.uninstalls ++ [packageName] })
  | .triggerAgentRuntimeReload => (.ok (), w)
  | .listStale olderThanMs => (.ok (listStaleInstallBatches w olderThanMs), w)

/-- Time passes, then the step fails or serves. -/
def answer (planner : Planner) (fallible : Call → Bool) (f : Answer) (c : Call) (w : World) :
    Except BatchError (Call.Reply c) × World :=
  let w := { w with clock := w.clock + f.elapsedMs }
  match f.fault with
  | some err => if fallible c then (.error err, w) else serve planner f w c
  | none => serve planner f w c

/-- The calls that may fail: all but reading the clock, drawing an id and the lock. -/
def fallible : Call → Bool
  | .now | .randomUUID | .acquireLifecycleLock | .releaseLifecycleLock => false
  | _ => true

/-- The environment of an install. -/
def environment (planner : Planner) : Environment Call Call.Reply BatchError World Answer :=
  ⟨answer planner fallible⟩

/-- Only an uninstall may fail. -/
def onlyUninstalls : Call → Bool
  | .uninstallMember _ _ _ => true
  | _ => false

/-- The environment of a sweep whose ledger writes go through. -/
def sweepEnvironment (planner : Planner) : Environment Call Call.Reply BatchError World Answer :=
  ⟨answer planner onlyUninstalls⟩

/-- One call: it fails and only time has passed, or it is served. -/
theorem call_spec {planner : Planner} {fails : Call → Bool} {A : World → Call → Prop} {w : World}
    {c : Call} {Q : Except BatchError (Call.Reply c) → World → Prop} (hA : A w c)
    (herr : fails c = true → ∀ err (e : Nat), Q (.error err) { w with clock := w.clock + e })
    (hok : ∀ f (e : Nat), Q (serve planner f { w with clock := w.clock + e } c).1
      (serve planner f { w with clock := w.clock + e } c).2) :
    Spec ⟨answer planner fails⟩ A (perform c) Q w := by
  refine Spec.perform hA ?_
  intro f
  show Q (answer planner fails f c w).1 (answer planner fails f c w).2
  simp only [answer]
  cases f.fault with
  | none => exact hok f _
  | some err =>
    by_cases hc : fails c = true
    · simp only [if_pos hc]
      exact herr hc err _
    · simp only [if_neg hc]
      exact hok f _

variable {rows : List LiveRow} {orgId org : Option String} {name : String}

theorem rowAt_iff {r : LiveRow} :
    rowAt name orgId r = true ↔ r.packageName = name ∧ r.orgId = orgId := by
  rw [rowAt, Bool.and_eq_true, decide_eq_true_eq, decide_eq_true_eq]

theorem findLiveRow_isSome :
    (findLiveRow rows name orgId).isSome = true ↔ LiveAt rows name orgId ∨ LiveAt rows name none := by
  rw [findLiveRow, Option.isSome_or, Bool.or_eq_true, List.find?_isSome, List.find?_isSome]
  exact Iff.rfl

theorem liveAt_upsert {m : PlannedMember} : LiveAt (upsertRow org rows m) name orgId ↔
      (name = m.packageName ∧ orgId = org) ∨ LiveAt rows name orgId := by
  constructor
  · rintro ⟨r, hr, hat⟩
    rcases mem_concat.mp hr with hr | rfl
    · exact .inr ⟨r, List.mem_of_mem_filter hr, hat⟩
    · obtain ⟨hn, ho⟩ := rowAt_iff.mp hat
      exact .inl ⟨hn.symm, ho.symm⟩
  · rintro (⟨rfl, rfl⟩ | ⟨r, hr, hat⟩)
    · exact ⟨_, List.mem_concat_self, rowAt_iff.mpr ⟨rfl, rfl⟩⟩
    · by_cases hm : rowAt m.packageName org r = true
      · obtain ⟨hn, ho⟩ := rowAt_iff.mp hat
        obtain ⟨hn', ho'⟩ := rowAt_iff.mp hm
        exact ⟨_, List.mem_concat_self,
          rowAt_iff.mpr ⟨hn'.symm.trans hn, ho'.symm.trans ho⟩⟩
      · refine ⟨r, List.mem_append_left _ (List.mem_filter.mpr ⟨hr, ?_⟩), hat⟩
        rw [Bool.not_eq_true] at hm
        rw [hm]
        rfl

theorem liveAt_remove {p : String} :
    LiveAt (removeRows p rows) name orgId ↔ name ≠ p ∧ LiveAt rows name orgId := by
  constructor
  · rintro ⟨r, hr, hat⟩
    obtain ⟨hr, hne⟩ := List.mem_filter.mp hr
    refine ⟨?_, r, hr, hat⟩
    rw [← (rowAt_iff.mp hat).1]
    exact of_decide_eq_true hne
  · rintro ⟨hne, r, hr, hat⟩
    refine ⟨r, List.mem_filter.mpr ⟨hr, decide_eq_true ?_⟩, hat⟩
    rw [(rowAt_iff.mp hat).1]
    exact hne

end ExtBatchWorld
