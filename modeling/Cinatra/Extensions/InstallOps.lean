import Cinatra.Lib.Table
import Mathlib.Data.List.Sort

/-! # InstallOps — the install-op journal

    One row per install attempt, keyed by its op id.  The trusted install of a
    (package, organisation) is its `finalized` row; a partial unique index keeps
    it single, and a `Journal` carries both constraints, as the database enforces
    them on every statement.  The rows the statements return are read by no
    caller and left out; so are the retries of a finalize, which a conflict
    between two transactions would cause. -/

namespace ExtInstallOps

open RowTable

/-- Milliseconds since the epoch. -/
abbrev Instant := Int

inductive InstallOpPhase where
  | materialized | granted | preflighted | writing | finalized | failed | rolledBack | superseded
deriving DecidableEq

/-- `TERMINAL_PHASES`. -/
def InstallOpPhase.terminal : InstallOpPhase → Bool
  | .finalized | .failed | .rolledBack | .superseded => true
  | _ => false

/-- What an op installs, and for whom; `none` is the platform. -/
structure Scope where
  packageName : String
  orgId : Option String
deriving DecidableEq

structure InstallOp where
  installOpId : String
  packageName : String
  orgId : Option String
  phase : InstallOpPhase
  digest : Option String
  startedAt : Instant
  updatedAt : Instant
deriving DecidableEq

def InstallOp.scope (op : InstallOp) : Scope := ⟨op.packageName, op.orgId⟩

def InstallOp.isFinalized (op : InstallOp) : Bool := op.phase = .finalized

/-- The primary key and the partial unique indexes on `phase = 'finalized'`. -/
def Consistent (rows : List InstallOp) : Prop :=
  (rows.map InstallOp.installOpId).Nodup ∧
    ((rows.filter InstallOp.isFinalized).map InstallOp.scope).Nodup

instance (rows : List InstallOp) : Decidable (Consistent rows) :=
  inferInstanceAs (Decidable (_ ∧ _))

/-- The table, under its constraints. -/
structure Journal where
  rows : List InstallOp
  consistent : Consistent rows

inductive JournalError where
  | beginAtFinalized
  | noRow (installOpId : String)
  /-- Error 23505. -/
  | uniqueViolation
deriving DecidableEq

/-- What the database makes of a statement's result. -/
def commit (rows : List InstallOp) : Except JournalError Journal :=
  if h : Consistent rows then .ok ⟨rows, h⟩ else .error .uniqueViolation

/-- The row of an op. -/
def opById (rows : List InstallOp) (installOpId : String) : Option InstallOp :=
  rows.find? (fun r => r.installOpId = installOpId)

/-! ## The writers -/

structure BeginInstallOpInput where
  installOpId : String
  packageName : String
  orgId : Option String
  phase : InstallOpPhase := .materialized
  digest : Option String := none
deriving DecidableEq

/-- `beginInstallOp`: insert, or reset the op's own row unless it is terminal. -/
def beginInstallOp (now : Instant) (input : BeginInstallOpInput) (j : Journal) :
    Except JournalError Journal :=
  if input.phase = .finalized then .error .beginAtFinalized
  else if j.rows.any (fun r => r.installOpId = input.installOpId) then
    commit (updateWhere (fun r => r.installOpId = input.installOpId && !r.phase.terminal)
      (fun r => { r with phase := input.phase, digest := input.digest,
                         startedAt := now, updatedAt := now }) j.rows)
  else commit (j.rows ++ [⟨input.installOpId, input.packageName, input.orgId, input.phase,
    input.digest, now, now⟩])

/-- `advanceInstallOpPhase`: the phase is written whatever it was.  `digest` is
    `none` when the caller leaves it alone. -/
def advanceInstallOpPhase (now : Instant) (installOpId : String) (phase : InstallOpPhase)
    (digest : Option (Option String)) (j : Journal) : Except JournalError Journal :=
  if j.rows.any (fun r => r.installOpId = installOpId) then
    commit (updateWhere (fun r => r.installOpId = installOpId)
      (fun r => { r with phase := phase, digest := digest.getD r.digest, updatedAt := now }) j.rows)
  else .error (.noRow installOpId)

/-- `finalizeInstallOp`, one transaction: demote the other finalized op of the
    scope, then promote this one. -/
def finalizeInstallOp (now : Instant) (installOpId : String) (j : Journal) :
    Except JournalError Journal :=
  match opById j.rows installOpId with
  | none => .error (.noRow installOpId)
  | some self => do
    let demoted ← commit (updateWhere
      (fun r => r.scope = self.scope && r.isFinalized && r.installOpId ≠ installOpId)
      (fun r => { r with phase := .superseded, updatedAt := now }) j.rows)
    commit (updateWhere (fun r => r.installOpId = installOpId)
      (fun r => { r with phase := .finalized, updatedAt := now }) demoted.rows)

/-- `failInstallOp`. -/
def failInstallOp (now : Instant) (installOpId : String) (j : Journal) :
    Except JournalError Journal :=
  advanceInstallOpPhase now installOpId .failed none j

/-! ## The readers -/

/-- `listUnfinalizedInstallOps`: the ops stuck in a phase that is not terminal,
    oldest first. -/
def listUnfinalizedInstallOps (now olderThanMs : Instant) (j : Journal) : List InstallOp :=
  (j.rows.filter (fun r => !r.phase.terminal && r.updatedAt < now - max 0 olderThanMs)).insertionSort
    (fun a b => a.updatedAt ≤ b.updatedAt)

/-- The finalized ops of a scope. -/
def finalizedOps (j : Journal) (scope : Scope) : List InstallOp :=
  j.rows.filter (fun r => r.isFinalized && r.scope = scope)

/-- The newer attempt first. -/
def NewerAttempt (a b : InstallOp) : Prop :=
  b.updatedAt < a.updatedAt ∨ (b.updatedAt = a.updatedAt ∧ b.startedAt ≤ a.startedAt)

instance : DecidableRel NewerAttempt := fun _ _ => inferInstanceAs (Decidable (_ ∨ _))

/-- `readInstallOp`: the finalized op of a scope, else its latest attempt. -/
def readInstallOp (j : Journal) (scope : Scope) : Option InstallOp :=
  (finalizedOps j scope).head?.or
    ((j.rows.filter (fun r => r.scope = scope)).insertionSort NewerAttempt).head?

/-! ## What the constraints give -/

variable {j j' : Journal} {scope : Scope}

theorem mem_finalizedOps {r : InstallOp} :
    r ∈ finalizedOps j scope ↔ r ∈ j.rows ∧ r.phase = .finalized ∧ r.scope = scope := by
  rw [finalizedOps, List.mem_filter, Bool.and_eq_true, decide_eq_true_eq, InstallOp.isFinalized,
    decide_eq_true_eq]

theorem eq_of_opId {r r' : InstallOp} (hr : r ∈ j.rows) (hr' : r' ∈ j.rows)
    (h : r.installOpId = r'.installOpId) : r = r' :=
  eq_of_key j.consistent.1 hr hr' h

/-- **At most one finalized op** per package and organisation, in every journal. -/
theorem finalizedOps_length_le (j : Journal) (scope : Scope) :
    (finalizedOps j scope).length ≤ 1 := by
  have hsub : (finalizedOps j scope).map InstallOp.scope =
      ((j.rows.filter InstallOp.isFinalized).map InstallOp.scope).filter (· = scope) := by
    rw [finalizedOps, List.filter_map, List.filter_filter]
    congr 1
    apply List.filter_congr
    intro r _
    show (r.isFinalized && decide (r.scope = scope)) = (decide (r.scope = scope) && r.isFinalized)
    rw [Bool.and_comm]
  have hnd : ((finalizedOps j scope).map InstallOp.scope).Nodup := by
    rw [hsub]
    exact j.consistent.2.filter _
  have hall : ∀ s ∈ (finalizedOps j scope).map InstallOp.scope, s = scope := by
    intro s hs
    obtain ⟨r, hr, rfl⟩ := List.mem_map.mp hs
    exact (mem_finalizedOps.mp hr).2.2
  rw [← List.length_map InstallOp.scope]
  match hl : (finalizedOps j scope).map InstallOp.scope with
  | [] => exact Nat.zero_le _
  | [_] => exact Nat.le_refl _
  | a :: b :: rest =>
    rw [hl] at hnd hall
    have ha := hall a (List.mem_cons_self ..)
    have hb := hall b (.tail _ (List.mem_cons_self ..))
    rw [ha, hb, List.nodup_cons] at hnd
    exact absurd (List.mem_cons_self ..) hnd.1

variable {prior : InstallOp}

theorem finalizedOps_eq (hp : prior ∈ finalizedOps j scope) : finalizedOps j scope = [prior] := by
  have hlen := finalizedOps_length_le j scope
  match hl : finalizedOps j scope with
  | [] => rw [hl] at hp; exact absurd hp List.not_mem_nil
  | [r] => rw [hl] at hp; rw [List.mem_singleton.mp hp]
  | a :: b :: rest =>
    rw [hl, List.length_cons, List.length_cons] at hlen
    omega

theorem readInstallOp_eq (hp : prior ∈ finalizedOps j scope) :
    readInstallOp j scope = some prior := by
  rw [readInstallOp, finalizedOps_eq hp]
  rfl

theorem commit_ok {rows : List InstallOp} (h : commit rows = .ok j) : j.rows = rows := by
  rw [commit] at h
  split at h
  · rw [← Except.ok.inj h]
  · cases h

end ExtInstallOps
