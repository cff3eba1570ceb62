import Cinatra.Extensions.InstallOps
import Cinatra.Lib.Machine

/-! # InstallAnchor — when the journal keeps its anchor

    Attempts and boot-orphan cleanups interleave, one statement at a time; a
    cleanup acts on a list it has read earlier.  A begin preserves terminal rows
    and a finalize replaces the anchor it demotes, but an advance or a fail
    writes its phase whatever the row's was, so the anchor survives exactly the
    steps that do not hit it (`Spares`). -/

namespace ExtInstallAnchor

open RowTable ExtInstallOps

/-- The journal, the clock, and the orphans cleanups have listed. -/
structure Installer where
  journal : Journal
  clock : Instant
  orphans : List InstallOp

inductive Step where
  | begin (input : BeginInstallOpInput)
  | advance (installOpId : String) (phase : InstallOpPhase) (digest : Option (Option String))
  | finalize (installOpId : String)
  | fail (installOpId : String)
  | list (olderThanMs : Instant)
  /-- `compensateOrphanInstallOp`, its two journal writes. -/
  | orphanFail (op : InstallOp)
  | orphanRollBack (op : InstallOp)
  | wait (ms : Nat)
deriving DecidableEq

/-- A statement that throws leaves the table alone. -/
def Installer.try (s : Installer) (r : Except JournalError Journal) : Installer :=
  match r with
  | .ok j => { s with journal := j }
  | .error _ => s

def step (s : Installer) : Step → Installer
  | .begin input => s.try (beginInstallOp s.clock input s.journal)
  | .advance id phase digest => s.try (advanceInstallOpPhase s.clock id phase digest s.journal)
  | .finalize id => s.try (finalizeInstallOp s.clock id s.journal)
  | .fail id => s.try (failInstallOp s.clock id s.journal)
  | .list olderThanMs =>
    { s with orphans := s.orphans ++ listUnfinalizedInstallOps s.clock olderThanMs s.journal }
  | .orphanFail op =>
    if s.orphans.contains op then s.try (failInstallOp s.clock op.installOpId s.journal) else s
  | .orphanRollBack op =>
    if s.orphans.contains op then
      s.try (advanceInstallOpPhase s.clock op.installOpId .rolledBack none s.journal)
    else s
  | .wait ms => { s with clock := s.clock + ms }

/-- The op is the anchor of its scope. -/
def IsAnchor (s : Installer) (installOpId : String) : Prop :=
  ∃ r ∈ s.journal.rows, r.installOpId = installOpId ∧ r.phase = .finalized

/-- The step writes over no anchor. -/
def Spares (s : Installer) : Step → Prop
  | .advance id phase _ => phase = .finalized ∨ ¬ IsAnchor s id
  | .fail id => ¬ IsAnchor s id
  | .orphanFail op | .orphanRollBack op => op ∈ s.orphans → ¬ IsAnchor s op.installOpId
  | _ => True

instance (s : Installer) (id : String) : Decidable (IsAnchor s id) :=
  inferInstanceAs (Decidable (∃ r ∈ s.journal.rows, _))

instance (s : Installer) : DecidablePred (Spares s)
  | .advance _ phase _ => inferInstanceAs (Decidable (phase = .finalized ∨ _))
  | .fail _ => inferInstanceAs (Decidable (¬ _))
  | .orphanFail op | .orphanRollBack op => inferInstanceAs (Decidable (op ∈ s.orphans → _))
  | .begin _ | .finalize _ | .list _ | .wait _ => isTrue trivial

variable {s s' : Installer} {j j' : Journal} {now : Instant} {scope : Scope}

/-! ## Statements and the constraints -/

variable {rows : List InstallOp}

theorem consistent_iff : Consistent rows ↔ (rows.map InstallOp.installOpId).Nodup ∧
      ∀ r ∈ rows, ∀ r' ∈ rows, r.phase = .finalized → r'.phase = .finalized →
        r.scope = r'.scope → r = r' := by
  have hmem : ∀ r, r ∈ rows.filter InstallOp.isFinalized ↔ r ∈ rows ∧ r.phase = .finalized := by
    intro r
    rw [List.mem_filter, InstallOp.isFinalized, decide_eq_true_eq]
  constructor
  · rintro ⟨hids, hscopes⟩
    refine ⟨hids, ?_⟩
    intro r hr r' hr' hf hf' hs
    exact eq_of_key hscopes ((hmem r).mpr ⟨hr, hf⟩) ((hmem r').mpr ⟨hr', hf'⟩) hs
  · rintro ⟨hids, hone⟩
    refine ⟨hids, List.Nodup.map_on ?_ ((List.Nodup.of_map _ hids).filter _)⟩
    intro r hr r' hr' hs
    exact hone r ((hmem r).mp hr).1 r' ((hmem r').mp hr').1 ((hmem r).mp hr).2
      ((hmem r').mp hr').2 hs

theorem commit_of_consistent (h : Consistent rows) : commit rows = .ok ⟨rows, h⟩ := by
  rw [commit, dif_pos h]

/-- A statement that finalizes nothing meets the constraints. -/
theorem consistent_of_demotes (j : Journal) (p : InstallOp → Bool) (f : InstallOp → InstallOp)
    (hid : ∀ r, (f r).installOpId = r.installOpId) (hf : ∀ r, (f r).phase ≠ .finalized) :
    Consistent (updateWhere p f j.rows) := by
  obtain ⟨hids, hone⟩ := consistent_iff.mp j.consistent
  refine consistent_iff.mpr ⟨?_, ?_⟩
  · rw [map_updateWhere _ _ hid]
    exact hids
  · have hkept : ∀ r ∈ updateWhere p f j.rows, r.phase = .finalized → r ∈ j.rows := by
      intro r hr hfin
      rcases updateWhere_cases hr with ⟨r₀, hr₀, hp, rfl⟩ | ⟨hr₀, -⟩
      · exact absurd hfin (hf r₀)
      · exact hr₀
    intro r hr r' hr' hfin hfin'
    exact hone r (hkept r hr hfin) r' (hkept r' hr' hfin') hfin hfin'

/-- The rows after a finalize. -/
def promoted (now : Instant) (self : InstallOp) (rows : List InstallOp) : List InstallOp :=
  updateWhere (fun r => r.installOpId = self.installOpId)
    (fun r => { r with phase := .finalized, updatedAt := now })
    (updateWhere
      (fun r => r.scope = self.scope && r.isFinalized && r.installOpId ≠ self.installOpId)
      (fun r => { r with phase := .superseded, updatedAt := now }) rows)

theorem mem_promoted {self r : InstallOp}
    (h : r ∈ promoted now self rows) : ∃ r₀ ∈ rows, r.installOpId = r₀.installOpId ∧
      r.scope = r₀.scope ∧ (r.phase = .finalized → r₀.installOpId = self.installOpId ∨
        r = r₀ ∧ r₀.scope ≠ self.scope) := by
  obtain ⟨r₁, hr₁, rfl⟩ := mem_updateWhere.mp h
  obtain ⟨r₀, hr₀, rfl⟩ := mem_updateWhere.mp hr₁
  refine ⟨r₀, hr₀, ?_⟩
  by_cases hd : (r₀.scope = self.scope && r₀.isFinalized && r₀.installOpId ≠ self.installOpId) =
      true
  · rw [if_pos hd]
    have hne : r₀.installOpId ≠ self.installOpId := by simpa using (Bool.and_eq_true_iff.mp hd).2
    rw [if_neg (by simpa using hne)]
    exact ⟨rfl, rfl, fun hfin => by cases hfin⟩
  · rw [if_neg hd]
    by_cases hid : r₀.installOpId = self.installOpId
    · rw [if_pos (by simpa using hid)]
      exact ⟨rfl, rfl, fun _ => .inl hid⟩
    · rw [if_neg (by simpa using hid)]
      refine ⟨rfl, rfl, fun hfin => .inr ⟨rfl, fun hs => hd ?_⟩⟩
      simp [hs, InstallOp.isFinalized, hfin, hid]

variable {id : String}

theorem mem_opById {r : InstallOp} (h : opById rows id = some r) : r ∈ rows ∧ r.installOpId = id :=
  ⟨List.mem_of_find?_eq_some h, by simpa using List.find?_some h⟩

theorem finalizeInstallOp_ok (now : Instant) {self : InstallOp} (h : opById j.rows id = some self) :
    ∃ j', finalizeInstallOp now id j = .ok j' ∧ j'.rows = promoted now self j.rows := by
  obtain ⟨hself, rfl⟩ := mem_opById h
  have hdemoted := consistent_of_demotes j
    (fun r => r.scope = self.scope && r.isFinalized && r.installOpId ≠ self.installOpId)
    (fun r => { r with phase := .superseded, updatedAt := now })
    (fun _ => rfl) (fun _ hc => by cases hc)
  obtain ⟨hids, hone⟩ := consistent_iff.mp j.consistent
  have hcons : Consistent (promoted now self j.rows) := by
    have hkeys : (promoted now self j.rows).map InstallOp.installOpId =
        j.rows.map InstallOp.installOpId := by
      refine (map_updateWhere _ _ ?_).trans (map_updateWhere _ _ ?_)
      · intro r
        rfl
      · intro r
        rfl
    have hids' : ((promoted now self j.rows).map InstallOp.installOpId).Nodup := by
      rw [hkeys]
      exact hids
    refine consistent_iff.mpr ⟨hids', ?_⟩
    intro r hr r' hr' hfin hfin' hs
    obtain ⟨r₀, hr₀, hid, hsc, hcase⟩ := mem_promoted hr
    obtain ⟨r₁, hr₁, hid', hsc', hcase'⟩ := mem_promoted hr'
    -- a finalized row is the op itself or an anchor of another scope
    rcases hcase hfin with hself₀ | ⟨rfl, hne⟩
    · have hr₀s := eq_of_opId hr₀ hself hself₀
      rcases hcase' hfin' with hself₁ | ⟨rfl, hne'⟩
      · exact eq_of_key hids' hr hr' ((hid.trans hself₀).trans (hid'.trans hself₁).symm)
      · exact absurd ((hs.symm.trans hsc).trans (by rw [hr₀s])) hne'
    · rcases hcase' hfin' with hself₁ | ⟨rfl, hne'⟩
      · have hr₁s := eq_of_opId hr₁ hself hself₁
        exact absurd ((hs.trans hsc').trans (by rw [hr₁s])) hne
      · exact hone r hr₀ r' hr₁ hfin hfin' hs
  refine ⟨⟨promoted now self j.rows, hcons⟩, ?_, rfl⟩
  rw [finalizeInstallOp, h]
  show (commit _ >>= _) = _
  rw [commit_of_consistent hdemoted]
  exact commit_of_consistent hcons

/-! ## Steps -/

/-- Every scope with an anchor still has one. -/
def Anchored (j j' : Journal) : Prop :=
  ∀ r ∈ j.rows, r.phase = .finalized → ∃ r' ∈ j'.rows, r'.phase = .finalized ∧ r'.scope = r.scope

theorem Anchored.refl (j : Journal) : Anchored j j := fun r hr hfin => ⟨r, hr, hfin, rfl⟩

theorem Anchored.trans {m : Journal} (h : Anchored j m) (h' : Anchored m j') : Anchored j j' := by
  intro r hr hfin
  obtain ⟨r₁, hr₁, hfin₁, hs₁⟩ := h r hr hfin
  obtain ⟨r₂, hr₂, hfin₂, hs₂⟩ := h' r₁ hr₁ hfin₁
  exact ⟨r₂, hr₂, hfin₂, hs₂.trans hs₁⟩

theorem anchored_of_kept (h : ∀ r ∈ j.rows, r.phase = .finalized → r ∈ j'.rows) :
    Anchored j j' := fun r hr hfin => ⟨r, h r hr hfin, hfin, rfl⟩

theorem begin_anchored {input : BeginInstallOpInput} (h : beginInstallOp now input j = .ok j') :
    Anchored j j' := by
  rw [beginInstallOp] at h
  split at h
  · cases h
  split at h
  · refine anchored_of_kept ?_
    intro r hr hfin
    rw [commit_ok h]
    refine mem_updateWhere.mpr ⟨r, hr, ?_⟩
    rw [if_neg (by simp [hfin, InstallOpPhase.terminal])]
  · refine anchored_of_kept ?_
    intro r hr _
    rw [commit_ok h]
    exact List.mem_append_left _ hr

variable {phase : InstallOpPhase}

theorem advance_anchored
    {digest : Option (Option String)} (h : advanceInstallOpPhase now id phase digest j = .ok j')
    (hspare : phase = .finalized ∨ ¬ ∃ r ∈ j.rows, r.installOpId = id ∧ r.phase = .finalized) :
    Anchored j j' := by
  rw [advanceInstallOpPhase] at h
  split at h
  · intro r hr hfin
    rw [commit_ok h]
    by_cases hid : r.installOpId = id
    · rcases hspare with rfl | hno
      · refine ⟨_, mem_updateWhere.mpr ⟨r, hr, rfl⟩, ?_⟩
        rw [if_pos (by simpa using hid)]
        exact ⟨rfl, rfl⟩
      · exact absurd ⟨r, hr, hid, hfin⟩ hno
    · refine ⟨r, mem_updateWhere.mpr ⟨r, hr, ?_⟩, hfin, rfl⟩
      rw [if_neg (by simpa using hid)]
  · cases h

theorem finalize_anchored (h : finalizeInstallOp now id j = .ok j') : Anchored j j' := by
  cases hself : opById j.rows id with
  | none =>
    rw [finalizeInstallOp, hself] at h
    cases h
  | some self =>
    obtain ⟨m, hm, hrows⟩ := finalizeInstallOp_ok now hself
    rw [h] at hm
    rw [← Except.ok.inj hm] at hrows
    obtain ⟨hmem, rfl⟩ := mem_opById hself
    have hid : ∀ r ∈ j.rows, r.installOpId = self.installOpId → r = self :=
      fun r hr hid => eq_of_opId hr hmem hid
    intro r hr hfin
    rw [hrows, promoted]
    by_cases hs : r.scope = self.scope
    · -- the op takes its predecessor's place
      refine ⟨{ self with phase := .finalized, updatedAt := now }, ?_, rfl, hs.symm⟩
      refine mem_updateWhere.mpr ⟨self, mem_updateWhere.mpr ⟨self, hmem, ?_⟩, ?_⟩
      · rw [if_neg (by simp)]
      · rw [if_pos (by simp)]
    · have hne : r.installOpId ≠ self.installOpId := fun h => hs (by rw [hid r hr h])
      refine ⟨r, mem_updateWhere.mpr ⟨r, mem_updateWhere.mpr ⟨r, hr, ?_⟩, ?_⟩, hfin, rfl⟩
      · rw [if_neg (by simp [hs])]
      · rw [if_neg (by simpa using hne)]

theorem try_anchored {r : Except JournalError Journal}
    (h : ∀ j', r = .ok j' → Anchored s.journal j') : Anchored s.journal (s.try r).journal := by
  cases r with
  | ok j' => exact h j' rfl
  | error _ => exact Anchored.refl _

/-- A step that spares the anchors keeps one where there was one. -/
theorem step_anchored (st : Step) (h : Spares s st) : Anchored s.journal (step s st).journal := by
  cases st with
  | begin input => exact try_anchored (fun _ => begin_anchored)
  | advance id phase digest => exact try_anchored (fun _ hok => advance_anchored hok h)
  | finalize id => exact try_anchored (fun _ => finalize_anchored)
  | fail id => exact try_anchored (fun _ hok => advance_anchored hok (.inr h))
  | list olderThanMs => exact Anchored.refl _
  | orphanFail | orphanRollBack =>
    rw [step]
    split
    · rename_i hop
      exact try_anchored (fun _ hok =>
        advance_anchored hok (.inr (h (List.contains_iff_mem.mp hop))))
    · exact Anchored.refl _
  | wait ms => exact Anchored.refl _

/-- An advance that hits an anchor leaves its scope without one. -/
theorem advance_loses (hphase : phase ≠ .finalized)
    (digest : Option (Option String)) (h : IsAnchor s id) :
    ∃ scope, finalizedOps s.journal scope ≠ [] ∧
      finalizedOps (s.try (advanceInstallOpPhase now id phase digest s.journal)).journal scope =
        [] := by
  obtain ⟨r, hr, rfl, hfin⟩ := h
  refine ⟨r.scope, List.ne_nil_of_mem (mem_finalizedOps.mpr ⟨hr, hfin, rfl⟩), ?_⟩
  have hany : s.journal.rows.any (fun r' => r'.installOpId = r.installOpId) = true :=
    List.any_eq_true.mpr ⟨r, hr, by simp⟩
  rw [advanceInstallOpPhase, if_pos hany, commit_of_consistent (consistent_of_demotes s.journal
      (fun r' => r'.installOpId = r.installOpId)
      (fun r' => { r' with phase := phase, digest := digest.getD r'.digest, updatedAt := now })
      (fun _ => rfl) (fun _ => hphase))]
  refine List.eq_nil_iff_forall_not_mem.mpr ?_
  intro x hx
  obtain ⟨hxr, hxf, hxs⟩ := mem_finalizedOps.mp hx
  obtain ⟨x₀, hx₀, rfl⟩ := mem_updateWhere.mp hxr
  by_cases hid : x₀.installOpId = r.installOpId
  · rw [if_pos (by simpa using hid)] at hxf
    exact hphase hxf
  · rw [if_neg (by simpa using hid)] at hxf hxs
    have := (consistent_iff.mp s.journal.consistent).2 x₀ hx₀ r hr hxf hfin hxs
    exact hid (by rw [this])

theorem step_loses (st : Step) (h : ¬ Spares s st) : ∃ scope, finalizedOps s.journal scope ≠ [] ∧
      finalizedOps (step s st).journal scope = [] := by
  cases st with
  | begin | finalize | list | wait => exact absurd trivial h
  | advance id phase digest =>
    rw [Spares, not_or, not_not] at h
    exact advance_loses h.1 digest h.2
  | fail id => exact advance_loses (fun hc => by cases hc) none (not_not.mp h)
  | orphanFail | orphanRollBack =>
    rw [Spares, Classical.not_imp, not_not] at h
    rw [step, if_pos (List.contains_iff_mem.mpr h.1)]
    exact advance_loses (fun hc => by cases hc) none h.2

/-- **The anchor survives exactly the runs that spare it**: along such a run a
    scope has at most one finalized op, and exactly one once it has had one; any
    other step takes the anchor of a scope away. -/
theorem anchor_spared (h : Machine.Leads step Spares s s') :
    (∀ scope, (finalizedOps s'.journal scope).length ≤ 1 ∧
      (finalizedOps s.journal scope ≠ [] → (finalizedOps s'.journal scope).length = 1)) ∧
    ∀ st, ¬ Spares s' st → ∃ scope, finalizedOps s'.journal scope ≠ [] ∧
      finalizedOps (step s' st).journal scope = [] := by
  have hkept : Anchored s.journal s'.journal := by
    refine Machine.Leads.preserves (I := fun m => Anchored s.journal m.journal) ?_ h
      (Anchored.refl _)
    intro m st hm hspare
    exact hm.trans (step_anchored st hspare)
  refine ⟨fun scope => ⟨finalizedOps_length_le _ _, ?_⟩, fun st => step_loses st⟩
  intro hne
  obtain ⟨r, hr⟩ := List.exists_mem_of_ne_nil _ hne
  obtain ⟨hmem, hfin, rfl⟩ := mem_finalizedOps.mp hr
  obtain ⟨r', hr', hfin', hs⟩ := hkept r hmem hfin
  have hpos := List.length_pos_of_mem (mem_finalizedOps.mpr ⟨hr', hfin', hs⟩)
  have hle := finalizedOps_length_le s'.journal r.scope
  omega

/-! ### Runs on one package -/

/-- An empty journal. -/
def fresh : Installer := ⟨⟨[], by decide⟩, 0, []⟩

/-- Execute a list of steps. -/
def run (s : Installer) (steps : List Step) : Installer := steps.foldl step s

/-- Every step of a run spares the anchors of the state it meets. -/
def sparing (s : Installer) : List Step → Bool
  | [] => true
  | st :: rest => decide (Spares s st) && sparing (step s st) rest

theorem leads_run (s : Installer) (steps : List Step) (h : sparing s steps = true) :
    Machine.Leads step Spares s (run s steps) := by
  induction steps generalizing s with
  | nil => exact Machine.Leads.refl
  | cons st rest ih =>
    obtain ⟨hst, hrest⟩ := Bool.and_eq_true_iff.mp h
    exact (Machine.Leads.next Machine.Leads.refl (of_decide_eq_true hst)).trans (ih _ hrest)

/-- Version 1 of a package is installed in an organisation. -/
def firstInstall : List Step :=
  [.begin ⟨"p@1:wf:o", "p", some "o", .materialized, none⟩,
    .advance "p@1:wf:o" .granted none, .finalize "p@1:wf:o"]

/-- An update to version 2 fails. -/
def failedUpdate : List Step :=
  [.begin ⟨"p@2:wf:o", "p", some "o", .materialized, none⟩,
    .advance "p@2:wf:o" .granted none, .fail "p@2:wf:o",
    .advance "p@2:wf:o" .rolledBack none]

theorem anchor_spared_failedUpdate :
    let s := run fresh firstInstall
    (finalizedOps s.journal ⟨"p", some "o"⟩ ≠ [] →
      (finalizedOps (run s failedUpdate).journal ⟨"p", some "o"⟩).length = 1) ∧
    (finalizedOps s.journal ⟨"p", some "o"⟩).length = 1 :=
  ⟨((anchor_spared (leads_run (run fresh firstInstall) failedUpdate (by decide))).1
    ⟨"p", some "o"⟩).2, by decide⟩

/-- Two workers install version 1 at once: the second begin finds the finalized
    row of the first and keeps it, and then its failure is written over it. -/
def sameVersionTwice : List Step :=
  [.begin ⟨"p@1:wf:o", "p", some "o", .materialized, none⟩, .finalize "p@1:wf:o",
    .begin ⟨"p@1:wf:o", "p", some "o", .materialized, none⟩, .fail "p@1:wf:o"]

/-- A slow install finalizes after a cleanup has listed it. -/
def listedThenFinalized : List Step :=
  [.begin ⟨"p@1:wf:o", "p", some "o", .materialized, none⟩,
    .advance "p@1:wf:o" .writing none, .wait 300001, .list 300000, .finalize "p@1:wf:o",
    .orphanFail ⟨"p@1:wf:o", "p", some "o", .writing, none, 0, 0⟩]

/-- A run that finalizes an op ends with no finalized op. -/
def LosesAnchor (steps : List Step) : Prop :=
  ∃ before after, steps = before ++ after ∧
    finalizedOps (run fresh before).journal ⟨"p", some "o"⟩ ≠ [] ∧
    finalizedOps (run fresh steps).journal ⟨"p", some "o"⟩ = []

theorem anchor_lost : LosesAnchor sameVersionTwice ∧ LosesAnchor listedThenFinalized :=
  ⟨⟨sameVersionTwice.take 2, sameVersionTwice.drop 2, by decide, by decide, by decide⟩,
    ⟨listedThenFinalized.take 5, listedThenFinalized.drop 5, by decide, by decide, by decide⟩⟩

end ExtInstallAnchor
