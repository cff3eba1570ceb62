import Cinatra.Extensions.BatchSweep
import Cinatra.Extensions.BatchViews

/-! # Exclusion — installs and sweeps at once

    Installs plan one at a time, under the lifecycle lock; sweeps run beside them.
    What keeps two installs apart is the ledger: an install in flight is seen by
    the next one exactly while it has an active row.  What keeps a sweep away from
    a driven batch is its age.  Where a step finds both (`Sound`), no package is
    installed twice at once, no driven batch is swept, and a finalized one stays. -/

namespace ExtExclusion

open Process RowTable ExtInstallBatch ExtBatchWorld ExtBatchRollback ExtBatchViews

/-- The world, and who holds the lifecycle lock. -/
structure Shared where
  world : World
  holder : Option Nat

inductive Job where
  | install (input : InstallInput)
  | sweep (olderThanMs : Instant)

def Job.task : Job → Task Call Call.Reply BatchError View
  | .install input => Task.of (installExtensionWithDependencies input) { org := input.orgId }
  | .sweep olderThanMs => Task.of (sweepStaleInstallBatches olderThanMs) { org := none }

/-- The call waits while the lock is held. -/
def waits : Call → Bool
  | .acquireLifecycleLock => true
  | _ => false

/-- Who holds the lock after a call. -/
def holderAfter (i : Nat) (holder : Option Nat) : Call → Option Nat
  | .acquireLifecycleLock => some i
  | .releaseLifecycleLock => if holder = some i then none else holder
  | _ => holder

def host (planner : Planner) : Host Call Call.Reply BatchError Shared Answer where
  ready s _ c := !waits c || s.holder.isNone
  answer f i c s :=
    let r := answer planner fallible f c s.world
    (r.1, ⟨r.2, holderAfter i s.holder c⟩)
  leave i s := { s with holder := if s.holder = some i then none else s.holder }

abbrev InstallPool := Pool Call Call.Reply BatchError View Shared

def poolStep (planner : Planner) : InstallPool → Event Job Answer → InstallPool :=
  step (host planner) see Job.task

/-- Every install of the organisation that is in flight, has left the planning
    section and shares a package with the plan has an active row in the ledger. -/
def Visible (s : Shared) (vs : Nat → Option View) (i : Nat) (v : View) : Prop :=
  ∀ j w, j ≠ i → vs j = some w → w.cleared = true → w.held = false → w.org = v.org →
    ¬ w.names.Disjoint v.names →
    ∃ b ∈ s.world.ledger, w.batch = some b.batchId ∧ b.phase.active = true

/-- No batch that is stale after so much time is driven. -/
def Idle (s : Shared) (vs : Nat → Option View) (elapsedMs : Nat) (olderThanMs : Instant) : Prop :=
  ∀ b ∈ listStaleInstallBatches { s.world with clock := s.world.clock + elapsedMs } olderThanMs,
    ∀ j w, vs j = some w → w.batch ≠ some b.batchId

/-- An install reads the active batches when all it must see is visible, a sweep the
    stale ones when none of them is driven. -/
def Sound (s : InstallPool) : Event Job Answer → Prop
  | .turn i f => (∀ v, NextCall s i .listActive v → Visible s.world s.views i v) ∧
      ∀ v olderThanMs, NextCall s i (.listStale olderThanMs) v →
        Idle s.world s.views f.elapsedMs olderThanMs
  | _ => True

/-! ## The invariant -/

variable {planner : Planner} {s s' : Shared} {i j : Nat} {v v' w : View}
  {vs : Nat → Option View}

/-- What holds of one task. -/
structure Own (s : Shared) (i : Nat) (v : View) : Prop where
  lock : v.held = true → s.holder = some i
  drawn : ∀ id, v.drawn = some id → id < s.world.nextUuid
  began : ∀ id, v.batch = some id → v.drawn = some id
  cleared : v.batch ≠ none → v.cleared = true
  unbegun : v.batch = none → ∀ b ∈ s.world.ledger, v.drawn ≠ some b.batchId
  row : ∀ b ∈ s.world.ledger, v.batch = some b.batchId → b.orgId = v.org ∧
    b.members.map InstallBatchMember.packageName = v.names ∧
    (b.phase = .finalized → v.closed = true)
  stale : ∀ b ∈ v.stale, b.batchId < s.world.nextUuid ∧ v.drawn ≠ some b.batchId ∧
    ∀ b' ∈ s.world.ledger, b'.batchId = b.batchId → b'.phase ≠ .finalized

/-- What holds between two tasks. -/
structure Between (v w : View) : Prop where
  drawn : ∀ id, v.drawn = some id → w.drawn ≠ some id
  apart : v.cleared = true → w.cleared = true → v.org = w.org → v.names.Disjoint w.names
  swept : ∀ b ∈ v.stale, w.drawn ≠ some b.batchId

/-- The ids of a ledger are a key, and none is still to be drawn. -/
structure Keyed (w : World) : Prop where
  key : (w.ledger.map InstallBatch.batchId).Nodup
  fresh : ∀ b ∈ w.ledger, b.batchId < w.nextUuid

structure Inv (s : Shared) (vs : Nat → Option View) : Prop where
  keyed : Keyed s.world
  own : ∀ i v, vs i = some v → Own s i v
  between : ∀ i j v w, i ≠ j → vs i = some v → vs j = some w → Between v w

theorem Inv.apart (h : Inv s vs) (hi : vs i = some v) (hne : j ≠ i) (hj : vs j = some w) :
    Between v w ∧ Between w v :=
  ⟨h.between i j v w (Ne.symm hne) hi hj, h.between j i w v hne hj hi⟩

theorem Inv.update (h : Inv s vs) (hkeyed : Keyed s'.world) (hown : Own s' i v')
    (hothers : ∀ j w, j ≠ i → vs j = some w → Own s j w → Own s' j w)
    (hbetween : ∀ j w, j ≠ i → vs j = some w → Between v' w ∧ Between w v') :
    Inv s' (Function.update vs i (some v')) := by
  have hcases : ∀ j w, Function.update vs i (some v') j = some w →
      j = i ∧ w = v' ∨ j ≠ i ∧ vs j = some w := by
    intro j w hj
    rcases update_cases hj with ⟨hji, hj⟩ | ⟨hji, hj⟩
    · exact .inl ⟨hji, (Option.some.inj hj).symm⟩
    · exact .inr ⟨hji, hj⟩
  refine ⟨hkeyed, ?_, ?_⟩
  · intro j w hj
    rcases hcases j w hj with ⟨rfl, rfl⟩ | ⟨hne, hj⟩
    · exact hown
    · exact hothers j w hne hj (h.own j w hj)
  · intro j k w x hjk hj hk
    rcases hcases j w hj with ⟨rfl, rfl⟩ | ⟨hne, hj₀⟩
    · rcases hcases k x hk with ⟨rfl, rfl⟩ | ⟨hne', hk₀⟩
      · exact absurd rfl hjk
      · exact (hbetween k x hne' hk₀).1
    · rcases hcases k x hk with ⟨rfl, rfl⟩ | ⟨hne', hk₀⟩
      · exact (hbetween j w hne hj₀).2
      · exact h.between j k w x hjk hj₀ hk₀

theorem Inv.leave (h : Inv s vs) : Inv ((host planner).leave i s) (Function.update vs i none) := by
  have hcases : ∀ j w, Function.update vs i none j = some w → j ≠ i ∧ vs j = some w := by
    intro j w hj
    rcases update_cases hj with ⟨-, hj⟩ | ⟨hji, hj⟩
    · exact absurd hj (by simp)
    · exact ⟨hji, hj⟩
  refine ⟨h.keyed, ?_, ?_⟩
  · intro j w hj
    obtain ⟨hne, hj⟩ := hcases j w hj
    have hown := h.own j w hj
    refine ⟨?_, hown.drawn, hown.began, hown.cleared, hown.unbegun, hown.row, hown.stale⟩
    intro hheld
    have hholder := hown.lock hheld
    show (if s.holder = some i then none else s.holder) = some j
    rw [if_neg (fun hc => hne (Option.some.inj (hholder.symm.trans hc))), hholder]
  · intro j k w x hjk hj hk
    exact h.between j k w x hjk (hcases j w hj).2 (hcases k x hk).2

theorem Inv.start (h : Inv s vs) (i : Nat) (org : Option String) :
    Inv s (Function.update vs i (some { org := org })) := by
  refine h.update h.keyed ?_ (fun _ _ _ _ hown => hown) ?_
  · constructor
    case cleared => exact fun hc => absurd rfl hc
    case stale => exact fun _ hb => by cases hb
    all_goals intros; simp_all
  · intro j w hne hj
    constructor
    · exact ⟨by simp, by simp, fun _ hb => by cases hb⟩
    · exact ⟨by simp, by simp, by simp⟩

/-! ## One call -/

theorem Own.keep (h : Own s i v) (hledger : s'.world.ledger = s.world.ledger)
    (hnext : s.world.nextUuid ≤ s'.world.nextUuid)
    (hholder : v.held = true → s'.holder = s.holder) : Own s' i v := by
  refine ⟨?_, ?_, h.began, h.cleared, ?_, ?_, ?_⟩
  · intro hheld
    rw [hholder hheld]
    exact h.lock hheld
  · intro id hid
    exact Nat.lt_of_lt_of_le (h.drawn id hid) hnext
  · rw [hledger]
    exact h.unbegun
  · rw [hledger]
    exact h.row
  · intro b hb
    obtain ⟨hlt, hdrawn, hphase⟩ := h.stale b hb
    rw [hledger]
    exact ⟨Nat.lt_of_lt_of_le hlt hnext, hdrawn, hphase⟩

theorem Keyed.keep {w w' : World} (h : Keyed w) (hledger : w'.ledger = w.ledger)
    (hnext : w.nextUuid ≤ w'.nextUuid) : Keyed w' := by
  refine ⟨?_, ?_⟩
  · rw [hledger]
    exact h.key
  · intro b hb
    rw [hledger] at hb
    exact Nat.lt_of_lt_of_le (h.fresh b hb) hnext

theorem Own.unbatched (h : Own s i v) (hcleared : v.cleared = false) : v.batch = none := by
  by_contra hc
  rw [h.cleared hc] at hcleared
  exact absurd hcleared (by decide)

variable {b : InstallBatch}

theorem disjoint_of_overlapNames (h : overlapNames names b.orgId b = []) :
    (b.members.map InstallBatchMember.packageName).Disjoint names := by
  rw [overlapNames, if_neg (fun hc => hc rfl), List.filter_eq_nil_iff] at h
  intro n hn hin
  exact h n (.tail _ hn) (List.contains_iff_mem.mpr hin)

section Same

variable (h : Inv s vs) (hledger : s'.world.ledger = s.world.ledger)
  (hnext : s'.world.nextUuid = s.world.nextUuid)

include h hledger hnext

/-- A call that writes nothing and leaves the lock: only the view of its task changes. -/
theorem Inv.view (hholder : s'.holder = s.holder) (hown : Own s i v')
    (hbetween : ∀ j w, j ≠ i → vs j = some w → Between v' w ∧ Between w v') :
    Inv s' (Function.update vs i (some v')) := by
  have hothers : ∀ j w, Own s j w → Own s' j w := fun j w hw =>
    hw.keep hledger (Nat.le_of_eq hnext.symm) (fun _ => hholder)
  exact h.update (h.keyed.keep hledger (Nat.le_of_eq hnext.symm)) (hothers i v' hown)
    (fun j w _ _ => hothers j w) hbetween

theorem Inv.inert (hholder : s'.holder = s.holder) (hi : vs i = some v) :
    Inv s' (Function.update vs i (some v)) :=
  h.view hledger hnext hholder (h.own i v hi) (fun _ _ hne hj => h.apart hi hne hj)

theorem Inv.acquire (hholder : s'.holder = some i) (hi : vs i = some v) (hfree : s.holder = none) :
    Inv s' (Function.update vs i (some { v with held := true })) := by
  have hv := h.own i v hi
  refine h.update ?_ ?_ ?_ ?_
  · exact h.keyed.keep hledger (Nat.le_of_eq hnext.symm)
  · have hkeep : Own s' i { v with held := false } :=
      Own.keep ⟨fun hc => absurd hc (by simp), hv.drawn, hv.began, hv.cleared, hv.unbegun, hv.row,
        hv.stale⟩ hledger (Nat.le_of_eq hnext.symm) (fun hc => absurd hc (by simp))
    exact ⟨fun _ => hholder, hkeep.drawn, hkeep.began, hkeep.cleared, hkeep.unbegun, hkeep.row,
      hkeep.stale⟩
  · intro j w _ hj hw
    refine hw.keep hledger (Nat.le_of_eq hnext.symm) (fun hheld => ?_)
    have hc := hw.lock hheld
    rw [hfree] at hc
    exact absurd hc (by simp)
  · intro j w hne hj
    obtain ⟨⟨hd, ha, hs⟩, hd', ha', hs'⟩ := h.apart hi hne hj
    exact ⟨⟨hd, ha, hs⟩, ⟨hd', ha', hs'⟩⟩

theorem Inv.release (hholder : s'.holder = if s.holder = some i then none else s.holder)
    (hi : vs i = some v) : Inv s' (Function.update vs i (some { v with held := false })) := by
  have hv := h.own i v hi
  refine h.update ?_ ?_ ?_ ?_
  · exact h.keyed.keep hledger (Nat.le_of_eq hnext.symm)
  · exact Own.keep ⟨fun hc => absurd hc (by simp), hv.drawn, hv.began, hv.cleared, hv.unbegun,
      hv.row, hv.stale⟩ hledger (Nat.le_of_eq hnext.symm) (fun hc => absurd hc (by simp))
  · intro j w hne hj hw
    refine hw.keep hledger (Nat.le_of_eq hnext.symm) (fun hheld => ?_)
    have hj' := hw.lock hheld
    rw [hholder, if_neg]
    rw [hj']
    exact fun hc => hne (Option.some.inj hc)
  · intro j w hne hj
    obtain ⟨⟨hd, ha, hs⟩, hd', ha', hs'⟩ := h.apart hi hne hj
    exact ⟨⟨hd, ha, hs⟩, ⟨hd', ha', hs'⟩⟩

variable {names : List String}

theorem Inv.plan (hholder : s'.holder = s.holder) (hi : vs i = some v)
    (hcleared : v.cleared = false) :
    Inv s' (Function.update vs i (some { v with names := names })) := by
  have hv := h.own i v hi
  refine h.view hledger hnext hholder ?_ ?_
  · refine ⟨hv.lock, hv.drawn, hv.began, hv.cleared, hv.unbegun, ?_, hv.stale⟩
    intro b _ hc
    rw [hv.unbatched hcleared] at hc
    exact absurd hc (by simp)
  · intro j w hne hj
    obtain ⟨⟨hd, -, hs⟩, hd', -, hs'⟩ := h.apart hi hne hj
    have hnot : ∀ {p : Prop}, v.cleared = true → p := by
      intro p hc
      rw [hcleared] at hc
      exact absurd hc (by decide)
    exact ⟨⟨hd, fun hc => hnot hc, hs⟩, ⟨hd', fun _ hc => hnot hc, hs'⟩⟩

/-- The overlap guard: every install that shares a package is visible, so the
    planner that is let through shares none. -/
theorem Inv.listActive (hholder : s'.holder = s.holder) (hi : vs i = some v)
    (hheld : v.held = true) (hcleared : v.cleared = false) (hvis : Visible s vs i v) :
    Inv s' (Function.update vs i (some { v with
      cleared := (s.world.ledger.filter activeBatch).all
        (fun b => overlapNames v.names v.org b = []) })) := by
  have hv := h.own i v hi
  refine h.view hledger hnext hholder ?_ ?_
  · exact ⟨hv.lock, hv.drawn, hv.began, fun hc => absurd (hv.unbatched hcleared) hc, hv.unbegun,
      hv.row, hv.stale⟩
  · intro j w hne hj
    obtain ⟨⟨hd, -, hs⟩, hd', -, hs'⟩ := h.apart hi hne hj
    have hapart : (s.world.ledger.filter activeBatch).all
        (fun b => overlapNames v.names v.org b = []) = true → w.cleared = true → w.org = v.org →
        w.names.Disjoint v.names := by
      intro hall hwc horg
      by_contra hshare
      have hw := h.own j w hj
      have hout : w.held = false := by
        by_contra hc
        rw [Bool.not_eq_false] at hc
        exact hne (Option.some.inj ((hw.lock hc).symm.trans (hv.lock hheld)))
      obtain ⟨b, hb, hwb, hactive⟩ := hvis j w hne hj hwc hout horg hshare
      obtain ⟨hborg, hbnames, -⟩ := hw.row b hb hwb
      have hclear := List.all_eq_true.mp hall b (List.mem_filter.mpr ⟨hb, hactive⟩)
      rw [decide_eq_true_eq, ← horg, ← hborg] at hclear
      have hdis := disjoint_of_overlapNames hclear
      rw [hbnames] at hdis
      exact hshare hdis
    exact ⟨⟨hd, fun hc hwc horg => fun _ hn hn' => hapart hc hwc horg.symm hn' hn, hs⟩,
      ⟨hd', fun hwc hc horg => hapart hc hwc horg, hs'⟩⟩

theorem Inv.listStale (hholder : s'.holder = s.holder) {batches : List InstallBatch}
    (hi : vs i = some v) (hdrawn : v.drawn = none)
    (hrows : ∀ b ∈ batches, b ∈ s.world.ledger ∧ b.phase.active = true)
    (hidle : ∀ b ∈ batches, ∀ j w, vs j = some w → w.batch ≠ some b.batchId) :
    Inv s' (Function.update vs i (some { v with stale := batches })) := by
  have hv := h.own i v hi
  refine h.view hledger hnext hholder ?_ ?_
  · refine ⟨hv.lock, hv.drawn, hv.began, hv.cleared, hv.unbegun, hv.row, ?_⟩
    intro b hb
    obtain ⟨hmem, hactive⟩ := hrows b hb
    refine ⟨h.keyed.fresh b hmem, ?_, ?_⟩
    · show v.drawn ≠ _
      rw [hdrawn]
      exact fun hc => nomatch hc
    · intro b' hb' heq hphase
      rw [eq_of_key h.keyed.key hb' hmem heq] at hphase
      rw [hphase] at hactive
      exact absurd hactive (by decide)
  · intro j w hne hj
    have hw := h.own j w hj
    obtain ⟨⟨hd, ha, -⟩, hd', ha', hs'⟩ := h.apart hi hne hj
    refine ⟨⟨hd, ha, ?_⟩, ⟨hd', ha', hs'⟩⟩
    intro b hb hc
    cases hwb : w.batch with
    | none => exact hw.unbegun hwb b (hrows b hb).1 hc
    | some id =>
      have hid := hw.began id hwb
      rw [hc] at hid
      rw [← Option.some.inj hid] at hwb
      exact hidle b hb j w hj hwb

end Same

theorem Inv.draw (h : Inv s vs) (hi : vs i = some v) (hbatch : v.batch = none)
    (hledger : s'.world.ledger = s.world.ledger)
    (hnext : s'.world.nextUuid = s.world.nextUuid + 1) (hholder : s'.holder = s.holder) :
    Inv s' (Function.update vs i (some { v with drawn := some s.world.nextUuid })) := by
  have hv := h.own i v hi
  have hle : s.world.nextUuid ≤ s'.world.nextUuid := by omega
  refine h.update (h.keyed.keep hledger hle) ?_
    (fun j w _ _ hw => hw.keep hledger hle (fun _ => hholder)) ?_
  · refine ⟨?_, ?_, ?_, hv.cleared, ?_, ?_, ?_⟩
    · rw [hholder]
      exact hv.lock
    · intro id hid
      rw [← Option.some.inj hid, hnext]
      exact Nat.lt_succ_self _
    · intro id hid
      rw [hbatch] at hid
      exact absurd hid (by simp)
    · intro _ b hb hc
      rw [hledger] at hb
      exact absurd (Option.some.inj hc).symm (Nat.ne_of_lt (h.keyed.fresh b hb))
    · intro b _ hc
      rw [hbatch] at hc
      exact absurd hc (by simp)
    · intro b hb
      obtain ⟨hlt, -, hphase⟩ := hv.stale b hb
      rw [hledger]
      refine ⟨Nat.lt_of_lt_of_le hlt hle, ?_, hphase⟩
      exact fun hc => absurd (Option.some.inj hc).symm (Nat.ne_of_lt hlt)
  · intro j w hne hj
    have hw := h.own j w hj
    obtain ⟨⟨-, ha, hs⟩, -, ha', -⟩ := h.apart hi hne hj
    refine ⟨⟨?_, ha, hs⟩, ⟨?_, ha', ?_⟩⟩
    · intro id hid hc
      have hlt := hw.drawn id hc
      rw [← Option.some.inj hid] at hlt
      exact absurd hlt (Nat.lt_irrefl _)
    · intro id hid hc
      have hlt := hw.drawn id hid
      rw [← Option.some.inj hc] at hlt
      exact absurd hlt (Nat.lt_irrefl _)
    · intro b hb hc
      exact absurd (Option.some.inj hc).symm (Nat.ne_of_lt (hw.stale b hb).1)

theorem Inv.begin (h : Inv s vs) (hi : vs i = some v)
    (hbatch : v.batch = none) (hcleared : v.cleared = true) (hdrawn : v.drawn = some b.batchId)
    (horg : b.orgId = v.org)
    (hnames : b.members.map InstallBatchMember.packageName = v.names)
    (hphase : b.phase ≠ .finalized)
    (hledger : s'.world.ledger = s.world.ledger ++ [b])
    (hnext : s'.world.nextUuid = s.world.nextUuid) (hholder : s'.holder = s.holder) :
    Inv s' (Function.update vs i (some { v with batch := some b.batchId })) := by
  have hv := h.own i v hi
  have hnew := hv.unbegun hbatch
  rw [hdrawn] at hnew
  have hrow : ∀ b' ∈ s'.world.ledger, b' ∈ s.world.ledger ∨ b' = b := by
    rw [hledger]
    exact fun _ => mem_concat.mp
  refine h.update ⟨?_, ?_⟩ ?_ ?_ ?_
  · rw [hledger]
    exact nodup_concat h.keyed.key fun b' hb' heq => hnew b' hb' (congrArg some heq.symm)
  · intro b' hb'
    rw [hnext]
    rcases hrow b' hb' with hb' | rfl
    · exact h.keyed.fresh b' hb'
    · exact hv.drawn _ hdrawn
  · refine ⟨?_, ?_, ?_, fun _ => hcleared, fun hc => absurd hc (by simp), ?_, ?_⟩
    · rw [hholder]
      exact hv.lock
    · rw [hnext]
      exact hv.drawn
    · intro id hid
      rw [← Option.some.inj hid]
      exact hdrawn
    · intro b' hb' hc
      rcases hrow b' hb' with hb' | rfl
      · exact absurd hc (hnew b' hb')
      · exact ⟨horg, hnames, fun hc => absurd hc hphase⟩
    · intro b₀ hb₀
      obtain ⟨hlt, hne, hfin⟩ := hv.stale b₀ hb₀
      rw [hnext]
      refine ⟨hlt, hne, ?_⟩
      intro b' hb' hid
      rcases hrow b' hb' with hb' | rfl
      · exact hfin b' hb' hid
      · exact hphase
  · intro j w hne hj hw
    obtain ⟨hd, -, -⟩ := h.between j i w v hne hj hi
    refine ⟨?_, ?_, hw.began, hw.cleared, ?_, ?_, ?_⟩
    · rw [hholder]
      exact hw.lock
    · rw [hnext]
      exact hw.drawn
    · intro hwb b' hb' hc
      rcases hrow b' hb' with hb' | rfl
      · exact hw.unbegun hwb b' hb' hc
      · exact hd _ hc hdrawn
    · intro b' hb' hc
      rcases hrow b' hb' with hb' | rfl
      · exact hw.row b' hb' hc
      · exact absurd hdrawn (hd _ (hw.began _ hc))
    · intro b₀ hb₀
      obtain ⟨hlt, hne', hfin⟩ := hw.stale b₀ hb₀
      rw [hnext]
      refine ⟨hlt, hne', ?_⟩
      intro b' hb' hid
      rcases hrow b' hb' with hb' | rfl
      · exact hfin b' hb' hid
      · exact hphase
  · intro j w hne hj
    obtain ⟨⟨hd, ha, hs⟩, hd', ha', hs'⟩ := h.apart hi hne hj
    exact ⟨⟨hd, ha, hs⟩, ⟨hd', ha', hs'⟩⟩

variable {f : InstallBatch → InstallBatch} {id : Nat}

/-- A write to the row of a batch, by its driver or by a sweep; only the driver
    may finalize, and then its view says so. -/
theorem Inv.write {c : Bool} (h : Inv s vs)
    (hi : vs i = some v) (hid : ∀ b, (f b).batchId = b.batchId)
    (horg : ∀ b, (f b).orgId = b.orgId)
    (hnames : ∀ b, (f b).members.map InstallBatchMember.packageName =
      b.members.map InstallBatchMember.packageName)
    (hfin : (c = v.closed ∧ ∀ b, (f b).phase = .finalized → b.phase = .finalized) ∨
      (c = true ∧ v.batch = some id))
    (hledger : s'.world.ledger = updateWhere (fun b => b.batchId = id) f s.world.ledger)
    (hnext : s'.world.nextUuid = s.world.nextUuid) (hholder : s'.holder = s.holder) :
    Inv s' (Function.update vs i (some { v with closed := c })) := by
  have hv := h.own i v hi
  have hrow : ∀ b' ∈ s'.world.ledger, ∃ b ∈ s.world.ledger, b.batchId = b'.batchId ∧
      b.orgId = b'.orgId ∧ b.members.map InstallBatchMember.packageName =
        b'.members.map InstallBatchMember.packageName ∧
      (b'.phase = .finalized → b.phase = .finalized ∨ (c = true ∧ v.batch = some b'.batchId)) := by
    intro b' hb'
    rw [hledger] at hb'
    obtain ⟨b, hb, rfl⟩ := mem_updateWhere.mp hb'
    refine ⟨b, hb, ?_⟩
    split
    · rename_i heq
      refine ⟨(hid b).symm, (horg b).symm, (hnames b).symm, ?_⟩
      intro hphase
      rcases hfin with ⟨-, hkeep⟩ | ⟨hclosed, hbatch⟩
      · exact .inl (hkeep b hphase)
      · refine .inr ⟨hclosed, ?_⟩
        rw [hid, of_decide_eq_true heq]
        exact hbatch
    · exact ⟨rfl, rfl, rfl, .inl⟩
  refine h.update ⟨?_, ?_⟩ ?_ ?_ ?_
  · rw [hledger, map_updateWhere _ _ hid]
    exact h.keyed.key
  · intro b' hb'
    obtain ⟨b, hb, heq, -⟩ := hrow b' hb'
    rw [hnext, ← heq]
    exact h.keyed.fresh b hb
  · refine ⟨?_, ?_, hv.began, hv.cleared, ?_, ?_, ?_⟩
    · rw [hholder]
      exact hv.lock
    · rw [hnext]
      exact hv.drawn
    · intro hvb b' hb'
      obtain ⟨b, hb, heq, -⟩ := hrow b' hb'
      rw [← heq]
      exact hv.unbegun hvb b hb
    · intro b' hb' hc
      obtain ⟨b, hb, heq, ho, hn, hp⟩ := hrow b' hb'
      rw [← heq] at hc
      obtain ⟨hborg, hbnames, hbclosed⟩ := hv.row b hb hc
      refine ⟨ho ▸ hborg, hn ▸ hbnames, ?_⟩
      intro hphase
      rcases hp hphase with hbfin | ⟨hclosed, -⟩
      · rcases hfin with ⟨hsame, -⟩ | ⟨hclosed, -⟩
        · exact hsame.trans (hbclosed hbfin)
        · exact hclosed
      · exact hclosed
    · intro b₀ hb₀
      obtain ⟨hlt, hne, hnot⟩ := hv.stale b₀ hb₀
      rw [hnext]
      refine ⟨hlt, hne, ?_⟩
      intro b' hb' hb'id hphase
      obtain ⟨b, hb, heq, -, -, hp⟩ := hrow b' hb'
      rcases hp hphase with hbfin | ⟨-, hbatch⟩
      · exact hnot b hb (heq.trans hb'id) hbfin
      · rw [hb'id] at hbatch
        exact hne (hv.began _ hbatch)
  · intro j w hne hj hw
    obtain ⟨⟨hd, -, -⟩, -, -, hs⟩ := h.apart hi hne hj
    refine ⟨?_, ?_, hw.began, hw.cleared, ?_, ?_, ?_⟩
    · rw [hholder]
      exact hw.lock
    · rw [hnext]
      exact hw.drawn
    · intro hwb b' hb'
      obtain ⟨b, hb, heq, -⟩ := hrow b' hb'
      rw [← heq]
      exact hw.unbegun hwb b hb
    · intro b' hb' hc
      obtain ⟨b, hb, heq, ho, hn, hp⟩ := hrow b' hb'
      have hc' := hc
      rw [← heq] at hc'
      obtain ⟨hborg, hbnames, hbclosed⟩ := hw.row b hb hc'
      refine ⟨ho ▸ hborg, hn ▸ hbnames, ?_⟩
      intro hphase
      rcases hp hphase with hbfin | ⟨-, hbatch⟩
      · exact hbclosed hbfin
      · exact absurd (hw.began _ hc) (hd _ (hv.began _ hbatch))
    · intro b₀ hb₀
      obtain ⟨hlt, hne', hnot⟩ := hw.stale b₀ hb₀
      rw [hnext]
      refine ⟨hlt, hne', ?_⟩
      intro b' hb' hb'id hphase
      obtain ⟨b, hb, heq, -, -, hp⟩ := hrow b' hb'
      rcases hp hphase with hbfin | ⟨-, hbatch⟩
      · exact hnot b hb (heq.trans hb'id) hbfin
      · rw [hb'id] at hbatch
        exact hs b₀ hb₀ (hv.began _ hbatch)
  · intro j w hne hj
    obtain ⟨⟨hd, ha, hs⟩, hd', ha', hs'⟩ := h.apart hi hne hj
    exact ⟨⟨hd, ha, hs⟩, ⟨hd', ha', hs'⟩⟩

/-! ## Turns -/

variable {c : Call}

theorem see_error {err : BatchError} : see v c (.error err) = v := by
  cases c with
  | setPhase id phase => cases phase <;> rfl
  | _ => rfl

theorem answer_cases (planner : Planner) (f : Answer) (c : Call) (w : World) :
    (∃ err, answer planner fallible f c w =
      (.error err, { w with clock := w.clock + f.elapsedMs }) ∧ fallible c = true) ∨
    answer planner fallible f c w =
      serve planner f { w with clock := w.clock + f.elapsedMs } c := by
  rw [answer]
  cases f.fault with
  | none => exact .inr rfl
  | some err =>
    by_cases hc : fallible c = true
    · exact .inl ⟨err, if_pos hc, hc⟩
    · exact .inr (if_neg hc)

theorem Inv.served {f : Answer} {w₁ : World} (h : Inv s vs) (hi : vs i = some v)
    (hA : Allowed v c) (hready : (host planner).ready s i c = true)
    (hvis : c = .listActive → Visible s vs i v)
    (hidle : ∀ olderThanMs, c = .listStale olderThanMs → Idle s vs f.elapsedMs olderThanMs)
    (hw₁ : w₁ = { s.world with clock := s.world.clock + f.elapsedMs }) :
    Inv ⟨(serve planner f w₁ c).2, holderAfter i s.holder c⟩
      (Function.update vs i (some (see v c (serve planner f w₁ c).1))) := by
  have hledger : w₁.ledger = s.world.ledger := by rw [hw₁]
  have hnext : w₁.nextUuid = s.world.nextUuid := by rw [hw₁]
  cases c with
  | authorizeRoot | refreshGrant | now | readLiveRowVersion | readInstallOp | installMember
  | uninstallMember | triggerAgentRuntimeReload => exact h.inert hledger hnext rfl hi
  | acquireLifecycleLock =>
    have hfree : s.holder = none := by
      simpa [host, waits] using hready
    exact h.acquire hledger hnext rfl hi hfree
  | releaseLifecycleLock => exact h.release hledger hnext rfl hi
  | plan input =>
    simp only [serve]
    cases planner.plan w₁.rows input with
    | error err => exact h.inert hledger hnext rfl hi
    | ok ordered => exact h.plan hledger hnext rfl hi hA.2
  | listActive =>
    have hinv : Inv ⟨w₁, s.holder⟩ _ := h.listActive hledger hnext rfl hi hA.1 hA.2 (hvis rfl)
    rw [← hledger] at hinv
    exact hinv
  | randomUUID =>
    have hinv : Inv ⟨{ w₁ with nextUuid := w₁.nextUuid + 1 }, s.holder⟩ _ :=
      h.draw hi hA hledger (by rw [hnext]) rfl
    rw [← hnext] at hinv
    exact hinv
  | begin id rootPackage orgId members =>
    obtain ⟨hheld, hcleared, hbatch, hdrawn, horg, hnames⟩ := hA
    simp only [serve]
    split
    · exact h.inert hledger hnext rfl hi
    · exact h.begin (b := newBatch w₁ id rootPackage orgId members) hi hbatch hcleared hdrawn horg
        hnames (by intro hc; cases hc) (by rw [← hledger]) hnext rfl
  | setPhase id phase =>
    have hkeep : ∀ phase, phase ≠ .finalized → Inv
        ⟨{ w₁ with ledger :=
            updateWhere (fun b => b.batchId = id) (withPhase phase w₁.clock) w₁.ledger },
          s.holder⟩ (Function.update vs i (some v)) := by
      intro phase hne
      exact h.write (f := withPhase phase w₁.clock) (c := v.closed) hi (fun _ => rfl)
        (fun _ => rfl) (fun _ => rfl) (.inl ⟨rfl, fun _ hc => absurd hc hne⟩)
        (by rw [hledger]) hnext rfl
    simp only [serve, updateBatch]
    split
    · cases phase with
      | finalized =>
        have hbatch : v.batch = some id := by
          rcases hA.1 with ⟨hb, -⟩ | ⟨b, hb, -⟩
          · exact hb
          · rw [hA.2 rfl] at hb
            cases hb
        exact h.write (f := withPhase .finalized w₁.clock) (c := true) hi (fun _ => rfl)
          (fun _ => rfl) (fun _ => rfl) (.inr ⟨rfl, hbatch⟩) (by rw [hledger]) hnext rfl
      | planning | installing | failed | compensated => exact hkeep _ (by decide)
    · cases phase <;> exact h.inert hledger hnext rfl hi
  | updateMember id packageName patch =>
    simp only [serve, updateBatch]
    split
    · exact h.write (f := withMember packageName patch w₁.clock) (c := v.closed) hi
        (fun _ => rfl) (fun _ => rfl) (fun _ => map_packageName_patch)
        (.inl ⟨rfl, fun _ hc => hc⟩) (by rw [hledger]) hnext rfl
    · exact h.inert hledger hnext rfl hi
  | listStale olderThanMs =>
    refine h.listStale (show (Shared.mk w₁ s.holder).world.ledger = _ from hledger) hnext rfl hi
      hA.2 ?_ ?_
    · intro b hb
      obtain ⟨hmem, hcond⟩ := List.mem_filter.mp ((List.mem_insertionSort _).mp hb)
      rw [hledger] at hmem
      exact ⟨hmem, (Bool.and_eq_true_iff.mp hcond).1⟩
    · rw [hw₁]
      exact hidle olderThanMs rfl

theorem Inv.turn {f : Answer} (h : Inv s vs) (hi : vs i = some v) (hA : Allowed v c)
    (hready : (host planner).ready s i c = true) (hvis : c = .listActive → Visible s vs i v)
    (hidle : ∀ olderThanMs, c = .listStale olderThanMs → Idle s vs f.elapsedMs olderThanMs) :
    Inv ((host planner).answer f i c s).2
      (Function.update vs i (some (see v c ((host planner).answer f i c s).1))) := by
  show Inv ⟨(answer planner fallible f c s.world).2, holderAfter i s.holder c⟩
    (Function.update vs i (some (see v c (answer planner fallible f c s.world).1)))
  rcases answer_cases planner f c s.world with ⟨err, heq, hfallible⟩ | heq
  · rw [heq]
    show Inv _ (Function.update vs i (some (see v c (.error err))))
    rw [see_error]
    refine h.inert rfl rfl ?_ hi
    cases c with
    | acquireLifecycleLock | releaseLifecycleLock => exact absurd hfallible (by decide)
    | _ => rfl
  · rw [heq]
    exact h.served hi hA hready hvis hidle rfl

/-- The phase of a batch is `finalized`, in every row of it. -/
def Final (id : Nat) (w : World) : Prop :=
  (∃ b ∈ w.ledger, b.batchId = id) ∧ ∀ b ∈ w.ledger, b.batchId = id → b.phase = .finalized

variable {id' : Nat}

theorem Final.write {w w' : World}
    (h : Final id w) (hne : id' ≠ id) (hid : ∀ b, (f b).batchId = b.batchId)
    (hledger : w'.ledger = updateWhere (fun b => b.batchId = id') f w.ledger) : Final id w' := by
  obtain ⟨⟨b, hb, hbid⟩, hall⟩ := h
  have hother : ∀ b : InstallBatch, b.batchId = id → ¬ decide (b.batchId = id') = true := by
    intro b hb hc
    exact hne ((of_decide_eq_true hc).symm.trans hb)
  refine ⟨⟨b, ?_, hbid⟩, ?_⟩
  · rw [hledger]
    exact mem_updateWhere.mpr ⟨b, hb, (if_neg (hother b hbid)).symm⟩
  · intro b' hb' heq
    rw [hledger] at hb'
    obtain ⟨b₀, hb₀, rfl⟩ := mem_updateWhere.mp hb'
    have hb₀id : b₀.batchId = id := by
      by_cases hp : decide (b₀.batchId = id') = true
      · rw [if_pos hp, hid] at heq
        exact heq
      · rw [if_neg hp] at heq
        exact heq
    rw [if_neg (hother b₀ hb₀id)]
    exact hall b₀ hb₀ hb₀id

theorem Inv.writes_ne (h : Inv s vs) (hi : vs i = some v) (hw : Writes v id')
    (hfin : Final id s.world) : id' ≠ id := by
  rintro rfl
  obtain ⟨⟨b, hb, hbid⟩, hall⟩ := hfin
  have hv := h.own i v hi
  rcases hw with ⟨hbatch, hopen⟩ | ⟨b₀, hb₀, hid⟩
  · rw [← hbid] at hbatch
    rw [(hv.row b hb hbatch).2.2 (hall b hb hbid)] at hopen
    exact absurd hopen (by decide)
  · exact (hv.stale b₀ hb₀).2.2 b hb (hbid.trans hid.symm) (hall b hb hbid)

theorem Final.turn {f : Answer} (h : Inv s vs) (hi : vs i = some v)
    (hA : Allowed v c) (hfin : Final id s.world) :
    Final id ((host planner).answer f i c s).2.world := by
  show Final id (answer planner fallible f c s.world).2
  rcases answer_cases planner f c s.world with ⟨err, heq, -⟩ | heq
  · rw [heq]
    exact hfin
  rw [heq]
  have hv := h.own i v hi
  cases c with
  | begin batchId rootPackage orgId members =>
    obtain ⟨-, -, hbatch, hdrawn, -⟩ := hA
    obtain ⟨⟨b, hb, hbid⟩, hall⟩ := hfin
    simp only [serve]
    split
    · exact ⟨⟨b, hb, hbid⟩, hall⟩
    refine ⟨⟨b, List.mem_append_left _ hb, hbid⟩, ?_⟩
    intro b' hb' hid
    rcases List.mem_append.mp hb' with hb' | hb'
    · exact hall b' hb' hid
    · rw [List.mem_singleton.mp hb'] at hid
      have hnew := hv.unbegun hbatch b hb
      rw [hdrawn, hbid, ← hid] at hnew
      exact absurd rfl hnew
  | setPhase id' phase =>
    have hne := h.writes_ne hi hA.1 hfin
    simp only [serve, updateBatch]
    split
    · exact hfin.write hne (f := withPhase phase _) (fun _ => rfl) rfl
    · exact hfin
  | updateMember id' packageName patch =>
    have hne := h.writes_ne hi hA hfin
    simp only [serve, updateBatch]
    split
    · exact hfin.write hne (f := withMember packageName patch _) (fun _ => rfl) rfl
    · exact hfin
  | _ => exact hfin

/-! ## Runs -/

theorem job_keeps (j : Job) : j.task.Keeps see Allowed := by
  cases j with
  | install input => exact install_keeps input
  | sweep olderThanMs => exact sweep_keeps olderThanMs

/-- What every step keeps: the tasks are checked, the invariant holds. -/
def Good (p : InstallPool) : Prop := p.Kept see Allowed ∧ Inv p.world p.views

variable {p : InstallPool} {e : Event Job Answer}

theorem step_good (h : Good p) (hs : Sound p e) : Good (poolStep planner p e) := by
  refine ⟨step_kept job_keeps e h.1, ?_⟩
  refine step_rule (A := Allowed) h.1 ?_ ?_ (fun w vs i hI => hI.leave) h.2
  · intro i j _
    cases j with
    | install input => exact h.2.start i input.orgId
    | sweep olderThanMs => exact h.2.start i none
  · rintro i f c v rfl hcall hA hready
    refine h.2.turn hcall.view hA hready ?_ ?_
    · rintro rfl
      exact hs.1 v hcall
    · rintro olderThanMs rfl
      exact hs.2 v olderThanMs hcall

theorem step_final (h : Good p)
    (hfin : Final id p.world.world) : Final id (poolStep planner p e).world.world := by
  show Final id (step (host planner) see Job.task p e).world.world
  refine step_rule (A := Allowed) (I := fun s _ => Final id s.world) h.1 (fun _ _ _ => hfin) ?_ ?_
    hfin
  · rintro i f c v rfl hcall hA hready
    exact hfin.turn h.2 hcall.view hA
  · exact fun _ _ _ hI => hI

/-- No tasks yet. -/
def idlePool (w : World) : InstallPool := ⟨⟨w, none⟩, fun _ => none⟩

theorem good_idle {w : World} (hw : Keyed w) : Good (idlePool w) :=
  ⟨(fun _ _ hc => nomatch hc), hw, (fun _ _ hc => nomatch hc), fun _ _ _ _ _ hc => nomatch hc⟩

/-- No two installs in flight in one organisation have a package in common; no
    batch a sweep has listed has a driver that is running; and a call installs,
    uninstalls or writes only what its task's view has. -/
structure Exclusive (p : InstallPool) : Prop where
  apart : ∀ i j v w, i ≠ j → p.views i = some v → p.views j = some w → v.cleared = true →
    w.cleared = true → v.org = w.org → v.names.Disjoint w.names
  undriven : ∀ i v b, p.views i = some v → b ∈ v.stale → ∀ j w, p.views j = some w →
    w.batch ≠ some b.batchId
  own : ∀ i c v, NextCall p i c v → Allowed v c

theorem Good.exclusive (h : Good p) : Exclusive p := by
  refine ⟨?_, ?_, fun i c v hcall => hcall.allowed h.1⟩
  · intro i j v w hne hi hj
    exact (h.2.between i j v w hne hi hj).apart
  · intro i v b hi hb j w hj hc
    have hw := (h.2.own j w hj).began _ hc
    by_cases hij : i = j
    · subst hij
      rw [hi] at hj
      rw [← Option.some.inj hj] at hw
      exact ((h.2.own i v hi).stale b hb).2.1 hw
    · exact (h.2.between i j v w hij hi hj).swept b hb hw

/-- **Installs and sweeps keep apart**, and a finalized batch stays finalized, in
    every run whose steps are sound. -/
theorem exclusion (planner : Planner) (w : World) (hw : Keyed w) {p p' : InstallPool}
    (hrun : Machine.Leads (poolStep planner) Sound (idlePool w) p)
    (hrun' : Machine.Leads (poolStep planner) Sound p p') :
    Exclusive p ∧ ∀ id, Final id p.world.world → Final id p'.world.world := by
  have hgood : Good p := hrun.preserves (fun _ _ h hs => step_good h hs) (good_idle hw)
  refine ⟨hgood.exclusive, ?_⟩
  intro id hfin
  have hboth : Good p' ∧ Final id p'.world.world :=
    hrun'.preserves (I := fun p => Good p ∧ Final id p.world.world)
      (fun _ _ h hs => ⟨step_good h.1 hs, step_final h.1 h.2⟩) ⟨hgood, hfin⟩
  exact hboth.2

/-! ### Some at once -/

/-- So many turns of one task. -/
def turns (i n : Nat) : List (Event Job Answer) := List.replicate n (.turn i {})

def events (planner : Planner) (p : InstallPool) (es : List (Event Job Answer)) : InstallPool :=
  es.foldl (poolStep planner) p

/-- Only so many tasks. -/
def Few (n : Nat) (p : InstallPool) : Prop := ∀ j, n ≤ j → p.tasks j = none

/-- `Visible` and `Idle`, looked up task by task. -/
def visibleTest (n : Nat) (p : InstallPool) (i : Nat) (v : View) : Bool :=
  (List.range n).all fun j => (p.views j).all fun w =>
    decide (j = i ∨ w.cleared = false ∨ w.held = true ∨ w.org ≠ v.org ∨
      (∀ x ∈ w.names, x ∉ v.names) ∨
      ∃ b ∈ p.world.world.ledger, w.batch = some b.batchId ∧ b.phase.active = true)

def idleTest (n : Nat) (p : InstallPool) (elapsedMs : Nat) (olderThanMs : Instant) : Bool :=
  (List.range n).all fun j => (p.views j).all fun w =>
    let late := { p.world.world with clock := p.world.world.clock + elapsedMs }
    (listStaleInstallBatches late olderThanMs).all fun b => decide (w.batch ≠ some b.batchId)

def soundTest (n : Nat) (p : InstallPool) : Event Job Answer → Bool
  | .turn i f =>
    match p.tasks i with
    | some ⟨.call .listActive _, v⟩ => visibleTest n p i v
    | some ⟨.call (.listStale olderThanMs) _, _⟩ => idleTest n p f.elapsedMs olderThanMs
    | _ => true
  | _ => true

variable {n : Nat}

theorem Few.test {test : Nat → View → Bool} (hfew : Few n p)
    (h : ((List.range n).all fun j => (p.views j).all (test j)) = true) (hj : p.views j = some w) :
    test j w = true := by
  have hlt : j < n := by
    by_contra hc
    rw [Pool.views, hfew j (Nat.le_of_not_lt hc)] at hj
    cases hj
  have htest := List.all_eq_true.mp h j (List.mem_range.mpr hlt)
  rw [hj] at htest
  exact htest

theorem sound_of_test (hfew : Few n p) (h : soundTest n p e = true) : Sound p e := by
  cases e with
  | start i j => trivial
  | kill i => trivial
  | turn i f =>
    constructor
    · rintro v ⟨k, hk⟩ j w hne hj hcleared hheld horg hshare
      simp only [soundTest, hk] at h
      rcases of_decide_eq_true (hfew.test h hj) with hc | hc | hc | hc | hc | hrow
      · exact absurd hc hne
      · rw [hcleared] at hc
        cases hc
      · rw [hheld] at hc
        cases hc
      · exact absurd horg hc
      · exact absurd (fun x hx hx' => hc x hx hx') hshare
      · exact hrow
    · rintro v olderThanMs ⟨k, hk⟩ b hb j w hj
      simp only [soundTest, hk] at h
      exact of_decide_eq_true (List.all_eq_true.mp (hfew.test h hj) b hb)

theorem leads_of_test (planner : Planner) (es : List (Event Job Answer)) (hfew : Few n p)
    (htasks : ∀ e ∈ es, e.task < n)
    (h : Machine.passes (poolStep planner) (soundTest n) p es = true) :
    Machine.Leads (poolStep planner) Sound p (events planner p es) ∧
      Few n (events planner p es) := by
  induction es generalizing p with
  | nil => exact ⟨Machine.Leads.refl, hfew⟩
  | cons e es ih =>
    rw [Machine.passes, Bool.and_eq_true] at h
    have hnext : Few n (poolStep planner p e) := by
      intro j hj
      have hne : e.task ≠ j := Nat.ne_of_lt (Nat.lt_of_lt_of_le (htasks e (.head _)) hj)
      exact (step_tasks_ne hne).trans (hfew j hj)
    obtain ⟨hleads, hfew'⟩ := ih hnext (fun e' he' => htasks e' (.tail _ he')) h.2
    exact ⟨(Machine.Leads.refl.next (sound_of_test hfew h.1)).trans hleads, hfew'⟩

instance (id : Nat) (w : World) : Decidable (Final id w) :=
  inferInstanceAs (Decidable (_ ∧ _))

/-- The first of two planners that has a plan. -/
def Planner.or (a b : Planner) : Planner where
  plan rows input := match a.plan rows input with
    | .ok ordered => .ok ordered
    | .error _ => b.plan rows input
  sound := by
    intro rows input ordered hplan
    split at hplan
    · rename_i heq
      exact a.sound rows input ordered (heq.trans hplan)
    · exact b.sound rows input ordered hplan

/-- The root on its dependency, and a lamp on its bulb. -/
def shop : Planner :=
  Planner.or depThenRoot <| Planner.one platformRoot ⟨"lamp", "1", some "acme", none⟩
    [⟨"bulb", "1", "skill", false⟩, ⟨"lamp", "1", "skill", false⟩]
    ⟨by decide, ⟨[⟨"bulb", "1", "skill", false⟩], ⟨"lamp", "1", "skill", false⟩, rfl, rfl, rfl⟩,
      by decide, by decide⟩

/-- An install of another organisation has died in the middle. -/
def abandoned : InstallBatch :=
  ⟨0, "old", some "other", .installing,
    [⟨"old", "1", "skill", .installed, ⟨false, none, none, none⟩, none, none⟩], 0, 0⟩

def busyWorld : World := ⟨platformRoot, [abandoned], 1000000, 1, [], []⟩

/-- Two installs begin their batches, a third is refused by the first one's, a sweep lists the
    abandoned one, and the first install finalizes. -/
def busyEvents : List (Event Job Answer) :=
  .start 0 (.install rootInput) :: turns 0 11 ++
  .start 1 (.install ⟨"lamp", some "1", some "acme", false, none⟩) :: turns 1 11 ++
  .start 2 (.install rootInput) :: turns 2 4 ++
  .start 3 (.sweep 300000) :: turns 3 1 ++ turns 0 9

def busy : InstallPool := events shop (idlePool busyWorld) busyEvents

/-- The sweep compensates its batch, and the second install goes on. -/
def later : InstallPool := events shop busy (turns 3 3 ++ turns 1 4)

theorem exclusion_busy :
    Exclusive busy ∧ Final 1 later.world.world ∧
      busy.views 0 = some { org := some "acme", names := ["dep", "root"], cleared := true,
                            drawn := some 1, batch := some 1, closed := true } ∧
      busy.views 1 = some { org := some "acme", names := ["bulb", "lamp"], cleared := true,
                            drawn := some 2, batch := some 2 } ∧
      busy.views 2 = none ∧ busy.views 3 = some { org := none, stale := [abandoned] } := by
  have hfew : Few 4 (idlePool busyWorld) := fun _ _ => rfl
  obtain ⟨hrun, hfew'⟩ := leads_of_test shop busyEvents hfew (by decide) (by decide +kernel)
  obtain ⟨hrun', -⟩ := leads_of_test shop (turns 3 3 ++ turns 1 4) hfew' (by decide)
    (by decide +kernel)
  obtain ⟨hexclusive, hfinal⟩ := exclusion shop busyWorld ⟨by decide, by decide⟩ hrun hrun'
  refine ⟨hexclusive, hfinal 1 ?_, ?_⟩
  · decide +kernel
  · decide +kernel

/-- Two installs of one root, the first on the root-only fast path. -/
def twice : InstallPool :=
  events rootAlone (idlePool (emptyWorld platformRoot))
    (.start 0 (.install rootInput) :: turns 0 4 ++ .start 1 (.install rootInput) :: turns 1 3)

/-- A dependency takes 400 seconds to install, and a sweep lists its batch. -/
def slow : InstallPool :=
  events depThenRoot (idlePool (emptyWorld platformRoot))
    (.start 0 (.install rootInput) :: turns 0 12 ++
      [.turn 0 { elapsedMs := 400000 }, .start 1 (.sweep 300000), .turn 1 {}])

/-- The driver goes on and finalizes, and then the sweep compensates. -/
def slowFinalized : InstallPool := events depThenRoot slow (turns 0 7)

theorem exclusion_broken :
    ¬ Exclusive twice ∧ ¬ Exclusive slow ∧ Final 0 slowFinalized.world.world ∧
      ¬ Final 0 (events depThenRoot slowFinalized (turns 1 3)).world.world := by
  refine ⟨?_, ?_, by decide, by decide⟩
  · intro h
    have hdis := h.apart 0 1
      { org := some "acme", names := ["root"], cleared := true }
      { org := some "acme", names := ["root"], cleared := true, held := true }
      (by decide) (by decide) (by decide) rfl rfl rfl
    exact hdis (List.mem_singleton.mpr rfl) (List.mem_singleton.mpr rfl)
  · intro h
    exact h.undriven 1 { org := none, stale := [ExtBatchSweep.halfWay] } ExtBatchSweep.halfWay
      (by decide) (List.mem_singleton.mpr rfl) 0
      { org := some "acme", names := ["dep", "root"], cleared := true, drawn := some 0,
        batch := some 0 } (by decide) rfl

end ExtExclusion
