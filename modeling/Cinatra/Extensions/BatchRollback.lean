import Cinatra.Extensions.BatchWorld

/-! # BatchRollback — what a batch install leaves

    The members a batch installs, newest first, are what a failing batch undoes.
    One pass over the program states what it leaves (`Left`), with what the
    ledger says before every call on the way (`Safe`). -/

namespace ExtBatchRollback

open Process RowTable ExtInstallBatch ExtBatchWorld

variable {planner : Planner} {start w : World} {org : Option String} {id : Nat}
  {rows rows' : List LiveRow} {b : InstallBatch} {name : String} {now : Instant}

/-! ## What the ledger says -/

/-- What the ledger says of a member explains that it is there. -/
def Standing (b : InstallBatch) (m : InstallBatchMember) : Prop :=
  b.phase = .failed ∨ b.phase = .finalized ∨ m.status = .failed ∨ m.status = .compensationFailed ∨
    (b.phase.active = true ∧ (m.status = .installing ∨ m.status = .installed))

/-- The row of a batch begun at a world, for an organisation. -/
structure Recorded (start : World) (org : Option String) (id : Nat) (b : InstallBatch) : Prop where
  batchId : b.batchId = id
  orgId : b.orgId = org
  before : ∀ m ∈ b.members, m.preState.present = (findLiveRow start.rows m.packageName org).isSome

/-- A row that explains each of its members that was not there before and is. -/
structure Covered (start : World) (org : Option String) (id : Nat) (rows : List LiveRow)
    (b : InstallBatch) : Prop extends Recorded start org id b where
  standing : ∀ m ∈ b.members, m.preState.present = false → LiveAt rows m.packageName org →
    Standing b m

/-- A row on the way forward: what has been marked is not marked back. -/
structure Advancing (start : World) (org : Option String) (id : Nat) (marked : List String)
    (b : InstallBatch) : Prop extends Recorded start org id b where
  phase : b.phase.active = true
  marked : ∀ m ∈ b.members, m.packageName ∈ marked → m.status = .installing ∨ m.status = .installed

/-- The rows a run has added to the ledger. -/
def OnNew (start : World) (P : InstallBatch → Prop) (ledger : List InstallBatch) : Prop :=
  ∀ b ∈ ledger, start.nextUuid ≤ b.batchId → P b

/-- No id of the ledger is still to be drawn. -/
def Fresh (w : World) : Prop := ∀ b ∈ w.ledger, b.batchId < w.nextUuid

/-- Every batch the run has begun is covered. -/
def Safe (start : World) (org : Option String) (w : World) : Prop :=
  OnNew start (fun b => ∃ id, Covered start org id w.rows b) w.ledger

variable {ledger : List InstallBatch}

theorem OnNew.mono {P P' : InstallBatch → Prop}
    (h : OnNew start P ledger) (hP : ∀ b, P b → P' b) : OnNew start P' ledger := by
  intro b hb hnew
  exact hP b (h b hb hnew)

/-- A write to the row of one id, when that is the only new one. -/
theorem OnNew.update {P P' : InstallBatch → Prop} {f : InstallBatch → InstallBatch}
    (h : OnNew start P ledger) (hid : ∀ b, P b → b.batchId = id)
    (hf : ∀ b, (f b).batchId = b.batchId) (hP : ∀ b, P b → P' (f b)) :
    OnNew start P' (updateWhere (fun b => b.batchId = id) f ledger) := by
  intro b hb hnew
  obtain ⟨b₀, hb₀, rfl⟩ := mem_updateWhere.mp hb
  by_cases heq : b₀.batchId = id
  · rw [if_pos (decide_eq_true heq)] at hnew ⊢
    rw [hf] at hnew
    exact hP b₀ (h b₀ hb₀ hnew)
  · rw [if_neg (fun hc => heq (of_decide_eq_true hc))] at hnew ⊢
    exact absurd (hid b₀ (h b₀ hb₀ hnew)) heq

variable {patch : MemberPatch} {m : InstallBatchMember}

theorem patchMember_packageName : (patchMember name patch m).packageName = m.packageName := by
  simp only [patchMember]
  split
  · rfl
  · rfl

theorem patchMember_preState : (patchMember name patch m).preState = m.preState := by
  simp only [patchMember]
  split
  · rfl
  · rfl

theorem map_packageName_patch {ms : List InstallBatchMember} :
    (ms.map (patchMember name patch)).map InstallBatchMember.packageName =
      ms.map InstallBatchMember.packageName := by
  rw [List.map_map]
  apply List.map_congr_left
  intro m _
  exact patchMember_packageName

variable {phase : InstallBatchPhase}

theorem Recorded.withPhase (h : Recorded start org id b) :
    Recorded start org id (withPhase phase now b) :=
  ⟨h.batchId, h.orgId, h.before⟩

theorem Recorded.withMember (h : Recorded start org id b) :
    Recorded start org id (withMember name patch now b) := by
  refine ⟨h.batchId, h.orgId, ?_⟩
  intro m hm
  obtain ⟨m₀, hm₀, rfl⟩ := List.mem_map.mp hm
  rw [patchMember_packageName, patchMember_preState]
  exact h.before m₀ hm₀

section

variable (h : Covered start org id rows b)

include h

theorem Covered.shrink
    (hrows : ∀ n, LiveAt rows' n org → LiveAt rows n org) : Covered start org id rows' b := by
  refine ⟨h.toRecorded, ?_⟩
  intro m hm habs hlive
  exact h.standing m hm habs (hrows _ hlive)

theorem Covered.phaseFailed : Covered start org id rows (withPhase .failed now b) :=
  ⟨h.toRecorded.withPhase, fun _ _ _ _ => .inl rfl⟩

/-- Marking a member as failed, or as not compensated, covers it. -/
theorem Covered.mark (hpatch : (patch.status = .failed ∨ patch.status = .compensationFailed) ∨
      ¬ LiveAt rows name org) : Covered start org id rows (withMember name patch now b) := by
  refine ⟨h.toRecorded.withMember, ?_⟩
  intro m hm habs hlive
  obtain ⟨m₀, hm₀, rfl⟩ := List.mem_map.mp hm
  rw [patchMember_preState] at habs
  rw [patchMember_packageName] at hlive
  by_cases hn : m₀.packageName = name
  · rcases hpatch with (hs | hs) | hs
    · refine .inr (.inr (.inl ?_))
      rw [patchMember, if_pos hn]
      exact hs
    · refine .inr (.inr (.inr (.inl ?_)))
      rw [patchMember, if_pos hn]
      exact hs
    · rw [hn] at hlive
      exact absurd hlive hs
  · rw [patchMember, if_neg hn]
    exact h.standing m₀ hm₀ habs hlive

theorem Covered.settle (hgone : ∀ n, findLiveRow start.rows n org = none → ¬ LiveAt rows n org) :
    Covered start org id rows (withPhase phase now b) := by
  refine ⟨h.toRecorded.withPhase, ?_⟩
  intro m hm habs hlive
  rw [h.before m hm] at habs
  rw [Option.isSome_eq_false_iff, Option.isNone_iff_eq_none] at habs
  exact absurd hlive (hgone _ habs)

end

variable {marked : List String}

theorem Advancing.mark (h : Advancing start org id marked b)
    (hpatch : patch.status = .installing ∨ patch.status = .installed) :
    Advancing start org id (marked ++ [name]) (withMember name patch now b) := by
  refine ⟨h.toRecorded.withMember, h.phase, ?_⟩
  intro m hm hin
  obtain ⟨m₀, hm₀, rfl⟩ := List.mem_map.mp hm
  rw [patchMember_packageName] at hin
  by_cases hn : m₀.packageName = name
  · rw [patchMember, if_pos hn]
    exact hpatch
  · rw [patchMember, if_neg hn]
    rcases List.mem_append.mp hin with hin | hin
    · exact h.marked m₀ hm₀ hin
    · exact absurd (List.mem_singleton.mp hin) hn

theorem Advancing.covered (h : Advancing start org id marked b)
    (hlive : ∀ n, findLiveRow start.rows n org = none → LiveAt rows n org → n ∈ marked) :
    Covered start org id rows b := by
  refine ⟨h.toRecorded, ?_⟩
  intro m hm habs hat
  rw [h.before m hm, Option.isSome_eq_false_iff, Option.isNone_iff_eq_none] at habs
  exact .inr (.inr (.inr (.inr ⟨h.phase, h.marked m hm (hlive _ habs hat)⟩)))

/-! ## The steps -/

/-- What holds before every call. -/
def guard (start : World) (org : Option String) (w : World) (_ : Call) : Prop := Safe start org w

/-- A program whose calls are answered as they may be. -/
abbrev Guarded {α : Type} (planner : Planner) (may : Call → Answer → Prop) (start : World)
    (org : Option String) (p : P α) (Q : Except BatchError α → World → Prop) (w : World) : Prop :=
  Spec ((environment planner).restrict may) (guard start org) p Q w

variable {c : Call} {may : Call → Answer → Prop}

theorem step_spec {Q : Except BatchError (Call.Reply c) → World → Prop}
    (hI : Safe start org w)
    (herr : fallible c = true → ∀ err t, Q (.error err) { w with clock := t })
    (hok : ∀ f t, Q (serve planner f { w with clock := t } c).1
      (serve planner f { w with clock := t } c).2) :
    Guarded planner may start org (perform c) Q w :=
  ⟨hI, fun g => (call_spec (A := guard start org) hI (fun hc err _ => herr hc err _)
    (fun f _ => hok f _)).2 (g c).1⟩

theorem read_spec (hI : Safe start org w)
    (hc : ∀ f t, (serve planner f { w with clock := t } c).2 = { w with clock := t }) :
    Guarded planner may start org (perform c)
      (fun _ w' => ∃ t, w' = { w with clock := t }) w := by
  refine step_spec hI ?_ ?_
  · intro _ _ t
    exact ⟨t, rfl⟩
  · intro f t
    exact ⟨t, hc f t⟩

/-- A write to the batch's row: it fails and leaves the ledger, or is there. -/
def Wrote (w : World) (start : World) (id : Nat) (K : InstallBatch → Prop)
    (r : Except BatchError Unit) (w' : World) : Prop :=
  ∃ t ledger, w' = { w with clock := t, ledger := ledger } ∧
    ((∃ err, r = .error err) ∧ ledger = w.ledger ∨
      r = .ok () ∧ OnNew start K ledger ∧ ∃ b ∈ ledger, b.batchId = id)

variable {t : Instant}

theorem wrote_updateBatch {P K : InstallBatch → Prop} {f : Instant → InstallBatch → InstallBatch}
    (h : OnNew start P w.ledger) (hid : ∀ b, P b → b.batchId = id)
    (hf : ∀ b, (f t b).batchId = b.batchId) (hP : ∀ b, P b → K (f t b)) :
    Wrote w start id K (updateBatch { w with clock := t } id (f t)).1
      (updateBatch { w with clock := t } id (f t)).2 := by
  simp only [updateBatch]
  split
  · rename_i hany
    obtain ⟨b, hb, hbid⟩ := List.any_eq_true.mp hany
    refine ⟨t, _, rfl, .inr ⟨rfl, h.update hid hf hP, f t b, ?_, ?_⟩⟩
    · exact mem_updateWhere.mpr ⟨b, hb, (if_pos hbid).symm⟩
    · rw [hf]
      exact of_decide_eq_true hbid
  · exact ⟨t, _, rfl, .inl ⟨⟨_, rfl⟩, rfl⟩⟩

theorem setPhase_spec {P K : InstallBatch → Prop}
    (hI : Safe start org w) (h : OnNew start P w.ledger) (hid : ∀ b, P b → b.batchId = id)
    (hP : ∀ b t, P b → K (withPhase phase t b)) :
    Guarded planner may start org (perform <| Call.setPhase id phase) (Wrote w start id K) w := by
  refine step_spec hI ?_ ?_
  · intro _ err t
    exact ⟨t, w.ledger, rfl, .inl ⟨⟨err, rfl⟩, rfl⟩⟩
  · intro f t
    exact wrote_updateBatch (f := withPhase phase) h hid (fun _ => rfl) (fun b hb => hP b t hb)

theorem updateMember_spec {P K : InstallBatch → Prop}
    (hI : Safe start org w) (h : OnNew start P w.ledger) (hid : ∀ b, P b → b.batchId = id)
    (hP : ∀ b t, P b → K (withMember name patch t b)) :
    Guarded planner may start org (perform <| Call.updateMember id name patch) (Wrote w start id K) w := by
  refine step_spec hI ?_ ?_
  · intro _ err t
    exact ⟨t, w.ledger, rfl, .inl ⟨⟨err, rfl⟩, rfl⟩⟩
  · intro f t
    exact wrote_updateBatch (f := withMember name patch) h hid (fun _ => rfl)
      (fun b hb => hP b t hb)

theorem swallow_spec {p : P Unit} (h : OnNew start (Covered start org id w.rows) w.ledger)
    (hp : Guarded planner may start org p
      (Wrote w start id (Covered start org id w.rows)) w) :
    Guarded planner may start org (swallow p)
      (fun r w' => r = .ok () ∧ ∃ t ledger, w' = { w with clock := t, ledger := ledger } ∧
        OnNew start (Covered start org id w.rows) ledger) w := by
  refine Spec.swallow (Spec.mono hp ?_)
  rintro r w' ⟨t, ledger, rfl, ⟨-, rfl⟩ | ⟨-, hnew, -⟩⟩
  · exact ⟨rfl, t, w.ledger, rfl, h⟩
  · exact ⟨rfl, t, ledger, rfl, hnew⟩

theorem safe_of_covered (h : OnNew start (Covered start org id w.rows) w.ledger) :
    Safe start org w :=
  h.mono (fun _ hb => ⟨id, hb⟩)

/-! ## Compensation -/

/-- The rows after uninstalling packages. -/
def removeAll (names : List String) (rows : List LiveRow) : List LiveRow :=
  names.foldl (fun rows n => removeRows n rows) rows

variable {names : List String}

theorem liveAt_removeAll :
    LiveAt (removeAll names rows) name org ↔ name ∉ names ∧ LiveAt rows name org := by
  induction names generalizing rows with
  | nil => exact ⟨fun h => ⟨List.not_mem_nil, h⟩, fun h => h.2⟩
  | cons n names ih =>
    show LiveAt (removeAll names (removeRows n rows)) name org ↔ _
    rw [ih, liveAt_remove, List.mem_cons, not_or, and_left_comm, and_assoc]

/-- What undoing a list of packages has done, in the list's order: the ones that
    were there before are left alone, and one that is not undone is named. -/
structure Undone (batch : InstallBatch) (names failures : List String) (w w' : World)
    (undone : List String) : Prop where
  installs : w'.installs = w.installs
  uninstalls : w'.uninstalls = w.uninstalls ++ undone
  order : undone.Sublist names
  absent : ∀ n ∈ undone, presentBefore batch n = false
  rows : w'.rows = removeAll undone w.rows
  named : ∀ n ∈ names, presentBefore batch n = false → n ∈ undone ∨ n ∈ failures

variable {batch : InstallBatch} {w' : World} {failures : List String} {undone : List String}

theorem Undone.skip
    (h : Undone batch names failures w w' undone) (hp : presentBefore batch name = true) :
    Undone batch (name :: names) failures w w' undone := by
  refine ⟨h.installs, h.uninstalls, h.order.cons name, h.absent, h.rows, ?_⟩
  intro n hn habs
  rcases List.mem_cons.mp hn with rfl | hn
  · rw [hp] at habs
    exact absurd habs (by decide)
  · exact h.named n hn habs

/-- A member was uninstalled, or is named, and then the rest. -/
theorem Undone.step {w₁ : World} {gone : Bool} (h : Undone batch names failures w₁ w' undone)
    (hp : presentBefore batch name = false)
    (hrows : w₁.rows = if gone then removeRows name w.rows else w.rows)
    (hin : w₁.installs = w.installs)
    (hun : w₁.uninstalls = if gone then w.uninstalls ++ [name] else w.uninstalls)
    (hnamed : gone = true ∨ name ∈ failures) :
    Undone batch (name :: names) failures w w' (if gone then name :: undone else undone) := by
  cases gone with
  | true =>
    refine ⟨h.installs.trans hin, ?_, h.order.cons_cons name, ?_, ?_, ?_⟩
    · rw [h.uninstalls, hun, if_pos rfl, if_pos rfl, List.append_assoc]
      rfl
    · intro n hn
      rcases List.mem_cons.mp hn with rfl | hn
      · exact hp
      · exact h.absent n hn
    · rw [h.rows, hrows]
      rfl
    · intro n hn habs
      rcases List.mem_cons.mp hn with rfl | hn
      · exact .inl (.head _)
      · exact (h.named n hn habs).imp_left (.tail _)
  | false =>
    refine ⟨h.installs.trans hin, ?_, h.order.cons name, h.absent, ?_, ?_⟩
    · rw [h.uninstalls, hun]
      rfl
    · rw [h.rows, hrows]
      rfl
    · intro n hn habs
      rcases List.mem_cons.mp hn with rfl | hn
      · exact .inr (hnamed.resolve_left (by decide))
      · exact h.named n hn habs

variable {m : PlannedMember}

/-- The uninstall of a package may be answered with a fault. -/
def MayRefuse (may : Call → Answer → Prop) (name : String) : Prop :=
  ∃ version typeId f, may (.uninstallMember name version typeId) f ∧ f.fault.isSome = true

theorem uninstall_spec {version typeId : String} {Q : Except BatchError Unit → World → Prop}
    (hI : Safe start org w)
    (herr : MayRefuse may name → ∀ err t, Q (.error err) { w with clock := t })
    (hok : ∀ t, Q (.ok ()) { w with
      clock := t, rows := removeRows name w.rows, uninstalls := w.uninstalls ++ [name] }) :
    Guarded planner may start org (perform <| Call.uninstallMember name version typeId) Q w := by
  refine ⟨hI, fun g => ?_⟩
  have hmay := (g (.uninstallMember name version typeId)).2
  show Q (answer planner fallible (g _).1 (.uninstallMember name version typeId) w).1
    (answer planner fallible (g _).1 (.uninstallMember name version typeId) w).2
  simp only [answer]
  cases hf : (g (.uninstallMember name version typeId)).1.fault with
  | none => exact hok _
  | some err => exact herr ⟨version, typeId, _, hmay, by rw [hf]; rfl⟩ err _

/-- Undoing one member: whether it is gone, and that a failure is an error. -/
theorem undoMember_spec (h : OnNew start (Covered start org batch.batchId w.rows) w.ledger) :
    Guarded planner may start org
      (do
        perform <| Call.uninstallMember m.packageName m.version m.typeId
        perform <| Call.updateMember batch.batchId m.packageName { status := .compensated })
      (fun r w' => ∃ t ledger, ∃ gone : Bool, w' = { w with
          clock := t, ledger := ledger
          rows := if gone then removeRows m.packageName w.rows else w.rows
          uninstalls := if gone then w.uninstalls ++ [m.packageName] else w.uninstalls } ∧
        OnNew start (Covered start org batch.batchId w'.rows) ledger ∧
        (r = .ok () → gone = true) ∧ (gone = true ∨ MayRefuse may m.packageName)) w := by
  refine Spec.bind (uninstall_spec (safe_of_covered h) ?_ ?_)
  · intro hmay err t
    exact ⟨t, w.ledger, false, rfl, h, (fun hc => nomatch hc), .inr hmay⟩
  · intro t
    have hgone : OnNew start (Covered start org batch.batchId (removeRows m.packageName w.rows))
        w.ledger := h.mono (fun b hb => hb.shrink (fun n hn => (liveAt_remove.mp hn).2))
    refine Spec.mono (updateMember_spec (safe_of_covered hgone) hgone
      (fun b hb => hb.batchId) (fun b t hb => hb.mark (.inr ?_))) ?_
    · intro hlive
      exact (liveAt_remove.mp hlive).1 rfl
    · rintro r w' ⟨t', ledger, rfl, ⟨⟨err, rfl⟩, rfl⟩ | ⟨rfl, hnew, -⟩⟩
      · exact ⟨t', w.ledger, true, rfl, hgone, fun _ => rfl, .inl rfl⟩
      · exact ⟨t', ledger, true, rfl, hnew, fun _ => rfl, .inl rfl⟩

theorem compensateMembers_spec (ms : List PlannedMember) :
    ∀ (w : World) (compensated failures : List String),
      OnNew start (Covered start org batch.batchId w.rows) w.ledger →
      Guarded planner may start org (compensateMembers batch ms compensated failures)
        (fun r w' => ∃ compensated' failures' undone, r = .ok (compensated', failures') ∧
          failures ⊆ failures' ∧
          (∀ n ∈ failures', n ∈ failures ∨ n ∈ undone ∨ MayRefuse may n) ∧
          Undone batch (ms.map PlannedMember.packageName) failures' w w' undone ∧
          OnNew start (Covered start org batch.batchId w'.rows) w'.ledger) w := by
  induction ms with
  | nil =>
    intro w compensated failures h
    refine ⟨compensated, failures, [], rfl, fun _ hn => hn, fun _ hn => .inl hn, ?_, h⟩
    exact ⟨rfl, (List.append_nil _).symm, List.Sublist.slnil, fun _ hn => absurd hn List.not_mem_nil,
      rfl, fun _ hn => absurd hn List.not_mem_nil⟩
  | cons m rest ih =>
    intro w compensated failures h
    by_cases hp : presentBefore batch m.packageName = true
    · rw [compensateMembers, if_pos hp]
      refine Spec.mono (ih w compensated failures h) ?_
      rintro r w' ⟨compensated', failures', undone, hr, hsub, hmay, hun, hnew⟩
      exact ⟨compensated', failures', undone, hr, hsub, hmay, hun.skip hp, hnew⟩
    · rw [compensateMembers, if_neg hp]
      rw [Bool.not_eq_true] at hp
      refine Spec.bind (Spec.attempt (Spec.mono (undoMember_spec h) ?_))
      rintro r w₁ ⟨t, ledger, gone, rfl, hnew, hok, hgone⟩
      have hlonger : ∀ {undone : List String} {n : String}, n ∈ undone →
          n ∈ if gone then m.packageName :: undone else undone := by
        intro undone n hn
        split
        · exact .tail _ hn
        · exact hn
      cases r with
      | ok u =>
        refine Spec.mono (ih _ _ _ hnew) ?_
        rintro r w' ⟨compensated', failures', undone, hr, hsub, hmay, hun, hnew'⟩
        have hstep := hun.step (w := w) hp rfl rfl rfl (.inl (hok rfl))
        refine ⟨compensated', failures', _, hr, hsub, fun n hn => ?_, hstep, hnew'⟩
        exact (hmay n hn).imp_right (Or.imp_left hlonger)
      | error err =>
        refine Spec.bind (Spec.mono (swallow_spec hnew (updateMember_spec
          (safe_of_covered hnew) hnew (fun b hb => hb.batchId)
          (fun b t hb => hb.mark (.inl (.inr rfl))))) ?_)
        rintro r w₂ ⟨rfl, t', ledger', rfl, hnew'⟩
        refine Spec.mono (ih _ _ _ hnew') ?_
        rintro r w' ⟨compensated', failures', undone, hr, hsub, hmay, hun, hnew''⟩
        have hname : m.packageName ∈ failures' :=
          hsub (List.mem_concat_self)
        have hstep := hun.step (w := w) hp rfl rfl rfl (.inr hname)
        refine ⟨compensated', failures', _, hr, fun n hn => hsub (List.mem_append_left _ hn),
          fun n hn => ?_, hstep, hnew''⟩
        rcases hmay n hn with hin | hin
        · rcases mem_concat.mp hin with hin | rfl
          · exact .inl hin
          · exact .inr (hgone.imp_left fun htrue => by rw [if_pos htrue]; exact .head _)
        · exact .inr (hin.imp_left hlonger)

/-! ## Abort -/

/-- The rows after installing members for an organisation. -/
def installAll (org : Option String) (ms : List PlannedMember) (rows : List LiveRow) :
    List LiveRow := ms.foldl (upsertRow org) rows

theorem liveAt_installAll {ms : List PlannedMember} {orgId : Option String} :
    LiveAt (installAll org ms rows) name orgId ↔
      (name ∈ ms.map PlannedMember.packageName ∧ orgId = org) ∨ LiveAt rows name orgId := by
  induction ms generalizing rows with
  | nil =>
    rw [List.map_nil]
    exact ⟨.inr, fun h => h.resolve_left (fun hc => List.not_mem_nil hc.1)⟩
  | cons m ms ih =>
    show LiveAt (installAll org ms (upsertRow org rows m)) name orgId ↔ _
    rw [ih, liveAt_upsert, List.map_cons, List.mem_cons, or_and_right, ← or_assoc,
      or_comm (a := _ ∧ _) (b := _ ∧ _)]

/-- What an abort throws. -/
def abortError (failedMember : String) (cause : BatchError) (compensated failures : List String) :
    BatchError :=
  if cause.requiresRebuild then cause else .memberInstall failedMember compensated failures cause

/-- The pre-states of a batch are those of the rows it was planned on. -/
structure Captured (start : World) (org : Option String) (ordered : List PlannedMember)
    (batch : InstallBatch) : Prop where
  drawn : start.nextUuid ≤ batch.batchId
  names : batch.members.map InstallBatchMember.packageName = ordered.map PlannedMember.packageName
  before : ∀ m ∈ batch.members,
    m.preState.present = (findLiveRow start.rows m.packageName org).isSome

variable {ordered : List PlannedMember}

theorem Captured.presentBefore
    (h : Captured start org ordered batch) (hn : name ∈ ordered.map PlannedMember.packageName) :
    presentBefore batch name = (findLiveRow start.rows name org).isSome := by
  rw [← h.names] at hn
  obtain ⟨m, hm, rfl⟩ := List.mem_map.mp hn
  simp only [ExtInstallBatch.presentBefore]
  split
  · rename_i m' hfind
    have hname : m'.packageName = m.packageName := by simpa using List.find?_some hfind
    rw [h.before m' (List.mem_of_find?_eq_some hfind), hname]
  · rename_i hnone
    exact absurd (decide_eq_true rfl) (List.find?_eq_none.mp hnone m hm)

/-- The members installed so far: a first part of those to be installed. -/
structure Progress (start : World) (org : Option String) (ordered installed : List PlannedMember)
    (w : World) : Prop where
  plan : installed <+: toInstallOf ordered
  rows : w.rows = installAll org installed start.rows
  installs : w.installs = start.installs ++ installed.map PlannedMember.packageName
  uninstalls : w.uninstalls = start.uninstalls

/-- What a throwing batch leaves: the installs it has made, and what undoing them
    newest first has done. -/
structure RolledBack (refused : String → Prop) (start : World) (org : Option String)
    (ordered installed : List PlannedMember) (undone failures : List String) (w : World) :
    Prop where
  plan : installed <+: toInstallOf ordered
  installs : w.installs = start.installs ++ installed.map PlannedMember.packageName
  uninstalls : w.uninstalls = start.uninstalls ++ undone
  order : undone.Sublist (installed.map PlannedMember.packageName).reverse
  absent : ∀ n ∈ undone, findLiveRow start.rows n org = none
  rows : w.rows = removeAll undone (installAll org installed start.rows)
  named : ∀ n ∈ installed.map PlannedMember.packageName, findLiveRow start.rows n org = none →
    n ∈ undone ∨ n ∈ failures
  refused : ∀ n ∈ failures, n ∈ undone ∨ refused n

variable {ordered : List PlannedMember} {refused : String → Prop}

theorem RolledBack.gone {installed : List PlannedMember}
    (h : RolledBack refused start org ordered installed undone failures w)
    (hn : findLiveRow start.rows name org = none) (hf : name ∉ failures) :
    ¬ LiveAt w.rows name org := by
  intro hlive
  rw [h.rows, liveAt_removeAll, liveAt_installAll] at hlive
  rcases hlive with ⟨hkept, ⟨hin, -⟩ | hstart⟩
  · exact (h.named name hin hn).elim hkept hf
  · have hsome := findLiveRow_isSome.mpr (.inl hstart)
    rw [hn] at hsome
    exact absurd hsome (by decide)

theorem Undone.rolledBack {installed : List PlannedMember}
    (h : Undone batch (installed.reverse.map PlannedMember.packageName) failures w w' undone)
    (hcap : Captured start org ordered batch) (hp : Progress start org ordered installed w)
    (hrefused : ∀ n ∈ failures, n ∈ undone ∨ refused n) :
    RolledBack refused start org ordered installed undone failures w' := by
  have hbefore : ∀ n ∈ installed.map PlannedMember.packageName,
      presentBefore batch n = (findLiveRow start.rows n org).isSome := by
    intro n hn
    obtain ⟨m, hm, rfl⟩ := List.mem_map.mp hn
    exact hcap.presentBefore (List.mem_map_of_mem (List.mem_of_mem_filter (hp.plan.subset hm)))
  have hrev : installed.reverse.map PlannedMember.packageName =
      (installed.map PlannedMember.packageName).reverse := List.map_reverse
  rw [hrev] at h
  refine ⟨hp.plan, h.installs.trans hp.installs, by rw [h.uninstalls, hp.uninstalls], h.order,
    ?_, ?_, ?_, hrefused⟩
  · intro n hn
    have habs := h.absent n hn
    rw [hbefore n (List.mem_reverse.mp (h.order.subset hn))] at habs
    rw [Option.isSome_eq_false_iff, Option.isNone_iff_eq_none] at habs
    exact habs
  · rw [h.rows, hp.rows]
  · intro n hn habs
    refine h.named n (List.mem_reverse.mpr hn) ?_
    rw [hbefore n hn, habs]
    rfl

variable {failedMember : String} {α : Type} {cause : BatchError}

/-- `abortAndCompensate` throws, whatever fails on the way, and has undone the
    members it was given. -/
theorem abort_spec {installed : List PlannedMember} (hcap : Captured start org ordered batch)
    (hp : Progress start org ordered installed w)
    (hcov : OnNew start (Covered start org batch.batchId w.rows) w.ledger) :
    Guarded planner may start org (abortAndCompensate (α := α) batch installed failedMember cause)
      (fun r w' => ∃ compensated failures undone,
        r = .error (abortError failedMember cause compensated failures) ∧
        RolledBack (MayRefuse may) start org ordered installed undone failures w' ∧
        OnNew start (Covered start org batch.batchId w'.rows) w'.ledger) w := by
  rw [abortAndCompensate]
  refine Spec.bind (Spec.mono (swallow_spec hcov (updateMember_spec (safe_of_covered hcov) hcov
    (fun b hb => hb.batchId) (fun b t hb => hb.mark (.inl (.inl rfl))))) ?_)
  rintro _ w₁ ⟨rfl, t₁, ledger₁, rfl, hcov₁⟩
  refine Spec.bind (Spec.mono (swallow_spec hcov₁ (setPhase_spec (safe_of_covered hcov₁) hcov₁
    (fun b hb => hb.batchId) (fun b t hb => hb.phaseFailed))) ?_)
  rintro _ w₂ ⟨rfl, t₂, ledger₂, rfl, hcov₂⟩
  refine Spec.bind (Spec.mono (compensateMembers_spec installed.reverse _ [] [] hcov₂) ?_)
  rintro _ w₃ ⟨compensated, failures, undone, rfl, -, hmay, hundone, hcov₃⟩
  have hback : RolledBack (MayRefuse may) start org ordered installed undone failures w₃ :=
    hundone.rolledBack hcap ⟨hp.plan, hp.rows, hp.installs, hp.uninstalls⟩
      (fun n hn => (hmay n hn).resolve_left List.not_mem_nil)
  have hsettle : ∀ b t, Covered start org batch.batchId w₃.rows b →
      Covered start org batch.batchId w₃.rows
        (withPhase (if failures = [] then .compensated else .failed) t b) := by
    intro b t hb
    by_cases hf : failures = []
    · rw [if_pos hf]
      refine hb.settle (fun n hn => hback.gone hn ?_)
      rw [hf]
      exact List.not_mem_nil
    · rw [if_neg hf]
      exact hb.phaseFailed
  refine Spec.bind (Spec.mono (swallow_spec hcov₃ (setPhase_spec (safe_of_covered hcov₃) hcov₃
    (fun b hb => hb.batchId) hsettle)) ?_)
  rintro _ w₄ ⟨rfl, t₄, ledger₄, rfl, hcov₄⟩
  have hback' : RolledBack (MayRefuse may) start org ordered installed undone failures
      { w₃ with clock := t₄, ledger := ledger₄ } :=
    ⟨hback.plan, hback.installs, hback.uninstalls, hback.order, hback.absent, hback.rows,
      hback.named, hback.refused⟩
  show Spec _ _ (if cause.requiresRebuild then throwErr cause else throwErr _) _ _
  by_cases hr : cause.requiresRebuild = true
  · rw [if_pos hr]
    exact ⟨compensated, failures, undone, by rw [abortError, if_pos hr], hback', hcov₄⟩
  · rw [if_neg hr]
    exact ⟨compensated, failures, undone, by rw [abortError, if_neg hr], hback', hcov₄⟩

/-! ## The way forward -/

theorem Progress.installed {installed : List PlannedMember}
    (h : Progress start org ordered installed w) (hn : findLiveRow start.rows name org = none)
    (hlive : LiveAt w.rows name org) : name ∈ installed.map PlannedMember.packageName := by
  rw [h.rows, liveAt_installAll] at hlive
  rcases hlive with ⟨hin, -⟩ | hstart
  · exact hin
  · have hsome := findLiveRow_isSome.mpr (.inl hstart)
    rw [hn] at hsome
    exact absurd hsome (by decide)

theorem Progress.still {installed : List PlannedMember}
    (h : Progress start org ordered installed w) :
    Progress start org ordered installed { w with clock := t, ledger := ledger } :=
  ⟨h.plan, h.rows, h.installs, h.uninstalls⟩

theorem Progress.install {installed : List PlannedMember}
    (h : Progress start org ordered installed w) (hm : installed ++ [m] <+: toInstallOf ordered) :
    Progress start org ordered (installed ++ [m])
      { w with clock := t, rows := upsertRow org w.rows m
               installs := w.installs ++ [m.packageName] } := by
  refine ⟨hm, ?_, ?_, h.uninstalls⟩
  · rw [h.rows, installAll, installAll, List.foldl_append]
    rfl
  · rw [h.installs, List.map_append, List.append_assoc]
    rfl

theorem Progress.covered {installed : List PlannedMember}
    (h : Progress start org ordered installed w)
    (hsub : installed.map PlannedMember.packageName ⊆ marked)
    (hadv : OnNew start (Advancing start org id marked) w.ledger) :
    OnNew start (Covered start org id w.rows) w.ledger :=
  hadv.mono (fun _ hb => hb.covered (fun _ hn hlive => hsub (h.installed hn hlive)))

variable {input : InstallInput} {resolution : Option GrantResolution} {rootVersion : String}

/-- The grant is refreshed, or not, and nothing else happens. -/
theorem refreshIfNear_spec (hI : Safe start org w) :
    Guarded planner may start org (refreshIfNear input rootVersion resolution)
      (fun _ w' => ∃ t, w' = { w with clock := t }) w := by
  cases resolution with
  | none => exact ⟨w.clock, rfl⟩
  | some resolution =>
    simp only [refreshIfNear]
    split
    · exact ⟨w.clock, rfl⟩
    refine Spec.bind (step_spec hI (fun _ _ t => ⟨t, rfl⟩) ?_)
    intro f t
    show Spec _ _ (ite _ _ _) _ _
    split
    · refine Spec.bind (step_spec hI (fun _ _ t => ⟨t, rfl⟩) ?_)
      intro f t
      show Spec _ _ (ite _ _ _) _ _
      split
      · exact ⟨t, rfl⟩
      · exact ⟨t, rfl⟩
    · exact ⟨t, rfl⟩

/-- One member: it is installed, or the rows are as they were. -/
theorem installMember_spec {installed : List PlannedMember}
    (hp : Progress start input.orgId ordered installed w)
    (hadv : OnNew start (Advancing start input.orgId batch.batchId
      (installed.map PlannedMember.packageName)) w.ledger)
    (hm : installed ++ [m] <+: toInstallOf ordered) :
    Guarded planner may start input.orgId
      (installMember input rootVersion batch m resolution)
      (Post (fun _ w' => Progress start input.orgId ordered (installed ++ [m]) w' ∧
          OnNew start (Advancing start input.orgId batch.batchId
            ((installed ++ [m]).map PlannedMember.packageName)) w'.ledger)
        (fun _ w' => Progress start input.orgId ordered installed w' ∧
          OnNew start (Covered start input.orgId batch.batchId w'.rows) w'.ledger)) w := by
  have hcov := hp.covered (fun _ hn => hn) hadv
  refine Spec.bind (Spec.mono (refreshIfNear_spec (safe_of_covered hcov)) ?_)
  rintro r w₁ ⟨t₁, rfl⟩
  cases r with
  | error err => exact ⟨hp.still, hcov⟩
  | ok resolution =>
    refine Spec.bind (Spec.mono (updateMember_spec (K := Advancing start input.orgId batch.batchId
        ((installed ++ [m]).map PlannedMember.packageName))
      (safe_of_covered hcov) hadv (fun b hb => hb.batchId) (fun b t hb => ?_)) ?_)
    · rw [List.map_append]
      exact hb.mark (.inl rfl)
    · rintro r w₂ ⟨t₂, ledger, rfl, ⟨⟨err, rfl⟩, rfl⟩ | ⟨rfl, hadv', -⟩⟩
      · exact ⟨hp.still, hcov⟩
      · have hp₂ : Progress start input.orgId ordered installed
            { w with clock := t₂, ledger := ledger } := hp.still
        have hcov₂ := hp₂.covered (fun _ hn => by
          rw [List.map_append]
          exact List.mem_append_left _ hn) hadv'
        refine Spec.bind (step_spec (safe_of_covered hcov₂) ?_ ?_)
        · intro _ err t
          exact ⟨hp.still, hcov₂⟩
        · intro f t
          exact ⟨hp₂.install hm, hadv'⟩

theorem Advancing.weaken {marked marked' : List String} (h : Advancing start org id marked b)
    (hsub : marked' ⊆ marked) : Advancing start org id marked' b :=
  ⟨h.toRecorded, h.phase, fun m hm hin => h.marked m hm (hsub hin)⟩

theorem recordInstalled_spec {installed : List PlannedMember}
    (hp : Progress start input.orgId ordered installed w)
    (hadv : OnNew start (Advancing start input.orgId batch.batchId
      (installed.map PlannedMember.packageName)) w.ledger) :
    Guarded planner may start input.orgId (recordInstalled input batch m)
      (fun _ w' => Progress start input.orgId ordered installed w' ∧
        OnNew start (Advancing start input.orgId batch.batchId
          (installed.map PlannedMember.packageName)) w'.ledger) w := by
  have hcov := hp.covered (fun _ hn => hn) hadv
  refine Spec.bind (Spec.attempt (Spec.mono (read_spec (safe_of_covered hcov) (fun _ _ => rfl)) ?_))
  rintro op w₁ ⟨t₁, rfl⟩
  refine Spec.mono (updateMember_spec
    (K := Advancing start input.orgId batch.batchId (installed.map PlannedMember.packageName))
    (safe_of_covered hcov) hadv (fun b hb => hb.batchId) (fun b t hb => ?_)) ?_
  · exact (hb.mark (.inr rfl)).weaken (List.subset_append_left _ _)
  · rintro r w₂ ⟨t₂, ledger, rfl, ⟨-, rfl⟩ | ⟨-, hadv', -⟩⟩
    · exact ⟨hp.still, hadv⟩
    · exact ⟨hp.still, hadv'⟩

/-- What a batch install leaves when it throws. -/
def Thrown (refused : String → Prop) (start : World) (org : Option String) (id : Nat)
    (ordered : List PlannedMember) (err : BatchError) (w : World) : Prop :=
  (∃ failedMember cause compensated failures installed undone,
      err = abortError failedMember cause compensated failures ∧
      RolledBack refused start org ordered installed undone failures w) ∧
    OnNew start (Covered start org id w.rows) w.ledger

theorem thrown_of_abort {installed : List PlannedMember} {Q : α → World → Prop}
    (hcap : Captured start org ordered batch) (hp : Progress start org ordered installed w)
    (hcov : OnNew start (Covered start org batch.batchId w.rows) w.ledger) :
    Guarded planner may start org (abortAndCompensate (α := α) batch installed failedMember cause)
      (Post Q (Thrown (MayRefuse may) start org batch.batchId ordered)) w := by
  refine Spec.mono (abort_spec hcap hp hcov) ?_
  rintro _ w' ⟨compensated, failures, undone, rfl, hback, hcov'⟩
  exact ⟨⟨failedMember, cause, compensated, failures, installed, undone, rfl, hback⟩, hcov'⟩

theorem installMembers_spec (hcap : Captured start input.orgId ordered batch)
    (rest : List PlannedMember) :
    ∀ (w : World) (resolution : Option GrantResolution) (installed : List PlannedMember),
      installed ++ rest = toInstallOf ordered → Progress start input.orgId ordered installed w →
      OnNew start (Advancing start input.orgId batch.batchId
        (installed.map PlannedMember.packageName)) w.ledger →
      Guarded planner may start input.orgId
        (installMembers input rootVersion batch rest resolution installed)
        (Post (fun all w' => all = toInstallOf ordered ∧ Progress start input.orgId ordered all w' ∧
            OnNew start (Advancing start input.orgId batch.batchId
              (all.map PlannedMember.packageName)) w'.ledger)
          (Thrown (MayRefuse may) start input.orgId batch.batchId ordered)) w := by
  induction rest with
  | nil =>
    intro w resolution installed hall hp hadv
    rw [List.append_nil] at hall
    exact ⟨hall, hp, hadv⟩
  | cons m rest ih =>
    intro w resolution installed hall hp hadv
    have hm : installed ++ [m] <+: toInstallOf ordered :=
      ⟨rest, by rw [← hall, List.append_assoc]; rfl⟩
    rw [installMembers]
    refine Spec.bind (Spec.attempt (Spec.mono (installMember_spec hp hadv hm) ?_))
    intro r w₁ hr
    cases r with
    | error err => exact thrown_of_abort hcap hr.1 hr.2
    | ok resolution =>
      refine Spec.bind (Spec.attempt (Spec.mono (recordInstalled_spec hr.1 hr.2) ?_))
      rintro r w₂ ⟨hp₂, hadv₂⟩
      cases r with
      | error err => exact thrown_of_abort hcap hp₂ (hp₂.covered (fun _ hn => hn) hadv₂)
      | ok u =>
        refine ih w₂ resolution (installed ++ [m]) ?_ hp₂ hadv₂
        rw [List.append_assoc]
        exact hall

/-! ## Planning -/

/-- Nothing has been installed or uninstalled. -/
structure Untouched (start w : World) : Prop where
  rows : w.rows = start.rows
  installs : w.installs = start.installs
  uninstalls : w.uninstalls = start.uninstalls

theorem captureMembers_spec (ms : List PlannedMember) : ∀ w : World, Safe start org w →
      Guarded planner may start org (captureMembers org ms)
        (fun r w' => (∃ t, w' = { w with clock := t }) ∧ ∀ members, r = .ok members →
          members.map InstallBatchMember.packageName = ms.map PlannedMember.packageName ∧
          ∀ m ∈ members, m.preState.present = (findLiveRow w.rows m.packageName org).isSome) w := by
  induction ms with
  | nil =>
    intro w hI
    refine ⟨⟨w.clock, rfl⟩, ?_⟩
    rintro members hok
    rw [← Except.ok.inj hok]
    exact ⟨rfl, fun _ hm => by cases hm⟩
  | cons m rest ih =>
    intro w hI
    refine Spec.bind (Spec.bind (step_spec hI ?_ ?_))
    · intro _ err t
      exact ⟨⟨t, rfl⟩, fun _ hok => nomatch hok⟩
    · intro f t
      refine Spec.bind (step_spec hI ?_ ?_)
      · intro _ err t
        exact ⟨⟨t, rfl⟩, fun _ hok => nomatch hok⟩
      · intro f' t'
        refine Spec.bind (Spec.mono (ih _ hI) ?_)
        rintro r w' ⟨⟨t'', rfl⟩, hr⟩
        cases r with
        | error err => exact ⟨⟨t'', rfl⟩, fun _ hok => nomatch hok⟩
        | ok members =>
          obtain ⟨hnames, hbefore⟩ := hr members rfl
          refine ⟨⟨t'', rfl⟩, ?_⟩
          intro all hok
          rw [← Except.ok.inj hok]
          refine ⟨?_, ?_⟩
          · rw [List.map_cons, List.map_cons, hnames]
          · intro x hx
            rcases List.mem_cons.mp hx with rfl | hx
            · exact liveRowVersion_present (findLiveRow w.rows m.packageName org)
            · exact hbefore x hx

theorem safe_of_fresh (hfresh : Fresh start) : Safe start org { start with clock := t } := by
  intro b hb hnew
  exact absurd (hfresh b hb) (Nat.not_lt.mpr hnew)

variable {members : List InstallBatchMember}

theorem begin_advancing (rootPackage : String) (hfresh : Fresh start) (hbefore : ∀ m ∈ members,
      m.preState.present = (findLiveRow start.rows m.packageName org).isSome) :
    OnNew start (Advancing start org start.nextUuid [])
      (start.ledger ++ [newBatch w start.nextUuid rootPackage org members]) := by
  intro x hx hnew
  rcases mem_concat.mp hx with hx | rfl
  · exact absurd (hfresh x hx) (Nat.not_lt.mpr hnew)
  · exact ⟨⟨rfl, rfl, hbefore⟩, rfl, fun _ _ hin => absurd hin List.not_mem_nil⟩

theorem Advancing.withPhase (h : Advancing start org id marked b) (hphase : phase.active = true) :
    Advancing start org id marked (withPhase phase now b) :=
  ⟨h.toRecorded.withPhase, hphase, h.marked⟩

/-- What the planning section hands on. -/
structure Ready (planner : Planner) (start : World) (input : InstallInput)
    (resolution : Option GrantResolution) (planned : Planned) (w : World) : Prop where
  plan : planner.plan start.rows ⟨input.packageName, rootVersionOf input resolution, input.orgId,
    resolution.map GrantResolution.closure⟩ = .ok planned.ordered
  fast : planned.batch = none → rootOnly input planned.ordered = true ∧
    ∃ t, w = { start with clock := t }
  batch : ∀ batch, planned.batch = some batch → Captured start input.orgId planned.ordered batch ∧
    Progress start input.orgId planned.ordered [] w ∧
    OnNew start (Advancing start input.orgId batch.batchId []) w.ledger

theorem plan_spec {input : PlanInput} {Q : Except BatchError (List PlannedMember) → World → Prop}
    (hI : Safe start org w) (herr : ∀ err t, Q (.error err) { w with clock := t })
    (hok : ∀ ordered t, planner.plan w.rows input = .ok ordered → Q (.ok ordered) { w with clock := t }) :
    Guarded planner may start org (perform <| Call.plan input) Q w := by
  refine step_spec hI (fun _ => herr) ?_
  intro f t
  show Q (planner.plan w.rows input) { w with clock := t }
  cases hplan : planner.plan w.rows input with
  | error err => exact herr err t
  | ok ordered => exact hok ordered t hplan

theorem begin_spec {rootPackage : String}
    {Q : Except BatchError InstallBatch → World → Prop} (hI : Safe start org w)
    (herr : ∀ err t, Q (.error err) { w with clock := t })
    (hok : ∀ t, Q (.ok (newBatch { w with clock := t } id rootPackage org members))
      { w with clock := t, ledger := w.ledger ++
          [newBatch { w with clock := t } id rootPackage org members] }) :
    Guarded planner may start org (perform <| Call.begin id rootPackage org members) Q w := by
  refine step_spec hI (fun _ => herr) ?_
  intro f t
  simp only [serve]
  split
  · exact herr _ t
  · exact hok t

theorem planBatch_spec (hfresh : Fresh start) :
    Guarded planner may start input.orgId (planBatch input resolution)
      (Post (Ready planner start input resolution)
        (fun _ w' => Untouched start w' ∧ Safe start input.orgId w')) { start with clock := t } := by
  have hI : ∀ t, Safe start input.orgId { start with clock := t } := fun t => safe_of_fresh hfresh
  have hquiet : ∀ t, Untouched start { start with clock := t } := fun t => ⟨rfl, rfl, rfl⟩
  refine Spec.bind (plan_spec (hI t) (fun _ t => ⟨hquiet t, hI t⟩) ?_)
  intro ordered t₁ hplan
  refine Spec.bind (step_spec (hI t₁) (fun _ _ t => ⟨hquiet t, hI t⟩) ?_)
  intro f₂ t₂
  simp only [serve]
  split
  · exact ⟨hquiet t₂, hI t₂⟩
  by_cases hroot : rootOnly input ordered = true
  · rw [if_pos hroot]
    exact ⟨hplan, fun _ => ⟨hroot, t₂, rfl⟩, fun _ hb => nomatch hb⟩
  rw [if_neg hroot]
  refine Spec.bind (Spec.mono (captureMembers_spec ordered _ (hI t₂)) ?_)
  rintro r w₃ ⟨⟨t₃, rfl⟩, hr⟩
  cases r with
  | error err => exact ⟨hquiet t₃, hI t₃⟩
  | ok members =>
    obtain ⟨hnames, hbefore⟩ := hr members rfl
    refine Spec.bind (step_spec (hI t₃) (fun hc => nomatch hc) ?_)
    intro f₄ t₄
    have hI₄ : Safe start input.orgId
        { start with clock := t₄, nextUuid := start.nextUuid + 1 } := hI t₄
    refine Spec.bind (begin_spec hI₄ (fun _ t => ⟨⟨rfl, rfl, rfl⟩, hI t⟩) ?_)
    intro t₅
    have hadv := begin_advancing (w := { start with clock := t₅ })
      input.packageName hfresh hbefore
    have hp : ∀ t ledger, Progress start input.orgId ordered []
        { start with clock := t, ledger := ledger, nextUuid := start.nextUuid + 1 } :=
      fun _ _ => ⟨List.nil_prefix, rfl, (List.append_nil _).symm, rfl⟩
    have hcov := (hp t₅ _).covered (fun _ hn => hn) hadv
    refine Spec.bind (Spec.mono (setPhase_spec (safe_of_covered hcov) hadv
      (fun b hb => hb.batchId) (fun b t hb => hb.withPhase rfl)) ?_)
    rintro r w₆ ⟨t₆, ledger, rfl, ⟨⟨err, rfl⟩, rfl⟩ | ⟨rfl, hadv₆, -⟩⟩
    · exact ⟨⟨rfl, rfl, rfl⟩, safe_of_covered hcov⟩
    · refine ⟨hplan, (fun hc => nomatch hc), ?_⟩
      intro batch hbatch
      rw [← Option.some.inj hbatch]
      exact ⟨⟨Nat.le_refl _, hnames, hbefore⟩, hp t₆ ledger, hadv₆⟩

/-! ## The whole install -/

/-- What a successful install leaves. -/
structure Delivered (start : World) (input : InstallInput) (ordered : List PlannedMember)
    (result : BatchInstallResult) (w : World) : Prop where
  rows : w.rows = installAll input.orgId (toInstallOf ordered) start.rows
  installs : w.installs = start.installs ++ (toInstallOf ordered).map PlannedMember.packageName
  uninstalls : w.uninstalls = start.uninstalls
  ledger : match result.batchId with
    | some id => ∃ b ∈ w.ledger, b.batchId = id ∧ b.phase = .finalized
    | none => rootOnly input ordered = true

/-- A list was planned for the root and the organisation, on the rows. -/
def PlannedFor (planner : Planner) (start : World) (input : InstallInput)
    (ordered : List PlannedMember) : Prop :=
  ∃ version closure,
    planner.plan start.rows ⟨input.packageName, version, input.orgId, closure⟩ = .ok ordered

def Ends (planner : Planner) (refused : String → Prop) (start : World) (input : InstallInput) :
    Except BatchError BatchInstallResult → World → Prop :=
  Post
    (fun result w => (∃ ordered, PlannedFor planner start input ordered ∧
      Delivered start input ordered result w) ∧ Safe start input.orgId w)
    (fun err w => (Untouched start w ∨ ∃ ordered, PlannedFor planner start input ordered ∧
      ∃ id, Thrown refused start input.orgId id ordered err w) ∧ Safe start input.orgId w)

theorem withLifecycleLock_spec {p : P α} {Q : Except BatchError α → World → Prop}
    (hI : Safe start org w)
    (hp : ∀ t, Guarded planner may start org p
      (fun r w' => Safe start org w' ∧ ∀ t, Q r { w' with clock := t }) { w with clock := t }) :
    Guarded planner may start org (withLifecycleLock p) Q w := by
  refine Spec.bind (step_spec hI (fun hc => nomatch hc) ?_)
  intro f t
  refine Spec.bind (Spec.attempt (Spec.mono (hp t) ?_))
  rintro r w' ⟨hI', hQ⟩
  refine Spec.bind (step_spec hI' (fun hc => nomatch hc) ?_)
  intro f' t'
  exact hQ t'

theorem maybeReload_spec {installed : List PlannedMember} (hI : Safe start org w) :
    Guarded planner may start org (maybeReloadAgentRuntime installed)
      (fun r w' => r = .ok () ∧ ∃ t, w' = { w with clock := t }) w := by
  rw [maybeReloadAgentRuntime]
  split
  · refine Spec.swallow (Spec.mono (read_spec hI (fun _ _ => rfl)) ?_)
    rintro r w' ⟨t, rfl⟩
    exact ⟨rfl, t, rfl⟩
  · exact ⟨rfl, w.clock, rfl⟩

theorem toInstall_of_rootOnly (h : rootOnly input ordered = true) :
    ∃ root, toInstallOf ordered = [root] ∧ root.packageName = input.packageName := by
  have hmap := of_decide_eq_true h
  obtain ⟨root, rest, heq, hname, hrest⟩ := List.map_eq_cons_iff.mp hmap
  rw [List.map_eq_nil_iff] at hrest
  rw [hrest] at heq
  exact ⟨root, heq, hname⟩

variable {alreadyInstalled : List String}

theorem fast_spec {root : PlannedMember}
    (hfresh : Fresh start)
    (hplan : PlannedFor planner start input ordered) (hroot : rootOnly input ordered = true)
    (heq : toInstallOf ordered = [root]) :
    Guarded planner may start input.orgId
      (do
        perform <| Call.installMember root input.orgId
        maybeReloadAgentRuntime [root]
        pure ⟨input.packageName, root.version, [(root.packageName, root.version)],
          alreadyInstalled, none⟩)
      (Ends planner (MayRefuse may) start input) { start with clock := t } := by
  refine Spec.bind (step_spec (safe_of_fresh hfresh) ?_ ?_)
  · intro _ err t
    exact ⟨.inl ⟨rfl, rfl, rfl⟩, safe_of_fresh hfresh⟩
  · intro f t₁
    have hI : Safe start input.orgId { start with
        clock := t₁, rows := upsertRow input.orgId start.rows root
        installs := start.installs ++ [root.packageName] } := by
      intro b hb hnew
      exact absurd (hfresh b hb) (Nat.not_lt.mpr hnew)
    refine Spec.bind (Spec.mono (maybeReload_spec hI) ?_)
    rintro r w' ⟨rfl, t₂, rfl⟩
    refine ⟨⟨ordered, hplan, ?_, ?_, rfl, hroot⟩, hI⟩
    · rw [heq]
      rfl
    · rw [heq]
      rfl

theorem ledger_spec {rootVersion resultVersion : String}
    (hplan : PlannedFor planner start input ordered)
    (hcap : Captured start input.orgId ordered batch)
    (hp : Progress start input.orgId ordered [] w)
    (hadv : OnNew start (Advancing start input.orgId batch.batchId []) w.ledger) :
    Guarded planner may start input.orgId
      (do
        let installed ← installMembers input rootVersion batch (toInstallOf ordered) resolution []
        let r ← Prog.attempt (perform <| Call.setPhase batch.batchId .finalized)
        match r with
        | .error err => abortAndCompensate batch installed input.packageName err
        | .ok _ => do
          maybeReloadAgentRuntime installed
          pure ⟨input.packageName, resultVersion,
            installed.map (fun m => (m.packageName, m.version)), alreadyInstalled,
            some batch.batchId⟩)
      (Ends planner (MayRefuse may) start input) w := by
  have hthrown : ∀ err w', Thrown (MayRefuse may) start input.orgId batch.batchId ordered err w' →
      Ends planner (MayRefuse may) start input (.error err) w' :=
    fun err w' h => ⟨.inr ⟨ordered, hplan, batch.batchId, h⟩, safe_of_covered h.2⟩
  refine Spec.bind (Spec.mono (installMembers_spec hcap (toInstallOf ordered) w resolution []
    rfl hp hadv) ?_)
  intro r w₁ hr
  cases r with
  | error err => exact hthrown err w₁ hr
  | ok all =>
    obtain ⟨rfl, hp₁, hadv₁⟩ := hr
    have hcov₁ := hp₁.covered (fun _ hn => hn) hadv₁
    refine Spec.bind (Spec.attempt (Spec.mono (setPhase_spec
      (K := fun b => Covered start input.orgId batch.batchId w₁.rows b ∧ b.phase = .finalized)
      (safe_of_covered hcov₁) hcov₁ (fun b hb => hb.batchId) ?_) ?_))
    · intro b t hb
      exact ⟨⟨hb.toRecorded.withPhase, fun _ _ _ _ => .inr (.inl rfl)⟩, rfl⟩
    · rintro r w₂ ⟨t₂, ledger, rfl, ⟨⟨err, rfl⟩, rfl⟩ | ⟨rfl, hfin, b, hb, hid⟩⟩
      · refine Spec.mono (thrown_of_abort (Q := fun _ _ => False) hcap hp₁.still hcov₁) ?_
        intro r w' hr
        cases r with
        | ok a => exact hr.elim
        | error err => exact hthrown err w' hr
      · have hI : Safe start input.orgId { w₁ with clock := t₂, ledger := ledger } :=
          hfin.mono (fun _ hb => ⟨batch.batchId, hb.1⟩)
        refine Spec.bind (Spec.mono (maybeReload_spec hI) ?_)
        rintro r w₃ ⟨rfl, t₃, rfl⟩
        refine ⟨⟨ordered, hplan, hp₁.rows, hp₁.installs, hp₁.uninstalls, b, hb, hid, ?_⟩, hI⟩
        exact (hfin b hb (hid ▸ hcap.drawn)).2

theorem runBatch_spec (hfresh : Fresh start) :
    Guarded planner may start input.orgId (runBatch input resolution)
      (Ends planner (MayRefuse may) start input) { start with clock := t } := by
  simp only [runBatch]
  refine Spec.bind (withLifecycleLock_spec (safe_of_fresh hfresh) ?_)
  intro t₁
  refine Spec.mono (planBatch_spec hfresh) ?_
  intro r w₁ hr
  cases r with
  | error err =>
    obtain ⟨huntouched, hI⟩ := hr
    refine ⟨hI, fun t => ⟨.inl ?_, hI⟩⟩
    exact ⟨huntouched.rows, huntouched.installs, huntouched.uninstalls⟩
  | ok planned =>
    have hready : Ready planner start input resolution planned w₁ := hr
    have hplan : PlannedFor planner start input planned.ordered := ⟨_, _, hready.plan⟩
    obtain ⟨ordered, batch⟩ := planned
    cases batch with
    | none =>
      obtain ⟨hroot, t₂, rfl⟩ := hready.fast rfl
      obtain ⟨root, heq, -⟩ := toInstall_of_rootOnly hroot
      refine ⟨safe_of_fresh hfresh, fun t => ?_⟩
      simp only [heq]
      exact fast_spec hfresh hplan hroot heq
    | some batch =>
      obtain ⟨hcap, hp, hadv⟩ := hready.batch batch rfl
      exact ⟨safe_of_covered (hp.covered (fun _ hn => hn) hadv),
        fun t => ledger_spec hplan hcap hp.still hadv⟩

theorem install_spec (hfresh : Fresh start) :
    Guarded planner may start input.orgId (installExtensionWithDependencies input)
      (Ends planner (MayRefuse may) start input) start := by
  have hI : Safe start input.orgId start := safe_of_fresh (t := start.clock) hfresh
  refine Spec.bind ?_
  rw [authorize]
  split
  · split
    · exact runBatch_spec (t := start.clock) hfresh
    refine Spec.bind (step_spec hI ?_ ?_)
    · intro _ err t
      exact ⟨.inl ⟨rfl, rfl, rfl⟩, safe_of_fresh hfresh⟩
    · intro f t
      exact runBatch_spec hfresh
  · exact runBatch_spec (t := start.clock) hfresh

end ExtBatchRollback
