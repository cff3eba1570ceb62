import Cinatra.Extensions.AllOrNothing

/-! # BatchSweep — what the next sweep makes of a stopped batch

    The driver may stop between any two calls.  As long as the ledger does not
    show the batch or a member as failed, it shows every member that is there and
    was not as being installed, and the sweep undoes it.  The first writes of an
    abort hide what the abort has not undone yet. -/

namespace ExtBatchSweep

open Process RowTable ExtInstallBatch ExtBatchWorld ExtBatchRollback

variable {planner : Planner} {w w' : World} {org : Option String} {id : Nat} {name : String}

/-! ## Members the sweep has dealt with -/

/-- The ledger has a row of the batch, with the member. -/
def Known (id : Nat) (name : String) (w : World) : Prop :=
  ∃ b ∈ w.ledger, b.batchId = id ∧ ∃ m ∈ b.members, m.packageName = name

/-- The ledger has the member as `compensation-failed`. -/
def RecordedFailed (id : Nat) (name : String) (w : World) : Prop :=
  ∃ b ∈ w.ledger, b.batchId = id ∧ ∃ m ∈ b.members,
    m.packageName = name ∧ m.status = .compensationFailed

/-- The member is gone, or recorded. -/
def Handled (org : Option String) (id : Nat) (name : String) (w : World) : Prop :=
  ¬ LiveAt w.rows name org ∨ RecordedFailed id name w

instance (id : Nat) (name : String) (w : World) : Decidable (RecordedFailed id name w) :=
  inferInstanceAs (Decidable (∃ b ∈ w.ledger, _))

instance (org : Option String) (id : Nat) (name : String) (w : World) :
    Decidable (Handled org id name w) :=
  inferInstanceAs (Decidable (¬ LiveAt w.rows name org ∨ _))

/-- No member is lost from the ledger, and none dealt with comes back. -/
structure Swept (org : Option String) (w w' : World) : Prop where
  known : ∀ id name, Known id name w → Known id name w'
  handled : ∀ id name, Handled org id name w → Handled org id name w'

theorem Swept.refl : Swept org w w := ⟨fun _ _ h => h, fun _ _ h => h⟩

theorem Swept.trans {w'' : World} (h : Swept org w w') (h' : Swept org w' w'') : Swept org w w'' :=
  ⟨fun id name hk => h'.known id name (h.known id name hk),
    fun id name hh => h'.handled id name (h.handled id name hh)⟩

theorem swept_of_shrink (hledger : w'.ledger = w.ledger)
    (hrows : ∀ n, LiveAt w'.rows n org → LiveAt w.rows n org) : Swept org w w' := by
  constructor
  · intro id name hk
    rw [Known, hledger]
    exact hk
  · rintro id name (hgone | hrec)
    · exact .inl (fun hlive => hgone (hrows _ hlive))
    · refine .inr ?_
      rw [RecordedFailed, hledger]
      exact hrec

variable {f : InstallBatch → InstallBatch}

theorem known_updateWhere {p : InstallBatch → Bool} (hid : ∀ b, (f b).batchId = b.batchId)
    (hm : ∀ b, (f b).members.map InstallBatchMember.packageName =
      b.members.map InstallBatchMember.packageName)
    (h : Known id name w) (hledger : w'.ledger = updateWhere p f w.ledger) : Known id name w' := by
  obtain ⟨b, hb, hbid, m, hmem, hname⟩ := h
  rw [Known, hledger]
  refine ⟨_, mem_updateWhere.mpr ⟨b, hb, rfl⟩, ?_⟩
  split
  · refine ⟨(hid b).trans hbid, ?_⟩
    have hin : name ∈ (f b).members.map InstallBatchMember.packageName := by
      rw [hm, ← hname]
      exact List.mem_map_of_mem hmem
    obtain ⟨m', hm', hname'⟩ := List.mem_map.mp hin
    exact ⟨m', hm', hname'⟩
  · exact ⟨hbid, m, hmem, hname⟩

variable {now : Instant} {phase : InstallBatchPhase}

theorem swept_withPhase (hrows : w'.rows = w.rows)
    (hledger : w'.ledger = updateWhere (fun b => b.batchId = id) (withPhase phase now) w.ledger) :
    Swept org w w' := by
  constructor
  · intro id' name hk
    exact known_updateWhere (f := withPhase phase now) (fun _ => rfl) (fun _ => rfl) hk hledger
  · rintro id' name (hgone | ⟨b, hb, hbid, hm⟩)
    · refine .inl ?_
      rw [hrows]
      exact hgone
    · refine .inr ?_
      rw [RecordedFailed, hledger]
      refine ⟨_, mem_updateWhere.mpr ⟨b, hb, rfl⟩, ?_⟩
      split
      · exact ⟨hbid, hm⟩
      · exact ⟨hbid, hm⟩

variable {patch : MemberPatch}

/-- A write to a member that is gone, or that records it, keeps what is dealt with. -/
theorem swept_withMember (hpatch : ¬ LiveAt w.rows name org ∨ patch.status = .compensationFailed)
    (hrows : w'.rows = w.rows)
    (hledger : w'.ledger = updateWhere (fun b => b.batchId = id) (withMember name patch now)
      w.ledger) : Swept org w w' := by
  constructor
  · intro id' name' hk
    exact known_updateWhere (f := withMember name patch now) (fun _ => rfl)
      (fun _ => map_packageName_patch) hk hledger
  · rintro id' name' (hgone | ⟨b, hb, hbid, m, hm, hname, hstatus⟩)
    · refine .inl ?_
      rw [hrows]
      exact hgone
    · by_cases hn : name' = name
      · rcases hpatch with hgone | hfailed
        · refine .inl ?_
          rw [hrows, hn]
          exact hgone
        refine .inr ?_
        rw [RecordedFailed, hledger]
        refine ⟨_, mem_updateWhere.mpr ⟨b, hb, rfl⟩, ?_⟩
        split
        · refine ⟨hbid, _, List.mem_map_of_mem hm, ?_⟩
          rw [patchMember, if_pos (hname.trans hn)]
          exact ⟨hname, hfailed⟩
        · exact ⟨hbid, m, hm, hname, hstatus⟩
      · refine .inr ?_
        rw [RecordedFailed, hledger]
        refine ⟨_, mem_updateWhere.mpr ⟨b, hb, rfl⟩, ?_⟩
        split
        · refine ⟨hbid, m, List.mem_map.mpr ⟨m, hm, ?_⟩, hname, hstatus⟩
          rw [patchMember, if_neg (fun hc => hn (hname.symm.trans hc))]
        · exact ⟨hbid, m, hm, hname, hstatus⟩

theorem handled_withMember (hpatch : patch.status = .compensationFailed) (hk : Known id name w)
    (hledger : w'.ledger = updateWhere (fun b => b.batchId = id) (withMember name patch now)
      w.ledger) : Handled org id name w' := by
  obtain ⟨b, hb, hbid, m, hm, hname⟩ := hk
  refine .inr ?_
  rw [RecordedFailed, hledger]
  refine ⟨_, mem_updateWhere.mpr ⟨b, hb, rfl⟩, ?_⟩
  rw [if_pos (decide_eq_true hbid)]
  refine ⟨hbid, _, List.mem_map_of_mem hm, ?_⟩
  rw [patchMember, if_pos hname]
  exact ⟨hname, hpatch⟩

/-! ## The sweep -/

/-- A sweep asks for nothing. -/
def anyCall (_ : World) (_ : Call) : Prop := True

theorem updateBatch_cases :
    (updateBatch w id f).2 = w ∧ (∀ b ∈ w.ledger, b.batchId ≠ id) ∨ (updateBatch w id f).2 =
        { w with ledger := updateWhere (fun b => b.batchId = id) f w.ledger } := by
  simp only [updateBatch]
  split
  · exact .inr rfl
  · rename_i hany
    refine .inl ⟨rfl, ?_⟩
    intro b hb heq
    exact hany (List.any_eq_true.mpr ⟨b, hb, decide_eq_true heq⟩)

theorem setPhase_swept (org : Option String) :
    Spec (sweepEnvironment planner) anyCall (perform <| Call.setPhase id phase)
      (fun _ w' => Swept org w w') w := by
  refine call_spec trivial (fun hc => nomatch hc) ?_
  intro f e
  show Swept org w (updateBatch { w with clock := w.clock + e } id (withPhase phase _)).2
  rcases updateBatch_cases (w := { w with clock := w.clock + e }) with ⟨heq, -⟩ | heq
  · rw [heq]
    exact swept_of_shrink rfl (fun _ h => h)
  · rw [heq]
    exact swept_withPhase rfl rfl

/-- A member's entry: nothing dealt with comes back, and a recorded one is dealt with. -/
theorem updateMember_swept (org : Option String)
    (hpatch : ¬ LiveAt w.rows name org ∨ patch.status = .compensationFailed) :
    Spec (sweepEnvironment planner) anyCall (perform <| Call.updateMember id name patch)
      (fun _ w' => Swept org w w' ∧ w'.rows = w.rows ∧
        (patch.status = .compensationFailed → Known id name w → Handled org id name w')) w := by
  refine call_spec trivial (fun hc => nomatch hc) ?_
  intro f e
  show Swept org w (updateBatch { w with clock := w.clock + e } id (withMember name patch _)).2 ∧
    (updateBatch { w with clock := w.clock + e } id (withMember name patch _)).2.rows = _ ∧
    (_ → _ → Handled org id name
      (updateBatch { w with clock := w.clock + e } id (withMember name patch _)).2)
  rcases updateBatch_cases (w := { w with clock := w.clock + e }) with ⟨heq, hnone⟩ | heq
  · rw [heq]
    refine ⟨swept_of_shrink rfl (fun _ h => h), rfl, ?_⟩
    rintro - ⟨b, hb, hbid, -⟩
    exact absurd hbid (hnone b hb)
  · rw [heq]
    exact ⟨swept_withMember hpatch rfl rfl, rfl, fun hp hk => handled_withMember hp hk rfl⟩

/-- The members of a list, in order: each one the ledger has is dealt with. -/
theorem sweepMembers_spec (org : Option String) (ms : List InstallBatchMember) :
    ∀ (w : World) (failures : Nat),
      Spec (sweepEnvironment planner) anyCall (sweepMembers id ms failures)
        (fun r w' => (∃ failures', r = .ok failures') ∧ Swept org w w' ∧
          ∀ m ∈ ms, Known id m.packageName w → Handled org id m.packageName w') w := by
  induction ms with
  | nil =>
    intro w failures
    exact ⟨⟨failures, rfl⟩, Swept.refl, fun m hm => absurd hm List.not_mem_nil⟩
  | cons m rest ih =>
    intro w failures
    -- the rest keeps what this member's turn has settled
    have hnext : ∀ w₁ failures, Swept org w w₁ →
        (Known id m.packageName w → Handled org id m.packageName w₁) →
        Spec (sweepEnvironment planner) anyCall (sweepMembers id rest failures)
          (fun r w' => (∃ failures', r = .ok failures') ∧ Swept org w w' ∧
            ∀ x ∈ m :: rest, Known id x.packageName w → Handled org id x.packageName w') w₁ := by
      intro w₁ failures hswept hm
      refine Spec.mono (ih w₁ failures) ?_
      rintro r w' ⟨hr, hswept', hrest⟩
      refine ⟨hr, hswept.trans hswept', ?_⟩
      intro x hx hk
      rcases List.mem_cons.mp hx with rfl | hx
      · exact hswept'.handled _ _ (hm hk)
      · exact hrest x hx (hswept.known _ _ hk)
    -- a member that could not be undone is recorded
    have hfail : ∀ w₁ err, Swept org w w₁ → Spec (sweepEnvironment planner) anyCall
          (do
            swallow (perform <| Call.updateMember id m.packageName
              { status := .compensationFailed, detail := some (BatchError.message err) })
            sweepMembers id rest (failures + 1))
          (fun r w' => (∃ failures', r = .ok failures') ∧ Swept org w w' ∧
            ∀ x ∈ m :: rest, Known id x.packageName w → Handled org id x.packageName w') w₁ := by
      intro w₁ err hswept
      refine Spec.bind (Spec.swallow (Spec.mono (updateMember_swept org (.inr rfl)) ?_))
      rintro r w₂ ⟨hswept₂, -, hm⟩
      exact hnext w₂ _ (hswept.trans hswept₂) (fun hk => hm rfl (hswept.known _ _ hk))
    rw [sweepMembers]
    refine Spec.bind (Spec.attempt (Spec.bind (call_spec trivial ?_ ?_)))
    · intro _ err e
      exact hfail _ err (swept_of_shrink rfl (fun _ h => h))
    · intro f e
      have hgone : ¬ LiveAt (removeRows m.packageName w.rows) m.packageName org :=
        fun hlive => (liveAt_remove.mp hlive).1 rfl
      have hremoved : ∀ w₁, w₁.ledger = w.ledger → w₁.rows = removeRows m.packageName w.rows →
          Swept org w w₁ := by
        intro w₁ hl hr
        refine swept_of_shrink hl (fun n hn => ?_)
        rw [hr] at hn
        exact (liveAt_remove.mp hn).2
      refine Spec.mono (updateMember_swept org (.inl hgone)) ?_
      rintro r w₁ ⟨hswept, hrows, -⟩
      have hswept₁ : Swept org w w₁ := Swept.trans (hremoved _ (by rfl) (by rfl)) hswept
      cases r with
      | ok u =>
        refine hnext w₁ failures hswept₁ (fun _ => .inl ?_)
        rw [hrows]
        exact hgone
      | error err => exact hfail w₁ err hswept₁

theorem sweepBatch_spec (org : Option String) {b : InstallBatch} :
    Spec (sweepEnvironment planner) anyCall (sweepBatch b)
      (fun r w' => r = .ok () ∧ Swept org w w' ∧ ∀ m ∈ b.members, sweepable m = true →
        Known b.batchId m.packageName w → Handled org b.batchId m.packageName w') w := by
  refine Spec.bind (Spec.mono (sweepMembers_spec org _ w 0) ?_)
  rintro r w₁ ⟨⟨failures, rfl⟩, hswept, hall⟩
  refine Spec.swallow (Spec.mono (setPhase_swept org) ?_)
  intro r w₂ hswept₂
  refine ⟨rfl, hswept.trans hswept₂, ?_⟩
  intro m hm hs hk
  refine hswept₂.handled _ _ (hall m (List.mem_filter.mpr ⟨?_, hs⟩) hk)
  exact List.mem_reverse.mpr hm

theorem sweepBatches_spec (org : Option String) (bs : List InstallBatch) :
    ∀ w : World, Spec (sweepEnvironment planner) anyCall (sweepBatches bs)
      (fun _ w' => Swept org w w' ∧ ∀ b ∈ bs, ∀ m ∈ b.members, sweepable m = true →
        Known b.batchId m.packageName w → Handled org b.batchId m.packageName w') w := by
  induction bs with
  | nil =>
    intro w
    exact ⟨Swept.refl, fun b hb => absurd hb List.not_mem_nil⟩
  | cons b rest ih =>
    intro w
    refine Spec.bind (Spec.mono (sweepBatch_spec org) ?_)
    rintro r w₁ ⟨rfl, hswept, hb⟩
    refine Spec.mono (ih w₁) ?_
    rintro r w₂ ⟨hswept₂, hrest⟩
    refine ⟨hswept.trans hswept₂, ?_⟩
    intro x hx m hm hs hk
    rcases List.mem_cons.mp hx with rfl | hx
    · exact hswept₂.handled _ _ (hb m hm hs hk)
    · exact hrest x hx m hm hs (hswept.known _ _ hk)

/-- The sweep deals with every sweepable member of a stale batch, and brings no
    other back. -/
theorem sweep_spec (planner : Planner) (org : Option String) (olderThanMs : Instant) :
    Spec (sweepEnvironment planner) anyCall (sweepStaleInstallBatches olderThanMs)
      (fun _ w' => Swept org w w' ∧ ∀ b ∈ w.ledger, b.phase.active = true →
        b.updatedAt < w.clock - max 0 olderThanMs → ∀ m ∈ b.members, sweepable m = true →
        Handled org b.batchId m.packageName w') w := by
  refine Spec.bind (call_spec trivial (fun hc => nomatch hc) ?_)
  intro f e
  refine Spec.bind (Spec.mono (sweepBatches_spec org _ _) ?_)
  rintro r w' ⟨hswept, hall⟩
  have hstill : Swept org w { w with clock := w.clock + e } := swept_of_shrink rfl (fun _ h => h)
  have hdone : Swept org w w' ∧ ∀ b ∈ w.ledger, b.phase.active = true →
      b.updatedAt < w.clock - max 0 olderThanMs → ∀ m ∈ b.members, sweepable m = true →
      Handled org b.batchId m.packageName w' := by
    refine ⟨hstill.trans hswept, ?_⟩
    intro b hb hactive hold m hm hs
    refine hall b ((List.mem_insertionSort _).mpr (List.mem_filter.mpr ⟨hb, ?_⟩)) m hm hs
      ⟨b, hb, rfl, m, hm, rfl⟩
    rw [hactive, Bool.true_and, decide_eq_true_eq]
    show b.updatedAt < w.clock + (e : Int) - max 0 olderThanMs
    exact Int.lt_of_lt_of_le hold
      (Int.sub_le_sub_right (Int.le_add_of_nonneg_right (Int.natCast_nonneg e)) _)
  cases r with
  | ok | error => exact hdone

/-! ## The stopped driver -/

/-- The world when the driver has stopped after so many calls, and time has passed. -/
def stopped (planner : Planner) (input : InstallInput) (start : World) (s : Nat → Answer)
    (n : Nat) (clock : Instant) : World :=
  { cut (environment planner) n (installExtensionWithDependencies input) s start with
    clock := clock }

/-- The world after the next sweep. -/
def afterSweep (planner : Planner) (olderThanMs : Instant) (s : Nat → Answer) (w : World) : World :=
  (run (sweepEnvironment planner) (sweepStaleInstallBatches olderThanMs) s w).2

/-- A batch the run has begun and not finalized, and that is old enough for the
    sweep. -/
structure CrashedBatch (start : World) (olderThanMs : Instant) (w : World) (b : InstallBatch) :
    Prop where
  row : b ∈ w.ledger
  begun : start.nextUuid ≤ b.batchId
  open_ : b.phase ≠ .finalized
  stale : b.updatedAt < w.clock - max 0 olderThanMs

theorem stopped_safe {input : InstallInput} {start : World} (hfresh : Fresh start)
    (s : Nat → Answer) (n : Nat) (clock : Instant) :
    Safe start input.orgId (stopped planner input start s n clock) := by
  refine Spec.cut (I := fun w => Safe start input.orgId w) (Spec.unrestrict (fun _ _ => trivial)
    (install_spec hfresh)) ?_ n s
  intro r w hends
  cases r with
  | ok | error => exact hends.2

/-- **A crashed batch is recovered** unless the ledger shows the failure the driver
    was undoing: of the members that were not there before, those of a batch that is
    not marked failed, and are not marked failed themselves, are gone after the next
    sweep or recorded. -/
theorem crashed_recovered (planner : Planner) (input : InstallInput) (start : World)
    (hfresh : Fresh start) (s : Nat → Answer) (n : Nat) (clock olderThanMs : Instant)
    (s' : Nat → Answer) (b : InstallBatch)
    (hb : CrashedBatch start olderThanMs (stopped planner input start s n clock) b)
    (hphase : b.phase ≠ .failed) (m : InstallBatchMember) (hm : m ∈ b.members)
    (hstatus : m.status ≠ .failed)
    (habsent : findLiveRow start.rows m.packageName input.orgId = none) :
    Handled input.orgId b.batchId m.packageName
      (afterSweep planner olderThanMs s' (stopped planner input start s n clock)) := by
  obtain ⟨hswept, hall⟩ := Spec.run (sweep_spec planner input.orgId olderThanMs
    (w := stopped planner input start s n clock)) s'
  obtain ⟨id, hcov⟩ := stopped_safe hfresh s n clock b hb.row hb.begun
  have hpre : m.preState.present = false := by
    rw [hcov.before m hm, habsent]
    rfl
  by_cases hlive : LiveAt (stopped planner input start s n clock).rows m.packageName input.orgId
  · rcases hcov.standing m hm hpre hlive with h | h | h | h | ⟨hactive, h⟩
    · exact absurd h hphase
    · exact absurd h hb.open_
    · exact absurd h hstatus
    · exact hswept.handled _ _ (.inr ⟨b, hb.row, rfl, m, hm, rfl, h⟩)
    · refine hall b hb.row hactive hb.stale m hm ?_
      rw [sweepable, hpre, Bool.not_false, Bool.true_and, Bool.or_eq_true, decide_eq_true_eq,
        decide_eq_true_eq]
      exact h.symm
  · exact hswept.handled _ _ (.inl hlive)

/-! ### Stops of one install -/

def stoppedAt (s : Nat → Answer) (n : Nat) : World :=
  stopped depThenRoot rootInput (emptyWorld platformRoot) s n 1000000

/-- The sweep of the boot that follows. -/
def booted (s : Nat → Answer) (n : Nat) : World :=
  afterSweep depThenRoot 300000 (fun _ => {}) (stoppedAt s n)

/-- The dependency has been installed, and the ledger does not say so yet. -/
def halfWay : InstallBatch :=
  ⟨0, "root", some "acme", .installing,
    [⟨"dep", "1", "skill", .installing, ⟨false, none, none, none⟩, none, none⟩,
      ⟨"root", "2", "agent", .planned, ⟨true, some "1", none, none⟩, none, none⟩], 0, 0⟩

theorem crashed_recovered_halfWay : Handled (some "acme") 0 "dep" (booted (fun _ => {}) 13) :=
  crashed_recovered depThenRoot rootInput (emptyWorld platformRoot)
    (fun _ hb => by cases hb) (fun _ => {}) 13 1000000 300000 (fun _ => {}) halfWay
    ⟨by decide, by decide, by decide, by decide⟩ (by decide)
    ⟨"dep", "1", "skill", .installing, ⟨false, none, none, none⟩, none, none⟩ (by decide)
    (by decide) (by decide)

theorem dep_stranded : ¬ Handled (some "acme") 0 "dep" (booted (failAt 16) 19) ∧
    ¬ Handled (some "acme") 0 "dep" (booted (failAt 14) 16) := by
  decide

end ExtBatchSweep
