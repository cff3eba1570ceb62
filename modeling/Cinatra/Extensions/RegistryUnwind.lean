import Cinatra.Extensions.RegistryEffects

/-! # RegistryUnwind — what the unwind of an update restores

    `Back` says of an axis that it is as before the update, `Told` that a restore
    failure of it was reported.  `Trace` reads the grant and the source off the log;
    `Unwinding` adds the axes whose restore has been tried, each of which is back or
    told.  The journal is an axis of the rollback only: before the finalize the
    catch block leaves it alone, so there a finalize that took effect and threw has
    lost it. -/

namespace ExtRegistry

open RowTable ExtCanonical ExtClosure ExtInstallOps
open ExtWorkflowSaga (SagaHost SagaError Provenance truthy)
open ExtSagaWorld (GrantStatus HostPortGrant normalizePorts)

variable {host : RegistryHost} {f : Answer} {start w w' : World} {c : Call} {scope : Scope}
  {prior : InstallOp} {opId : String}

/-- The axis is as it was before the update. -/
def Back (start : World) (scope : Scope) (prior : InstallOp) (w : World) : DurableStep → Prop
  | .journal => ∃ op ∈ finalizedOps w.journal scope, op.installOpId = prior.installOpId
  | .provenance => w.source scope = start.source scope
  | .dependencies => w.edges scope = start.edges scope
  | .grant => w.grant scope = start.grant scope

/-- A restore failure of the axis was reported. -/
def Told (w : World) (step : DurableStep) : Prop := ∃ event ∈ w.events, event.step = step

/-- The axis is back, or its failure was reported. -/
def Accounted (start : World) (scope : Scope) (prior : InstallOp) (w : World)
    (step : DurableStep) : Prop := Back start scope prior w step ∨ Told w step

theorem back_alike (h : w.Alike w') (step : DurableStep) :
    Back start scope prior w' step ↔ Back start scope prior w step := by
  cases step with
  | journal => simp only [Back, h.journal]
  | provenance => simp only [Back, World.source, h.table]
  | dependencies => simp only [Back, World.edges, h.table]
  | grant => simp only [Back, World.grant, h.grants]

theorem told_of_events (h : w'.events = w.events) (step : DurableStep) :
    Told w' step ↔ Told w step := by
  rw [Told, Told, h]

/-! ## The journal -/

/-- A statement on one op leaves the rows of the others. -/
structure Journaled (opId : String) (scope : Scope) (j j' : Journal) : Prop where
  others : ∀ r, r.installOpId ≠ opId → (r ∈ j'.rows ↔ r ∈ j.rows)
  attempt : ∀ r ∈ j'.rows, r.installOpId = opId → r.scope = scope ∨
    ∃ r₀ ∈ j.rows, r₀.installOpId = opId ∧ r₀.scope = r.scope

variable {j j' : Journal}

theorem journaled_update {p : InstallOp → Bool} {g : InstallOp → InstallOp}
    (hp : ∀ r, p r = true → r.installOpId = opId) (hid : ∀ r, (g r).installOpId = r.installOpId)
    (hscope : ∀ r, (g r).scope = r.scope) (h : j'.rows = updateWhere p g j.rows) :
    Journaled opId scope j j' := by
  refine ⟨fun r hr => ?_, fun r hr hid' => ?_⟩
  · rw [h, mem_updateWhere]
    constructor
    · rintro ⟨r₀, h₀, rfl⟩
      by_cases hpr : p r₀ = true
      · rw [if_pos hpr, hid] at hr
        exact absurd (hp r₀ hpr) hr
      · rw [if_neg hpr]
        exact h₀
    · intro hmem
      refine ⟨r, hmem, ?_⟩
      rw [if_neg fun hpr => hr (hp r hpr)]
  · rw [h] at hr
    obtain ⟨r₀, h₀, rfl⟩ := mem_updateWhere.mp hr
    refine .inr ⟨r₀, h₀, ?_, ?_⟩
    · by_cases hpr : p r₀ = true
      · exact hp r₀ hpr
      · rw [if_neg hpr] at hid'
        exact hid'
    · by_cases hpr : p r₀ = true
      · rw [if_pos hpr, hscope]
      · rw [if_neg hpr]

variable {now : Instant}

theorem journaled_begin {digest : Option String}
    (h : beginInstallOp now ⟨opId, scope.packageName, scope.orgId, .materialized, digest⟩ j =
      .ok j') : Journaled opId scope j j' := by
  rw [beginInstallOp] at h
  split at h
  · cases h
  split at h
  · refine journaled_update (fun r hr => ?_) (fun r => ?_) (fun r => ?_) (commit_ok h)
    · exact of_decide_eq_true (Bool.and_eq_true_iff.mp hr).1
    · rfl
    · rfl
  · have hrows := commit_ok h
    refine ⟨fun r hr => ?_, fun r hr _ => ?_⟩
    · rw [hrows, List.mem_append, List.mem_singleton]
      refine ⟨fun hmem => hmem.resolve_right ?_, .inl⟩
      rintro rfl
      exact hr rfl
    · rw [hrows, List.mem_append, List.mem_singleton] at hr
      rcases hr with hr | rfl
      · exact .inr ⟨r, hr, ‹_›, rfl⟩
      · exact .inl rfl

theorem journaled_advance {phase : InstallOpPhase} {digest : Option (Option String)}
    (h : advanceInstallOpPhase now opId phase digest j = .ok j') : Journaled opId scope j j' := by
  rw [advanceInstallOpPhase] at h
  split at h
  · refine journaled_update (fun r hr => of_decide_eq_true hr) (fun r => ?_) (fun r => ?_)
      (commit_ok h)
    · rfl
    · rfl
  · cases h

/-- The op of the update and the op before it, in the journal. -/
structure Held (opId : String) (scope : Scope) (prior : InstallOp) (j : Journal) : Prop where
  prior : ∃ self ∈ j.rows, self.installOpId = prior.installOpId ∧ self.scope = scope
  attempt : ∀ r ∈ j.rows, r.installOpId = opId → r.scope = scope

theorem Held.journaled (h : Held opId scope prior j)
    (hid : prior.installOpId ≠ opId) (hj : Journaled opId scope j j') :
    Held opId scope prior j' := by
  obtain ⟨self, hself, hsame, hscope⟩ := h.prior
  refine ⟨⟨self, (hj.others self ?_).mpr hself, hsame, hscope⟩, fun r hr hrid => ?_⟩
  · rw [hsame]
    exact hid
  · rcases hj.attempt r hr hrid with hs | ⟨r₀, h₀, hid₀, hs⟩
    · exact hs
    · rw [← hs]
      exact h.attempt r₀ h₀ hid₀

theorem Held.promoted {self : InstallOp} (h : Held opId scope prior j)
    (hrows : j'.rows = ExtInstallAnchor.promoted now self j.rows) : Held opId scope prior j' := by
  obtain ⟨own, hown, hsame, hscope⟩ := h.prior
  constructor
  · -- every row is still there, under its id and scope
    have hkept : ∃ r ∈ j'.rows, r.installOpId = own.installOpId ∧ r.scope = own.scope := by
      rw [hrows, ExtInstallAnchor.promoted]
      refine ⟨_, mem_updateWhere.mpr ⟨_, mem_updateWhere.mpr ⟨own, hown, rfl⟩, rfl⟩, ?_, ?_⟩
      · split <;> split <;> rfl
      · split <;> split <;> rfl
    obtain ⟨r, hr, hrid, hrscope⟩ := hkept
    exact ⟨r, hr, hrid.trans hsame, hrscope.trans hscope⟩
  · intro r hr hrid
    rw [hrows] at hr
    obtain ⟨r₀, h₀, hid₀, hs₀, _⟩ := ExtInstallAnchor.mem_promoted hr
    rw [hs₀]
    exact h.attempt r₀ h₀ (hid₀ ▸ hrid)

/-- The previous op is the finalized one of the scope. -/
def Pinned (scope : Scope) (prior : InstallOp) (j : Journal) : Prop :=
  ∃ op ∈ finalizedOps j scope, op.installOpId = prior.installOpId

theorem pinned_journaled (hid : prior.installOpId ≠ opId)
    (hj : Journaled opId scope j j') : Pinned scope prior j' ↔ Pinned scope prior j := by
  have hother : ∀ op : InstallOp, op.installOpId = prior.installOpId → op.installOpId ≠ opId := by
    intro op hop
    rw [hop]
    exact hid
  constructor
  · rintro ⟨op, hop, hsame⟩
    obtain ⟨hmem, hphase⟩ := mem_finalizedOps.mp hop
    exact ⟨op, mem_finalizedOps.mpr ⟨(hj.others op (hother op hsame)).mp hmem, hphase⟩, hsame⟩
  · rintro ⟨op, hop, hsame⟩
    obtain ⟨hmem, hphase⟩ := mem_finalizedOps.mp hop
    exact ⟨op, mem_finalizedOps.mpr ⟨(hj.others op (hother op hsame)).mpr hmem, hphase⟩, hsame⟩

/-- A finalize that goes through has promoted the row of its op. -/
theorem finalize_promoted {id : String}
    (h : finalizeInstallOp now id j = .ok j') : ∃ self ∈ j.rows, self.installOpId = id ∧
      j'.rows = ExtInstallAnchor.promoted now self j.rows := by
  cases hself : opById j.rows id with
  | none =>
    rw [finalizeInstallOp, hself] at h
    cases h
  | some self =>
    obtain ⟨j'', hok, hrows⟩ := ExtInstallAnchor.finalizeInstallOp_ok now hself
    obtain ⟨hmem, hid⟩ := ExtInstallAnchor.mem_opById hself
    rw [h] at hok
    rw [← Except.ok.inj hok] at hrows
    exact ⟨self, hmem, hid, hrows⟩

/-- **The update's own finalize takes the pin.** -/
theorem not_pinned_finalize (hheld : Held opId scope prior j)
    (hid : prior.installOpId ≠ opId) (h : finalizeInstallOp now opId j = .ok j') :
    ¬ Pinned scope prior j' := by
  obtain ⟨self, hself, hselfId, hrows⟩ := finalize_promoted h
  rintro ⟨op, hop, hsame⟩
  obtain ⟨hmem, hphase, hscope⟩ := mem_finalizedOps.mp hop
  rw [hrows] at hmem
  obtain ⟨r₀, h₀, hid₀, hs₀, hcase⟩ := ExtInstallAnchor.mem_promoted hmem
  rcases hcase hphase with hown | ⟨rfl, hne⟩
  · exact hid ((hsame.symm.trans hid₀).trans (hown.trans hselfId))
  · exact hne (hscope.trans (hheld.attempt self hself hselfId).symm)

/-- **A finalize of the previous op gives the pin back.** -/
theorem pinned_finalize (hheld : Held opId scope prior j)
    (h : finalizeInstallOp now prior.installOpId j = .ok j') : Pinned scope prior j' := by
  obtain ⟨self, hself, hselfId, hrows⟩ := finalize_promoted h
  obtain ⟨own, hown, hownId, hscope⟩ := hheld.prior
  have hsame : self = own := eq_of_opId hself hown (hselfId.trans hownId.symm)
  subst hsame
  refine ⟨{ self with phase := .finalized, updatedAt := now }, ?_, hselfId⟩
  refine mem_finalizedOps.mpr ⟨?_, rfl, hscope⟩
  rw [hrows]
  refine mem_updateWhere.mpr ⟨self, mem_updateWhere.mpr ⟨self, hself, ?_⟩, ?_⟩
  · rw [if_neg (by simp)]
  · rw [if_pos (by simp)]

/-! ## One call and the axes -/

/-- A write is to the scope of the install. -/
def Call.own (scope : Scope) : Call → Prop
  | .recordRequestedGrant s _ | .approveGrant s _ _ _ | .restoreGrant s _
  | .recordProvenance _ s _ | .persistDependencyEdges s _ => s = scope
  | _ => True

theorem Call.own_idle (h : c.idle) : c.own scope := by
  cases c <;> first | trivial | exact absurd h.1 (Option.some_ne_none _)

theorem records (h : c.writes = some .provenance) : ∃ r s p, c = .recordProvenance r s p := by
  cases c with
  | recordProvenance r s p => exact ⟨r, s, p, rfl⟩
  | _ => cases h

theorem persists (h : c.writes = some .dependencies) : ∃ s d, c = .persistDependencyEdges s d := by
  cases c with
  | persistDependencyEdges s d => exact ⟨s, d, rfl⟩
  | _ => cases h

section

variable (hown : c.own scope)

include hown

theorem serve_grant_some (hw : c.writes = some .grant)
    (hok : isOk (serve host f w c).1 = true) : (serve host f w c).2.grant scope ≠ none := by
  cases c with
  | recordRequestedGrant s ports =>
    obtain rfl : s = scope := hown
    exact setGrant_ok hok
  | approveGrant s approved requested approvedBy =>
    obtain rfl : s = scope := hown
    exact setGrant_ok hok
  | restoreGrant s grant =>
    obtain rfl : s = scope := hown
    exact setGrant_ok hok
  | _ => cases hw

theorem serve_sourced (hw : c.writes = some .provenance)
    (hok : isOk (serve host f w c).1 = true) : ∃ p, (serve host f w c).2.source scope = some p ∧
      (host.gatekept = true → p.registryUrl = host.finalRegistryUrl) := by
  obtain ⟨r, s, p, rfl⟩ := records hw
  obtain rfl : s = scope := hown
  refine ⟨_, (switchSource_ok hok).1.trans (currentSource_provenance host p s.packageName), ?_⟩
  intro hg
  exact if_pos hg

theorem serve_source (hw : c.writes ≠ some .provenance) :
    (serve host f w c).2.source scope = w.source scope := by
  by_cases hd : c.writes = some .dependencies
  · obtain ⟨s, deps, rfl⟩ := persists hd
    obtain rfl : s = scope := hown
    cases hok : isOk (w.switchDependencies s deps).1 with
    | true => exact (switchDependencies_ok hok).2
    | false => exact congrArg (fun v => World.source v s) (switchRow_error hok)
  · rw [World.source, World.source, serve_table hw hd]

theorem serve_edges (hw : c.writes ≠ some .dependencies) :
    (serve host f w c).2.edges scope = w.edges scope := by
  by_cases hp : c.writes = some .provenance
  · obtain ⟨r, s, p, rfl⟩ := records hp
    obtain rfl : s = scope := hown
    cases hok : isOk (w.switchSource s (provenanceSource host p s.packageName)).1 with
    | true => exact (switchSource_ok hok).2
    | false => exact congrArg (fun v => World.edges v s) (switchRow_error hok)
  · rw [World.edges, World.edges, serve_table hp hw]

theorem serve_target : ((serve host f w c).2.table.target scope).isSome =
    (w.table.target scope).isSome := by
  by_cases hp : c.writes = some .provenance
  · obtain ⟨r, s, p, rfl⟩ := records hp
    obtain rfl : s = scope := hown
    exact switchRow_target (g := fun r => { r with source := _ }) (fun _ => rfl) (fun _ => rfl)
      (fun _ => rfl)
  · by_cases hd : c.writes = some .dependencies
    · obtain ⟨s, deps, rfl⟩ := persists hd
      obtain rfl : s = scope := hown
      exact switchRow_target (g := fun r => { r with dependencies := _ }) (fun _ => rfl)
        (fun _ => rfl) (fun _ => rfl)
    · rw [serve_table hp hd]

/-- **A call leaves the axes it does not write.** -/
theorem back_answer {step : DurableStep} (hw : c.writes ≠ some step) :
    Back start scope prior (answer host f c w).2 step ↔ Back start scope prior w step := by
  obtain ⟨threw, landed, -, -, -, hmissed, hlanded, -⟩ := answer_cases host f c w
  cases landed with
  | false => exact back_alike (hmissed rfl) step
  | true =>
    refine (back_alike (hlanded rfl).2 step).trans ?_
    cases step with
    | journal => simp only [Back, serve_journal hw]
    | provenance =>
      simp only [Back, serve_source hown hw]
      rfl
    | dependencies =>
      simp only [Back, serve_edges hown hw]
      rfl
    | grant =>
      simp only [Back, World.grant, serve_grants hw]

end

theorem events_answer (hc : c.fallible = true) : (answer host f c w).2.events = w.events := by
  obtain ⟨threw, landed, -, -, -, hmissed, hlanded, -⟩ := answer_cases host f c w
  cases landed with
  | false => exact (hmissed rfl).events
  | true => exact (hlanded rfl).2.events.trans (serve_events hc)

theorem answer_ok (hok : isOk (answer host f c w).1 = true) :
    ∃ w₀, w.Alike w₀ ∧ isOk (serve host f w₀ c).1 = true ∧
      (serve host f w₀ c).2.Alike (answer host f c w).2 := by
  obtain ⟨threw, landed, -, hthrew, hlands, -, hlanded, -⟩ := answer_cases host f c w
  rw [hok] at hthrew
  have hfalse : threw = false := by
    cases threw with
    | true => cases hthrew
    | false => rfl
  obtain ⟨hserved, halike⟩ := hlanded (hlands hfalse)
  exact ⟨{ w with clock := w.clock + f.elapsedMs }, ⟨rfl, rfl, rfl, rfl⟩, hserved, halike⟩

/-! ## The axes against the log -/

/-- A write of the axis took effect. -/
def Landed (w : World) (step : DurableStep) : Prop :=
  ∃ e ∈ w.log, e.landed = true ∧ e.call.writes = some step

/-- The grant and the source, by what of them was written. -/
structure Trace (host : RegistryHost) (start : World) (scope : Scope) (w : World) : Prop where
  grant : ¬ Landed w .grant → w.grant scope = start.grant scope
  granted : Landed w .grant → w.grant scope ≠ none
  source : ¬ Landed w .provenance → w.source scope = start.source scope
  sourced : Landed w .provenance → ∃ p, w.source scope = some p ∧
    (host.gatekept = true → p.registryUrl = host.finalRegistryUrl)
  target : (w.table.target scope).isSome = (start.table.target scope).isSome

theorem exists_logged {α : Type} {l : List α} {e : α} {p : α → Prop} :
    (∃ x ∈ l ++ [e], p x) ↔ (∃ x ∈ l, p x) ∨ p e := by
  simp [or_and_right, exists_or]

variable {e : Entry}

theorem landed_append {step : DurableStep} (hlog : w'.log = w.log ++ [e]) :
    Landed w' step ↔ Landed w step ∨ e.landed = true ∧ e.call.writes = some step := by
  rw [Landed, hlog]
  exact exists_logged

/-- **A call keeps the trace.** -/
theorem Trace.answer (h : Trace host start scope w) (hown : c.own scope) :
    Trace host start scope (answer host f c w).2 := by
  obtain ⟨threw, landed, hlog, -, -, hmissed, hlanded, -⟩ := answer_cases host f c w
  cases landed with
  | false =>
    have halike := hmissed rfl
    have hsame : ∀ step, Landed (ExtRegistry.answer host f c w).2 step ↔ Landed w step := by
      intro step
      rw [landed_append hlog]
      simp
    refine ⟨?_, ?_, ?_, ?_, ?_⟩
    · rw [hsame, World.grant, halike.grants]
      exact h.grant
    · rw [hsame, World.grant, halike.grants]
      exact h.granted
    · rw [hsame, World.source, halike.table]
      exact h.source
    · rw [hsame, World.source, halike.table]
      exact h.sourced
    · rw [halike.table]
      exact h.target
  | true =>
    obtain ⟨hok, halike⟩ := hlanded rfl
    have hsame : ∀ step, Landed (ExtRegistry.answer host f c w).2 step ↔
        Landed w step ∨ c.writes = some step := by
      intro step
      rw [landed_append hlog]
      simp
    have hgrant : (ExtRegistry.answer host f c w).2.grant scope =
        (serve host f { w with clock := w.clock + f.elapsedMs } c).2.grant scope := by
      rw [World.grant, World.grant, halike.grants]
    have hsource : (ExtRegistry.answer host f c w).2.source scope =
        (serve host f { w with clock := w.clock + f.elapsedMs } c).2.source scope := by
      rw [World.source, World.source, halike.table]
    refine ⟨fun hno => ?_, fun hland => ?_, fun hno => ?_, fun hland => ?_, ?_⟩
    · rw [hsame, not_or] at hno
      rw [hgrant, World.grant, serve_grants hno.2]
      exact h.grant hno.1
    · rw [hgrant]
      by_cases hw : c.writes = some .grant
      · exact serve_grant_some hown hw hok
      · rw [World.grant, serve_grants hw]
        exact h.granted (((hsame _).mp hland).resolve_right hw)
    · rw [hsame, not_or] at hno
      rw [hsource]
      exact (serve_source hown hno.2).trans (h.source hno.1)
    · rw [hsource]
      by_cases hw : c.writes = some .provenance
      · exact serve_sourced hown hw hok
      · obtain ⟨p, hp, hurl⟩ := h.sourced (((hsame _).mp hland).resolve_right hw)
        exact ⟨p, (serve_source hown hw).trans hp, hurl⟩
    · rw [halike.table, serve_target hown]
      exact h.target

theorem Trace.edges (h : Trace host start scope w) (hnone : start.edges scope = none) :
    w.edges scope = start.edges scope := by
  rw [hnone]
  rw [World.edges, Option.map_eq_none_iff] at hnone ⊢
  have htarget := h.target
  rw [hnone, Option.isSome_none, Option.isSome_eq_false_iff, Option.isNone_iff_eq_none] at htarget
  exact htarget

/-! ## The unwind -/

/-- The source can be put back as it was: it was captured, and its registry is not
    renamed. -/
def Restorable (host : RegistryHost) (source : Option Provenance) : Prop :=
  ∃ p, source = some p ∧ (host.gatekept = true → p.registryUrl = host.finalRegistryUrl)

/-- A restore of the source has thrown. -/
def RestoreThrew (w : World) : Prop := ∃ e ∈ w.log, e.call.restoresSource = true ∧ e.threw = true

/-- The axes that a restore is to put back. -/
def Due (host : RegistryHost) (start : World) (scope : Scope) (lost : Prop) : DurableStep → Prop
  | .journal => ¬ lost
  | .provenance => Restorable host (start.source scope)
  | .grant => start.grant scope ≠ none
  | .dependencies => True

/-- The finalize of the update took effect and threw. -/
def lostEntry (opId : String) : Entry := ⟨.finalizeInstallOp opId, true, true⟩

/-- The unwind so far: the axes already dealt with are back or told. -/
structure Unwinding (host : RegistryHost) (start : World) (scope : Scope) (prior : InstallOp)
    (opId : String) (lost : Prop) (done : List DurableStep) (w : World) : Prop where
  trace : Trace host start scope w
  held : Held opId scope prior w.journal
  toldSource : Told w .provenance ↔ RestoreThrew w
  toldGrant : Told w .grant → start.grant scope ≠ none
  entry : lostEntry opId ∈ w.log ↔ lost
  pin : lost → ¬ Accounted start scope prior w .journal
  done : ∀ step ∈ done, Due host start scope lost step → Accounted start scope prior w step


variable {lost : Prop} {done : List DurableStep}

theorem restoreThrew_append (hlog : w'.log = w.log ++ [e]) :
    RestoreThrew w' ↔ RestoreThrew w ∨ e.call.restoresSource = true ∧ e.threw = true := by
  rw [RestoreThrew, hlog]
  exact exists_logged

theorem Unwinding.fewer {done' : List DurableStep}
    (h : Unwinding host start scope prior opId lost done w) (hsub : ∀ s ∈ done', s ∈ done) :
    Unwinding host start scope prior opId lost done' w :=
  ⟨h.trace, h.held, h.toldSource, h.toldGrant, h.entry, h.pin, fun s hs => h.done s (hsub s hs)⟩

theorem statement_ok {r : Except JournalError Journal} (h : isOk (w.statement r).1 = true) :
    ∃ j, r = .ok j ∧ (w.statement r).2.journal = j := by
  cases r with
  | ok j => exact ⟨j, rfl, rfl⟩
  | error err => cases h

/-- The ops of the journal after a call that writes none of it, or finalizes one. -/
theorem held_answer (h : Held opId scope prior w.journal)
    (hc : c.writes ≠ some .journal ∨ ∃ id, c = .finalizeInstallOp id) :
    Held opId scope prior (answer host f c w).2.journal := by
  obtain ⟨threw, landed, -, -, -, hmissed, hlanded, -⟩ := answer_cases host f c w
  cases landed with
  | false =>
    rw [(hmissed rfl).journal]
    exact h
  | true =>
    obtain ⟨hok, halike⟩ := hlanded rfl
    rw [halike.journal]
    rcases hc with hw | ⟨id, rfl⟩
    · rw [serve_journal hw]
      exact h
    · obtain ⟨j, hj, hjournal⟩ := statement_ok hok
      obtain ⟨self, -, -, hrows⟩ := finalize_promoted hj
      rw [← hjournal] at hrows
      exact h.promoted hrows

variable (h : Unwinding host start scope prior opId lost done w)

include h

/-- A call that restores nothing, and leaves the axes already dealt with. -/
theorem Unwinding.kept
    (hown : c.own scope) (hc : c.fallible = true) (hrestores : c.restoresSource = false)
    (hfinalize : c ≠ .finalizeInstallOp opId)
    (hheld : Held opId scope prior (answer host f c w).2.journal)
    (hback : ∀ step, step = .journal ∨ step ∈ done →
      (Back start scope prior (answer host f c w).2 step ↔ Back start scope prior w step)) :
    Unwinding host start scope prior opId lost done (answer host f c w).2 := by
  obtain ⟨threw, landed, hlog, -⟩ := answer_cases host f c w
  have htold : ∀ step, Told (answer host f c w).2 step ↔ Told w step :=
    told_of_events (events_answer hc)
  refine ⟨h.trace.answer hown, hheld, ?_, ?_, ?_, ?_, ?_⟩
  · rw [htold, restoreThrew_append hlog, h.toldSource, hrestores]
    simp
  · rw [htold]
    exact h.toldGrant
  · rw [hlog, List.mem_append, List.mem_singleton, h.entry]
    exact or_iff_left fun heq => hfinalize (Entry.mk.inj heq).1.symm
  · rw [Accounted, htold, hback _ (.inl rfl)]
    exact h.pin
  · intro step hs hdue
    rw [Accounted, htold, hback _ (.inr hs)]
    exact h.done step hs hdue

/-- A call that writes nothing changes nothing of the unwind. -/
theorem Unwinding.idle (hc : c.idle) :
    Unwinding host start scope prior opId lost done (answer host f c w).2 := by
  have hwrites : ∀ step, c.writes ≠ some step := by
    intro step
    rw [hc.1]
    exact (Option.some_ne_none _).symm
  have hrestores : c.restoresSource = false := by
    cases c <;> first | rfl | exact absurd rfl (hwrites _)
  refine h.kept (Call.own_idle hc) hc.2 hrestores ?_ (held_answer h.held (.inl (hwrites _)))
    fun step _ => back_answer (Call.own_idle hc) (hwrites step)
  rintro rfl
  exact hwrites _ rfl

/-- **One more axis dealt with**: its restore went through and it is back, or it
    failed and was reported. -/
theorem Unwinding.step {s : DurableStep} {failed : Prop}
    (htrace : Trace host start scope w') (hheld : Held opId scope prior w'.journal)
    (hback : ∀ t, t ≠ s → (Back start scope prior w' t ↔ Back start scope prior w t))
    (htold : ∀ t, Told w' t ↔ Told w t ∨ failed ∧ t = s)
    (hthrew : RestoreThrew w' ↔ RestoreThrew w ∨ failed ∧ s = .provenance)
    (hentry : lostEntry opId ∈ w'.log ↔ lostEntry opId ∈ w.log)
    (hjournal : s = .journal → ¬ lost) (hgrant : s = .grant → start.grant scope ≠ none)
    (hdone : failed ∨ (Due host start scope lost s → Back start scope prior w' s)) :
    Unwinding host start scope prior opId lost (s :: done) w' := by
  refine ⟨htrace, hheld, ?_, ?_, hentry.trans h.entry, ?_, ?_⟩
  · rw [htold, hthrew, h.toldSource, @eq_comm _ DurableStep.provenance]
  · rw [htold]
    rintro (ht | ⟨-, hs⟩)
    · exact h.toldGrant ht
    · exact hgrant hs.symm
  · intro hlost
    have hne : DurableStep.journal ≠ s := fun hs => hjournal hs.symm hlost
    rw [Accounted, hback _ hne, htold]
    rintro (hb | ht | ⟨-, hs⟩)
    · exact h.pin hlost (.inl hb)
    · exact h.pin hlost (.inr ht)
    · exact hne hs
  · intro t ht hdue
    rw [Accounted, htold]
    by_cases hts : t = s
    · subst hts
      rcases hdone with hfail | hb
      · exact .inr (.inr ⟨hfail, rfl⟩)
      · exact .inl (hb hdue)
    · rw [hback t hts]
      rcases h.done t ((List.mem_cons.mp ht).resolve_left hts) hdue with hb | htold'
      · exact .inl hb
      · exact .inr (.inl htold')

end ExtRegistry
