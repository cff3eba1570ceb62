import Cinatra.Extensions.RegistryUnwind

/-! # RegistryRestore — the restores of an update

    Each restore is one write; where it fails the failure is reported
    (`restored_or_reported`).  From a world in which some axes are dealt with, a
    restore deals with one more, and a skipped one had nothing to put back. -/

namespace ExtRegistry

open Process ExtCanonical ExtClosure ExtInstallOps
open ExtWorkflowSaga (SagaHost SagaError Provenance truthy)
open ExtSagaWorld (GrantStatus HostPortGrant normalizePorts)

variable {host : RegistryHost} {f : Answer} {start w w' : World} {c : Call} {scope : Scope}
  {prior : InstallOp} {opId : String} {lost : Prop} {done : List DurableStep}
  {step : DurableStep} {path : UnwindPath}

/-! ## One restore -/

/-- A call that restores an axis of the scope. -/
structure Restoring (host : RegistryHost) (start : World) (scope : Scope) (prior : InstallOp)
    (opId : String) (lost : Prop) (step : DurableStep) (c : Call) : Prop where
  own : c.own scope
  writes : c.writes = some step
  source : c.restoresSource = true ↔ step = .provenance
  journal : step = .journal → ¬ lost ∧ c = .finalizeInstallOp prior.installOpId
  grant : step = .grant → start.grant scope ≠ none
  back : ∀ f w, Held opId scope prior w.journal → Due host start scope lost step →
    isOk (serve host f w c).1 = true → Back start scope prior (serve host f w c).2 step

theorem Call.fallible_of_writes (h : c.writes = some step) : c.fallible = true := by
  cases c with
  | emitOperationalEvent => cases h
  | _ => rfl

theorem Restoring.not_lost (hid : prior.installOpId ≠ opId)
    (hc : Restoring host start scope prior opId lost step c) : c ≠ .finalizeInstallOp opId := by
  rintro rfl
  have hstep : step = .journal := (Option.some.inj hc.writes).symm
  exact hid (Call.finalizeInstallOp.inj (hc.journal hstep).2).symm

theorem Restoring.held (hc : Restoring host start scope prior opId lost step c) :
    c.writes ≠ some .journal ∨ ∃ id, c = .finalizeInstallOp id := by
  by_cases hstep : step = .journal
  · exact .inr ⟨_, (hc.journal hstep).2⟩
  · refine .inl ?_
    rw [hc.writes]
    exact fun h => hstep (Option.some.inj h)

/-- **A restore that goes through deals with its axis.** -/
theorem Unwinding.restored (hid : prior.installOpId ≠ opId)
    (hc : Restoring host start scope prior opId lost step c)
    (h : Unwinding host start scope prior opId lost done w)
    (hok : isOk (answer host f c w).1 = true) :
    Unwinding host start scope prior opId lost (step :: done) (answer host f c w).2 := by
  obtain ⟨threw, landed, hlog, hthrew, -⟩ := answer_cases host f c w
  have hquiet : threw = false := by
    rw [hok] at hthrew
    simpa using hthrew.symm
  obtain ⟨w₀, hstart, hserved, halike⟩ := answer_ok hok
  refine @Unwinding.step host start w _ scope prior opId lost done h step False
    (h.trace.answer hc.own) (held_answer h.held hc.held) ?_ ?_ ?_ ?_
    (fun hs => (hc.journal hs).1) hc.grant (.inr fun hdue => ?_)
  · intro t ht
    refine back_answer hc.own ?_
    rw [hc.writes]
    exact fun hs => ht (Option.some.inj hs).symm
  · intro t
    rw [told_of_events (events_answer (Call.fallible_of_writes hc.writes))]
    simp
  · rw [restoreThrew_append hlog, hquiet]
    simp
  · rw [hlog, List.mem_append, List.mem_singleton]
    refine or_iff_left fun heq => hc.not_lost hid (Entry.mk.inj heq).1.symm
  · rw [back_alike halike]
    refine hc.back f w₀ ?_ hdue hserved
    rw [hstart.journal]
    exact h.held

theorem answer_emit (event : InstallDurableRestoreFailureEvent) :
    (answer host f (.emitOperationalEvent event) w).2 =
      ⟨w.clock + f.elapsedMs, w.journal, w.table, w.grants, w.events ++ [event],
        w.log ++ [⟨.emitOperationalEvent event, false, true⟩]⟩ := rfl

/-- **A restore that fails is reported.** -/
theorem Unwinding.reported {g : Answer} {event : InstallDurableRestoreFailureEvent}
    (hid : prior.installOpId ≠ opId) (hc : Restoring host start scope prior opId lost step c)
    (h : Unwinding host start scope prior opId lost done w) (hevent : event.step = step)
    (hfail : isOk (answer host f c w).1 = false) :
    Unwinding host start scope prior opId lost (step :: done)
      (answer host g (.emitOperationalEvent event) (answer host f c w).2).2 := by
  obtain ⟨threw, landed, hlog, hthrew, -⟩ := answer_cases host f c w
  have hquiet : threw = true := by
    rw [hfail] at hthrew
    simpa using hthrew.symm
  have htrace : Trace host start scope (answer host f c w).2 := h.trace.answer hc.own
  have hheld : Held opId scope prior (answer host f c w).2.journal := held_answer h.held hc.held
  have htold : ∀ t, Told (answer host f c w).2 t ↔ Told w t :=
    told_of_events (events_answer (Call.fallible_of_writes hc.writes))
  have hback : ∀ t, t ≠ step →
      (Back start scope prior (answer host f c w).2 t ↔ Back start scope prior w t) := by
    intro t ht
    refine back_answer hc.own ?_
    rw [hc.writes]
    exact fun hs => ht (Option.some.inj hs).symm
  refine Unwinding.step h (htrace.answer trivial) ?_ ?_ ?_ ?_ ?_ (fun hs => (hc.journal hs).1) hc.grant
    (.inl trivial)
  · exact held_answer hheld (.inl (Option.some_ne_none _).symm)
  · intro t ht
    have hnone : (Call.emitOperationalEvent event).writes ≠ some t := (Option.some_ne_none _).symm
    have hown : (Call.emitOperationalEvent event).own scope := trivial
    exact (back_answer hown hnone).trans (hback t ht)
  · intro t
    rw [Told, answer_emit, exists_logged, ← htold t, Told, hevent, true_and, @eq_comm _ t]
  · rw [restoreThrew_append (e := ⟨.emitOperationalEvent event, false, true⟩) rfl,
      restoreThrew_append hlog, hquiet, hc.source]
    simp [Call.restoresSource]
  · rw [answer_emit, List.mem_append, List.mem_singleton, hlog, List.mem_append, List.mem_singleton]
    constructor
    · rintro ((hmem | heq) | heq)
      · exact hmem
      · exact absurd (Entry.mk.inj heq).1.symm (hc.not_lost hid)
      · cases heq
    · exact fun hmem => .inl (.inl hmem)

theorem Unwinding.skipped (h : Unwinding host start scope prior opId lost done w)
    (hdue : Due host start scope lost step → Accounted start scope prior w step) :
    Unwinding host start scope prior opId lost (step :: done) w := by
  refine ⟨h.trace, h.held, h.toldSource, h.toldGrant, h.entry, h.pin, fun t ht ht' => ?_⟩
  rcases List.mem_cons.mp ht with rfl | hmem
  · exact hdue ht'
  · exact h.done t hmem ht'

/-! ## The four restores -/

theorem restoring_spec {p : P Unit} {M : World → Prop} {E : SagaError → World → Prop}
    (hp : Ends host p (fun r w' =>
      (isOk r = true → M w') ∧ (isOk r = false → ∀ g event, event.step = step →
        M (answer host g (.emitOperationalEvent event) w').2)) w) :
    Ends host (restoring scope path step p) (Post (fun _ => M) E) w := by
  refine Spec.bind (Spec.attempt (Spec.mono hp ?_))
  intro r w' hr
  cases r with
  | ok _ => exact hr.1 rfl
  | error err => exact ⟨trivial, fun g => hr.2 rfl g _ rfl⟩

variable {E : SagaError → World → Prop}

theorem restoring_journal (hid : prior.installOpId ≠ opId) (hnot : ¬ lost)
    (h : Unwinding host start scope prior opId lost done w) :
    Ends host (restoring scope path .journal (perform <| Call.finalizeInstallOp prior.installOpId))
      (Post (fun _ => Unwinding host start scope prior opId lost (.journal :: done)) E) w := by
  have hc : Restoring host start scope prior opId lost .journal
      (.finalizeInstallOp prior.installOpId) := by
    refine ⟨trivial, rfl, by simp [Call.restoresSource], fun _ => ⟨hnot, rfl⟩, nofun, ?_⟩
    intro f w₀ hheld _ hok
    obtain ⟨j, hj, hjournal⟩ := statement_ok hok
    have hpin := pinned_finalize hheld hj
    rw [← hjournal] at hpin
    exact hpin
  exact restoring_spec ⟨trivial, fun f => ⟨h.restored hid hc,
    fun hfail g event hevent => h.reported hid hc hevent hfail⟩⟩

/-- What the capture of an update holds. -/
def captured (start : World) (scope : Scope) : Captured :=
  ⟨true, start.source scope, start.grant scope, start.edges scope⟩

theorem restoreGrant_spec (hid : prior.installOpId ≠ opId)
    (h : Unwinding host start scope prior opId lost done w) :
    Ends host (restoreGrant scope path (captured start scope))
      (Post (fun _ => Unwinding host start scope prior opId lost (.grant :: done)) E) w := by
  rw [restoreGrant, captured]
  cases hg : start.grant scope with
  | none => exact h.skipped fun hdue => absurd hg hdue
  | some grant =>
    have hc : Restoring host start scope prior opId lost .grant (.restoreGrant scope grant) := by
      refine ⟨rfl, rfl, by simp [Call.restoresSource], nofun, fun _ => ?_, ?_⟩
      · rw [hg]
        exact Option.some_ne_none _
      · intro f w₀ _ _ _
        obtain ⟨g, -, rfl⟩ := Option.map_eq_some_iff.mp hg
        exact (setGrant_stored g).trans hg.symm
    exact restoring_spec ⟨trivial, fun f => ⟨h.restored hid hc,
      fun hfail g event hevent => h.reported hid hc hevent hfail⟩⟩

theorem restoreSource_spec (hid : prior.installOpId ≠ opId)
    (h : Unwinding host start scope prior opId lost done w) :
    Ends host (restoreSource scope path (captured start scope))
      (Post (fun _ => Unwinding host start scope prior opId lost (.provenance :: done)) E) w := by
  rw [restoreSource, captured]
  cases hs : start.source scope with
  | none =>
    refine h.skipped fun hdue => ?_
    obtain ⟨p, hp, -⟩ := hdue
    rw [hs] at hp
    cases hp
  | some source =>
    have hc : Restoring host start scope prior opId lost .provenance
        (.recordProvenance .restore scope (restored source)) := by
      refine ⟨rfl, rfl, by simp [Call.restoresSource], nofun, nofun, ?_⟩
      intro f w₀ _ hdue hok
      obtain ⟨p, hp, hurl⟩ := hdue
      obtain rfl : source = p := Option.some.inj (hs.symm.trans hp)
      obtain ⟨row, -, hrow⟩ := Option.bind_eq_some_iff.mp hs
      refine (switchSource_ok hok).1.trans ?_
      rw [currentSource_restored hrow hurl, hs]
    exact restoring_spec ⟨trivial, fun f => ⟨h.restored hid hc,
      fun hfail g event hevent => h.reported hid hc hevent hfail⟩⟩

theorem restoreEdges_spec (hid : prior.installOpId ≠ opId)
    (h : Unwinding host start scope prior opId lost done w) :
    Ends host (restoreEdges scope path (captured start scope))
      (Post (fun _ => Unwinding host start scope prior opId lost (.dependencies :: done)) E) w := by
  rw [restoreEdges, captured]
  cases he : start.edges scope with
  | none => exact h.skipped fun _ => .inl (h.trace.edges he)
  | some edges =>
    have hc : Restoring host start scope prior opId lost .dependencies
        (.persistDependencyEdges scope edges) := by
      refine ⟨rfl, rfl, by simp [Call.restoresSource], nofun, nofun, ?_⟩
      intro f w₀ _ _ hok
      exact (switchDependencies_ok hok).1.trans he.symm
    exact restoring_spec ⟨trivial, fun f => ⟨h.restored hid hc,
      fun hfail g event hevent => h.reported hid hc hevent hfail⟩⟩

end ExtRegistry
