import Cinatra.Extensions.DispatchWorld
import Cinatra.Extensions.RegistryOutcome

/-! # DispatchRows — what becomes of the rows that were there

    A row that is archived, or live and healthy, is protected: no call of the
    dispatcher drops it, and its status changes only from archived to active
    (`Survives`).  A rollback drops the row it is of, or that row is no longer a
    non-finalized one, or a call on it threw (`rollback_spec`). -/

namespace ExtDispatch

open Process RowTable ExtCanonical ExtClosure ExtInstallOps
open ExtWorkflowSaga (SagaError Provenance truthy)
open ExtRegistry (RegistryHost InstallPipelineInput InstallPipelineResult CanonicalTable
  pickSingleActiveRow registryRun isOk RowsAltered)

variable {host : DispatchHost} {drawn : Drawn} {start w w' : World} {scope : Scope}
  {f : Answer} {c : Call} {id : String}

/-! ## One call -/

/-- A call that reads. -/
def Call.reads : Call → Bool
  | .listInstalledExtensions | .readInstalledExtensionsByPackageName _
  | .readInstalledExtensionById _ | .readExtensionInstallOpPhase _ => true
  | _ => false

/-- A store call on a row that was never finalized. -/
def Call.ofPlaceholder : Call → Bool
  | .insertInstalledExtension _ | .readInstalledExtensionById _ | .readExtensionInstallOpPhase _
  | .deleteInstalledExtension _ => true
  | _ => false

/-- Such a call threw. -/
def StepFailed (w : World) : Prop := ∃ c ∈ w.threw, c.ofPlaceholder = true

theorem StepFailed.mono (h : StepFailed w) (hsub : w.threw ⊆ w'.threw) : StepFailed w' := by
  obtain ⟨c, hc, hp⟩ := h
  exact ⟨c, hsub hc, hp⟩

/-- **One call**: it is served or it is not; where it throws that is kept. -/
theorem answer_cases (host : DispatchHost) (drawn : Drawn) (f : Answer) (c : Call) (w : World) :
    w.threw ⊆ (answer host drawn f c w).2.threw ∧
      (isOk (answer host drawn f c w).1 = false → c ∈ (answer host drawn f c w).2.threw) ∧
      (isOk (answer host drawn f c w).1 = true →
        (answer host drawn f c w).1 = (serve host drawn f w.registry c).1 ∧
          (answer host drawn f c w).2.registry = (serve host drawn f w.registry c).2 ∧
          (answer host drawn f c w).2.threw = w.threw) ∧
      ((answer host drawn f c w).2.registry = w.registry ∨
        (answer host drawn f c w).2.registry = (serve host drawn f w.registry c).2) := by
  rw [answer]
  cases (if c.fallible = true then f.fault else none) with
  | none =>
    cases hr : isOk (serve host drawn f w.registry c).1 with
    | true =>
      refine ⟨?_, fun h => ?_, fun _ => ⟨rfl, rfl, ?_⟩, .inr rfl⟩
      · exact fun _ h => h
      · cases h
      · rfl
    | false =>
      refine ⟨?_, fun _ => ?_, fun h => ?_, .inr rfl⟩
      · exact List.subset_append_left _ _
      · exact List.mem_concat_self
      · cases h
  | some fault =>
    refine ⟨?_, fun _ => ?_, fun h => ?_, ?_⟩
    · exact List.subset_append_left _ _
    · exact List.mem_concat_self
    · cases h
    · show (if fault.landed = true then _ else _) = _ ∨ (if fault.landed = true then _ else _) = _
      split
      · exact .inr rfl
      · exact .inl rfl

theorem serve_reads (hc : c.reads = true) : (serve host drawn f w.registry c).2 = w.registry := by
  cases c <;> first | rfl | cases hc

/-- Only reads were made. -/
structure Read (w w' : World) : Prop where
  registry : w'.registry = w.registry
  threw : w.threw ⊆ w'.threw

theorem Read.refl (w : World) : Read w w := ⟨rfl, fun _ h => h⟩

variable {w'' : World}

theorem Read.trans (h : Read w w') (h' : Read w' w'') : Read w w'' :=
  ⟨h'.registry.trans h.registry, fun _ hc => h'.threw (h.threw hc)⟩

theorem read_spec (hc : c.reads = true) : Ends host drawn (perform c : P c.Reply)
      (Post (fun r w' => Read w w' ∧ ∃ f, (serve host drawn f w.registry c).1 = .ok r)
        (fun _ w' => Read w w' ∧ c ∈ w'.threw)) w := by
  refine ⟨trivial, fun f => ?_⟩
  obtain ⟨hsub, hthrew, hok, hregistry⟩ := answer_cases host drawn f c w
  have hread : Read w (answer host drawn f c w).2 := by
    refine ⟨?_, hsub⟩
    rcases hregistry with h | h
    · exact h
    · exact h.trans (serve_reads hc)
  show Post _ _ (answer host drawn f c w).1 (answer host drawn f c w).2
  cases hr : (answer host drawn f c w).1 with
  | error err =>
    rw [hr] at hthrew
    exact ⟨hread, hthrew rfl⟩
  | ok r =>
    rw [hr] at hok
    exact ⟨hread, f, (hok rfl).1.symm⟩

/-- The dispatcher's own rule, by the journal as it is. -/
def NonFinalized (w : ExtRegistry.World) (row : InstalledExtension) : Prop :=
  nonFinalizedAt row ((readInstallOp w.journal (rowScope row)).map InstallOp.phase) = true

/-- What the check finds is so; what it does not find is not, or its read threw. -/
theorem aware_spec (row : InstalledExtension) : Ends host drawn (isNonFinalizedLiveRowAware row)
      (Post (fun b w' => Read w w' ∧ (b = true → NonFinalized w.registry row) ∧
          (b = false → ¬ NonFinalized w.registry row ∨ StepFailed w')) (fun _ _ => False)) w := by
  rw [isNonFinalizedLiveRowAware]
  by_cases hpresent : row.present = true
  · rw [if_neg (by rw [hpresent]; decide)]
    by_cases hplace : isNonFinalizedLiveRow row = true
    · rw [if_pos hplace]
      refine ⟨Read.refl w, fun _ => ?_, nofun⟩
      rw [NonFinalized, nonFinalizedAt, hpresent, hplace]
      rfl
    · rw [if_neg hplace]
      by_cases hnone : (sourceIntegrity row.source).isNone = true
      · rw [if_pos hnone]
        refine ⟨Read.refl w, nofun, fun _ => .inl ?_⟩
        rw [NonFinalized, nonFinalizedAt, Bool.eq_false_of_not_eq_true hplace,
          Option.isNone_iff_eq_none.mp hnone]
        simp
      · rw [if_neg hnone]
        have hsome : (sourceIntegrity row.source).isSome = true := by
          rw [← Option.not_isNone, Bool.eq_false_of_not_eq_true hnone]
          rfl
        have hrule : ∀ phase, nonFinalizedAt row phase = phase.any (fun p => p ≠ .finalized) := by
          intro phase
          rw [nonFinalizedAt, hpresent, Bool.eq_false_of_not_eq_true hplace, hsome, Bool.true_and,
            Bool.false_or, Bool.true_and]
        refine Spec.post_bind (M := fun phase w' => Read w w' ∧
          (phase = (readInstallOp w.registry.journal (rowScope row)).map InstallOp.phase ∨
            phase = none ∧ StepFailed w')) ?_ ?_
        · refine Spec.tryCatch (Spec.mono (read_spec rfl) ?_)
          intro r w₁ hr
          cases r with
          | ok phase =>
            obtain ⟨hread, f, hserved⟩ := hr
            exact ⟨hread, .inl (Except.ok.inj hserved).symm⟩
          | error err =>
            obtain ⟨hread, hthrew⟩ := hr
            exact ⟨hread, .inr ⟨rfl, _, hthrew, rfl⟩⟩
        · rintro phase w₁ ⟨hread, hphase⟩
          refine ⟨hread, fun h => ?_, fun h => ?_⟩
          · rcases hphase with rfl | ⟨rfl, -⟩
            · rw [NonFinalized, hrule]
              exact h
            · cases h
          · rcases hphase with rfl | ⟨-, hfailed⟩
            · left
              rw [NonFinalized, hrule, h]
              exact Bool.false_ne_true
            · exact .inr hfailed
  · rw [if_pos (by rw [Bool.eq_false_of_not_eq_true hpresent]; rfl)]
    refine ⟨Read.refl w, nofun, fun _ => .inl ?_⟩
    rw [NonFinalized, nonFinalizedAt, Bool.eq_false_of_not_eq_true hpresent]
    exact Bool.false_ne_true

/-! ## The rollback -/

/-- The row was dropped, or nothing was. -/
def Dropped (id : String) (w w' : World) : Prop :=
  w.threw ⊆ w'.threw ∧ (w'.registry = w.registry ∨
    w'.registry = { w.registry with table := deleteRow w.registry.table id })

/-- Nothing is left to drop, or a call on the row threw. -/
def Cleared (id : String) (w : World) : Prop :=
  (∀ r ∈ w.registry.table.rows, r.id = id → ¬ NonFinalized w.registry r) ∨ StepFailed w

theorem Read.dropped (h : Read w w') : Dropped id w w' := ⟨h.threw, .inl h.registry⟩

theorem eq_of_find {t : CanonicalTable} {row r : InstalledExtension}
    (h : t.rows.find? (fun r => r.id = id) = some row) (hr : r ∈ t.rows) (hid : r.id = id) :
    r = row := by
  have hfound := List.find?_some h
  have hrow : row.id = id := of_decide_eq_true hfound
  exact eq_of_key t.keyed hr (List.mem_of_find?_eq_some h) (hid.trans hrow.symm)

theorem cleared_of_not_found (h : w.registry.table.rows.find? (fun r => r.id = id) = none) :
    Cleared id w := by
  refine .inl fun r hr hid => ?_
  exact absurd (decide_eq_true hid) (List.find?_eq_none.mp h r hr)

theorem cleared_of_healthy {row : InstalledExtension}
    (h : w.registry.table.rows.find? (fun r => r.id = id) = some row)
    (hrow : ¬ NonFinalized w.registry row ∨ StepFailed w) : Cleared id w := by
  rcases hrow with hrow | hfailed
  · refine .inl fun r hr hid => ?_
    rw [eq_of_find h hr hid]
    exact hrow
  · exact .inr hfailed

theorem deletion_spec (id : String) : Ends host drawn (perform (Call.deleteInstalledExtension id))
      (fun _ w' => Dropped id w w' ∧ Cleared id w') w := by
  refine ⟨trivial, fun f => ?_⟩
  obtain ⟨hsub, hthrew, hok, hregistry⟩ :=
    answer_cases host drawn f (.deleteInstalledExtension id) w
  refine ⟨⟨hsub, hregistry⟩, ?_⟩
  cases hr : isOk (answer host drawn f (.deleteInstalledExtension id) w).1 with
  | false => exact .inr ⟨_, hthrew hr, rfl⟩
  | true =>
    refine .inl fun r hmem hid => ?_
    have htable : (answer host drawn f (.deleteInstalledExtension id) w).2.registry =
        { w.registry with table := deleteRow w.registry.table id } := (hok hr).2.1
    have hin : r ∈ (answer host drawn f (.deleteInstalledExtension id) w).2.registry.table.rows :=
      hmem
    rw [htable] at hin
    exact absurd hid (of_decide_eq_true (List.mem_filter.mp hin).2)

/-- The row is read and checked: either nothing is left to drop, or it is to go. -/
theorem recheck_spec {stop : InstalledExtension → P Unit} {go : P Unit}
    {Q : Except DispatchError Unit → World → Prop}
    (hdone : ∀ r w₁, Read w w₁ → Cleared id w₁ → Q r w₁)
    (hstop : ∀ ext w₁, Read w w₁ → Cleared id w₁ →
      Ends host drawn (stop ext) Q w₁)
    (hgo : ∀ w₁, Read w w₁ → Ends host drawn go Q w₁) :
    Ends host drawn (do
      let row : Option InstalledExtension ← perform (Call.readInstalledExtensionById id)
      match row with
      | none => pure ()
      | some ext => do
        let nonFinalized ← isNonFinalizedLiveRowAware ext
        if !nonFinalized then stop ext else go) Q w := by
  refine Spec.bind (Spec.mono (read_spec rfl) ?_)
  intro r w₁ hr
  cases r with
  | error err => exact hdone _ w₁ hr.1 (.inr ⟨_, hr.2, rfl⟩)
  | ok row =>
    obtain ⟨hread, f, hserved⟩ := hr
    have hrow : w.registry.table.rows.find? (fun r => r.id = id) = row := Except.ok.inj hserved
    rw [← hread.registry] at hrow
    cases row with
    | none => exact hdone _ w₁ hread (cleared_of_not_found hrow)
    | some ext =>
      refine Spec.bind (Spec.mono (aware_spec ext) ?_)
      intro r w₂ hr
      cases r with
      | error err => exact hr.elim
      | ok b =>
        obtain ⟨hread₂, -, hfalse⟩ := hr
        cases b with
        | false =>
          have hhealthy := hfalse rfl
          rw [← hread₂.registry] at hrow hhealthy
          exact hstop ext w₂ (hread.trans hread₂) (cleared_of_healthy hrow hhealthy)
        | true => exact hgo w₂ (hread.trans hread₂)

theorem Dropped.after (h : Read w w') (h' : Dropped id w' w'') : Dropped id w w'' := by
  refine ⟨fun c hc => h'.1 (h.threw hc), ?_⟩
  rw [← h.registry]
  exact h'.2

theorem deleteNonFinalized_spec (id : String) : Ends host drawn (deleteNonFinalizedCanonicalRow id)
      (fun _ w' => Dropped id w w' ∧ Cleared id w') w := by
  refine recheck_spec (fun _ _ h hc => ⟨h.dropped, hc⟩) (fun _ _ h hc => ⟨h.dropped, hc⟩) ?_
  intro w₁ h
  exact Spec.mono (deletion_spec id) fun _ _ hr => ⟨Dropped.after h hr.1, hr.2⟩

/-- **A rollback** drops its row, or the row is healthy, or a call on it threw. -/
theorem rollback_spec {E : DispatchError → World → Prop} (id : String) :
    Ends host drawn (rollbackNonFinalizedCanonicalRow id)
      (Post (fun _ w' => Dropped id w w' ∧ Cleared id w') E) w := by
  refine Spec.swallow (recheck_spec (fun _ _ h hc => ⟨h.dropped, hc⟩)
    (fun _ _ h hc => ⟨h.dropped, hc⟩) ?_)
  intro w₁ h
  exact Spec.mono (deleteNonFinalized_spec id) fun _ _ hr => ⟨Dropped.after h hr.1, hr.2⟩

/-! ## Protected rows -/

/-- A row as a dispatch at a scope leaves it. -/
structure Follows (scope : Scope) (r r' : InstalledExtension) : Prop where
  id : r'.id = r.id
  packageName : r'.packageName = r.packageName
  organizationId : r'.organizationId = r.organizationId
  status : r'.status = r.status ∨ r.status = .archived ∧ r'.status = .active
  other : rowScope r ≠ scope → r' = r

theorem Follows.refl (scope : Scope) (r : InstalledExtension) : Follows scope r r :=
  ⟨rfl, rfl, rfl, .inl rfl, fun _ => rfl⟩

theorem Follows.scope_eq {r r' : InstalledExtension} (h : Follows scope r r') :
    rowScope r' = rowScope r := by
  rw [rowScope, rowScope, h.packageName, h.organizationId]

theorem Follows.altered {r r' r'' : InstalledExtension} (h : Follows scope r r')
    (h' : ExtRegistry.Altered scope r' r'') : Follows scope r r'' := by
  refine ⟨h'.id.trans h.id, h'.packageName.trans h.packageName,
    h'.organizationId.trans h.organizationId, ?_, fun hne => ?_⟩
  · rw [h'.status]
    exact h.status
  · have hsame := h.other hne
    subst hsame
    exact h'.other hne

theorem Follows.activate {r r' : InstalledExtension} (h : Follows scope r r')
    (hscope : rowScope r = scope) :
    Follows scope r { r' with status := activated r'.status } := by
  refine ⟨h.id, h.packageName, h.organizationId, ?_, fun hne => absurd hscope hne⟩
  show activated r'.status = r.status ∨ r.status = .archived ∧ activated r'.status = .active
  rcases h.status with hs | ⟨hold, hnew⟩
  · rw [hs]
    cases hr : r.status with
    | active | locked => exact .inl rfl
    | archived => exact .inr ⟨rfl, rfl⟩
  · rw [hnew]
    exact .inr ⟨hold, rfl⟩

/-- Archived, or live and healthy. -/
def Protected (start : World) (r : InstalledExtension) : Prop :=
  ¬ NonFinalized start.registry r

/-- Every protected row is still there. -/
def Survives (start : World) (scope : Scope) (Q : InstalledExtension → InstalledExtension → Prop)
    (w : World) : Prop :=
  ∀ r ∈ start.registry.table.rows, Protected start r →
    ∃ r' ∈ w.registry.table.rows, Follows scope r r' ∧ Q r r'

variable {Q Q' : InstalledExtension → InstalledExtension → Prop}

theorem Survives.table (h : Survives start scope Q w)
    (htable : w'.registry.table = w.registry.table) : Survives start scope Q w' := by
  rw [Survives, htable]
  exact h

theorem Survives.dropped (h : Survives start scope Q w) (hd : Dropped id w w')
    (hne : ∀ r ∈ start.registry.table.rows, Protected start r → r.id ≠ id) :
    Survives start scope Q w' := by
  intro r hr hp
  obtain ⟨r', hr', hf, hq⟩ := h r hr hp
  rcases hd.2 with heq | heq
  · rw [heq]
    exact ⟨r', hr', hf, hq⟩
  refine ⟨r', ?_, hf, hq⟩
  rw [heq]
  refine List.mem_filter.mpr ⟨hr', decide_eq_true ?_⟩
  rw [hf.id]
  exact hne r hr hp

theorem Survives.altered (h : Survives start scope Q w)
    (ha : RowsAltered scope w.registry.table w'.registry.table)
    (hQ : ∀ r r' r'', r ∈ start.registry.table.rows → r' ∈ w.registry.table.rows →
      r'' ∈ w'.registry.table.rows → Follows scope r r' → Q r r' →
      ExtRegistry.Altered scope r' r'' → Q' r r'') : Survives start scope Q' w' := by
  intro r hr hp
  obtain ⟨r', hr', hf, hq⟩ := h r hr hp
  obtain ⟨g, hg, halt⟩ := ha
  have hmem : g r' ∈ w'.registry.table.rows := by
    rw [hg]
    exact List.mem_map_of_mem hr'
  exact ⟨g r', hmem, hf.altered (halt r' hr'), hQ r r' (g r') hr hr' hmem hf hq (halt r' hr')⟩

end ExtDispatch
