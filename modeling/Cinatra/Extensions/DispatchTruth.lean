import Cinatra.Extensions.DispatchRows

/-! # DispatchTruth — what a dispatch reports

    Until the handler runs only canonical rows of the scope are written
    (`sync_spec`).  From there on a dispatch that throws has dropped no protected
    row; the previous source is back unless the new version was committed; and a row
    the dispatch created is cleared.  A connector's success is a finalized install
    of a live row (`dispatch_truthful`). -/

namespace ExtDispatch

open Process RowTable ExtCanonical ExtClosure ExtInstallOps
open ExtWorkflowSaga (SagaError Provenance truthy)
open ExtRegistry (RegistryHost InstallPipelineInput InstallPipelineResult CanonicalTable
  pickSingleActiveRow registryRun isOk RowsAltered currentSource)

variable {host : DispatchHost} {drawn : Drawn} {start w w' : World} {scope : Scope}
  {req : Request} {f : Answer} {id : String}

/-! ## Ensuring the row -/

/-- The journal and what the pipeline tells are as they were. -/
structure Quiet (start w : World) : Prop where
  journal : w.registry.journal = start.registry.journal
  events : w.registry.events = start.registry.events
  log : w.registry.log = start.registry.log

/-- The rows of the start, some of the scope activated. -/
def Mapped (start : World) (scope : Scope) (w : World) : Prop :=
  ∃ g, w.registry.table.rows = start.registry.table.rows.map g ∧
    ∀ r ∈ start.registry.table.rows, Follows scope r (g r) ∧ (g r).source = r.source

/-- Nothing but rows of the scope was activated. -/
structure Before (start : World) (scope : Scope) (w : World) : Prop where
  quiet : Quiet start w
  rows : Mapped start scope w

theorem Before.refl (start : World) (scope : Scope) : Before start scope start :=
  ⟨⟨rfl, rfl, rfl⟩, id, (List.map_id _).symm, fun r _ => ⟨Follows.refl scope r, rfl⟩⟩

theorem Before.read (h : Before start scope w) (hread : Read w w') : Before start scope w' := by
  have hq := h.quiet
  refine ⟨⟨?_, ?_, ?_⟩, ?_⟩
  · rw [hread.registry, hq.journal]
  · rw [hread.registry, hq.events]
  · rw [hread.registry, hq.log]
  · rw [Mapped, hread.registry]
    exact h.rows

/-- The source is untouched. -/
def Unmoved (r r' : InstalledExtension) : Prop := r'.source = r.source

theorem Before.survives (h : Before start scope w) : Survives start scope Unmoved w := by
  obtain ⟨g, hg, hf⟩ := h.rows
  intro r hr _
  refine ⟨g r, ?_, (hf r hr).1, (hf r hr).2⟩
  rw [hg]
  exact List.mem_map_of_mem hr

theorem Before.absent (h : Before start scope w)
    (hnew : ∀ r ∈ start.registry.table.rows, r.id ≠ id) :
    ∀ r ∈ w.registry.table.rows, r.id ≠ id := by
  obtain ⟨g, hg, hf⟩ := h.rows
  intro r hr
  rw [hg] at hr
  obtain ⟨r₀, h₀, rfl⟩ := List.mem_map.mp hr
  rw [(hf r₀ h₀).1.id]
  exact hnew r₀ h₀

theorem activateRow_ok {t t' : CanonicalTable} (h : ExtDispatch.activateRow t id = .ok t') :
    ∃ found, t.rows.find? (fun r => r.id = id) = some found ∧
      t' = setStatus t id (activated found.status) := by
  rw [ExtDispatch.activateRow] at h
  split at h
  · cases h
  · rename_i found hfind
    exact ⟨found, hfind, (Except.ok.inj h).symm⟩

variable {row : InstalledExtension}

theorem Mapped.setStatus {found : InstalledExtension} (h : Mapped start scope w)
    (hrow : row ∈ start.registry.table.rows) (hscope : rowScope row = scope)
    (hfind : w.registry.table.rows.find? (fun r => r.id = row.id) = some found)
    (htable : w'.registry.table =
      ExtDispatch.setStatus w.registry.table row.id (activated found.status)) :
    Mapped start scope w' := by
  obtain ⟨g, hg, hf⟩ := h
  refine ⟨fun r => if (g r).id = row.id then { g r with status := activated (g r).status } else g r,
    ?_, fun r hr => ?_⟩
  · rw [htable]
    show updateWhere (fun r => r.id = row.id) _ w.registry.table.rows = _
    rw [updateWhere, hg, List.map_map]
    refine List.map_congr_left fun r hr => ?_
    have hmem : g r ∈ w.registry.table.rows := by
      rw [hg]
      exact List.mem_map_of_mem hr
    show (if decide ((g r).id = row.id) = true then _ else g r) = _
    by_cases hid : (g r).id = row.id
    · rw [if_pos (decide_eq_true hid), if_pos hid, eq_of_find hfind hmem hid]
    · rw [if_neg (fun hd => hid (of_decide_eq_true hd)), if_neg hid]
  · dsimp only
    by_cases hid : (g r).id = row.id
    · have hsame : r = row := by
        rw [(hf r hr).1.id] at hid
        exact eq_of_key start.registry.table.keyed hr hrow hid
      have hat : rowScope r = scope := by
        rw [hsame]
        exact hscope
      rw [if_pos hid]
      exact ⟨(hf r hr).1.activate hat, (hf r hr).2⟩
    · rw [if_neg hid]
      exact hf r hr

theorem Before.activateRow (h : Before start scope w)
    (hrow : row ∈ start.registry.table.rows) (hscope : rowScope row = scope) :
    Before start scope (answer host drawn f (.activateRow row.id) w).2 := by
  obtain ⟨hsub, -, -, hregistry⟩ := answer_cases host drawn f (.activateRow row.id) w
  rcases hregistry with hsame | hserved
  · exact h.read ⟨hsame, hsub⟩
  have hserved : (answer host drawn f (.activateRow row.id) w).2.registry =
      (tableStatement w.registry (ExtDispatch.activateRow w.registry.table row.id)).2 := hserved
  cases hact : ExtDispatch.activateRow w.registry.table row.id with
  | error err =>
    rw [hact] at hserved
    exact h.read ⟨hserved, hsub⟩
  | ok t =>
    rw [hact] at hserved
    obtain ⟨found, hfind, rfl⟩ := activateRow_ok hact
    refine ⟨⟨?_, ?_, ?_⟩, h.rows.setStatus hrow hscope hfind ?_⟩
    · exact (congrArg ExtRegistry.World.journal hserved).trans h.quiet.journal
    · exact (congrArg ExtRegistry.World.events hserved).trans h.quiet.events
    · exact (congrArg ExtRegistry.World.log hserved).trans h.quiet.log
    · exact congrArg ExtRegistry.World.table hserved

theorem attempt_spec (c : Call) : Ends host drawn (perform c : P c.Reply).attempt
      (Post (fun r w' => ∃ f, r = (answer host drawn f c w).1 ∧ w' = (answer host drawn f c w).2)
        (fun _ _ => False)) w :=
  Spec.attempt ⟨trivial, fun f => ⟨f, rfl, rfl⟩⟩

theorem reactivate_spec (existing : List InstalledExtension)
    (hin : ∀ r ∈ existing, r ∈ start.registry.table.rows ∧ rowScope r = scope)
    (reactivated : Option String) (h : Before start scope w) :
    Ends host drawn (reactivate existing reactivated)
      (Post (fun o w' => Before start scope w' ∧ w.threw ⊆ w'.threw ∧
          (o = none → reactivated = none ∧
            ∀ r ∈ existing, r.status = .archived → Call.activateRow r.id ∈ w'.threw))
        (fun _ _ => False)) w := by
  induction existing generalizing w reactivated with
  | nil =>
    exact ⟨h, fun _ hc => hc, fun ho => ⟨ho, fun r hr _ => absurd hr List.not_mem_nil⟩⟩
  | cons row rest ih =>
    have hrest : ∀ r ∈ rest, r ∈ start.registry.table.rows ∧ rowScope r = scope :=
      fun r hr => hin r (.tail _ hr)
    rw [reactivate]
    by_cases harchived : row.status = .archived
    · rw [if_pos harchived]
      obtain ⟨hrow, hscope⟩ := hin row (List.mem_cons_self ..)
      refine Spec.post_bind (attempt_spec (.activateRow row.id)) ?_
      rintro r w₁ ⟨f, rfl, rfl⟩
      have hnext : Before start scope (answer host drawn f (.activateRow row.id) w).2 :=
        h.activateRow hrow hscope
      obtain ⟨hsub, hthrew, -⟩ := answer_cases host drawn f (.activateRow row.id) w
      refine Spec.mono (ih hrest _ hnext) fun r w₁ hr => ?_
      cases r with
      | error err => exact hr.elim
      | ok o =>
        obtain ⟨hbefore, hsub₁, hnone⟩ := hr
        refine ⟨hbefore, fun c hc => hsub₁ (hsub hc), fun ho => ?_⟩
        obtain ⟨hacc, hall⟩ := hnone ho
        split at hacc
        · cases hacc
        rename_i err herr
        refine ⟨hacc, fun r hr hstatus => ?_⟩
        rcases List.mem_cons.mp hr with rfl | hr
        · refine hsub₁ (hthrew ?_)
          rw [herr]
          rfl
        · exact hall r hr hstatus
    · rw [if_neg harchived]
      refine Spec.mono (ih hrest reactivated h) fun r w₁ hr => ?_
      cases r with
      | error err => exact hr.elim
      | ok o =>
        obtain ⟨hbefore, hsub, hnone⟩ := hr
        refine ⟨hbefore, hsub, fun ho => ⟨(hnone ho).1, fun r hr hstatus => ?_⟩⟩
        rcases List.mem_cons.mp hr with rfl | hr
        · exact absurd hstatus harchived
        · exact (hnone ho).2 r hr hstatus

theorem findBroken_spec (existing : List InstalledExtension) :
    Ends host drawn (findBroken existing) (Post (fun o w' => Read w w' ∧ ∀ id, o = some id →
          ∃ r ∈ existing, r.id = id ∧ NonFinalized w.registry r) (fun _ _ => False)) w := by
  induction existing generalizing w with
  | nil => exact ⟨Read.refl w, nofun⟩
  | cons row rest ih =>
    refine Spec.post_bind (aware_spec row) ?_
    rintro b w₁ ⟨hread, htrue, -⟩
    cases b with
    | true =>
      refine ⟨hread, fun id hid => ⟨row, List.mem_cons_self .., Option.some.inj hid, htrue rfl⟩⟩
    | false =>
      refine Spec.mono ih fun r w₂ hr => ?_
      cases r with
      | error err => exact hr.elim
      | ok o =>
        obtain ⟨hread₂, hbroken⟩ := hr
        refine ⟨hread.trans hread₂, fun id hid => ?_⟩
        obtain ⟨r, hr, hrid, hnon⟩ := hbroken id hid
        rw [hread.registry] at hnon
        exact ⟨r, .tail _ hr, hrid, hnon⟩

/-- What the dispatch may drop is not protected. -/
def Spares (start : World) (e : CanonicalInstallEnsure) : Prop :=
  e.ownsRollback = true → ∀ id, e.rowId = some id →
    ∀ r ∈ start.registry.table.rows, Protected start r → r.id ≠ id

/-- No row of that id, or a call on a placeholder threw. -/
def Untracked (id : String) (w : World) : Prop :=
  (∀ r ∈ w.registry.table.rows, r.id ≠ id) ∨ StepFailed w

/-- A row could not be activated. -/
def NotReactivated (w : World) : Prop := ∃ id, Call.activateRow id ∈ w.threw

/-- The row is ensured, and nothing else is written. -/
structure Ensured (start : World) (req : Request) (drawn : Drawn) (e : CanonicalInstallEnsure)
    (w : World) : Prop where
  quiet : Quiet start w
  survives : Survives start req.scope Unmoved w
  spares : Spares start e
  tracked : Untracked drawn.rowId w ∨ e.ownsRollback = true ∧ e.rowId = some drawn.rowId
  piped : usesActivateHook req.kind = true → isVerdaccioBackedRef req.ref = true →
    e.needsPipeline = true ∨ NotReactivated w

theorem nonFinalized_congr {u v : ExtRegistry.World} (h : u.journal = v.journal)
    (row : InstalledExtension) : NonFinalized u row ↔ NonFinalized v row := by
  rw [NonFinalized, NonFinalized, h]

variable {existing : List InstalledExtension}

theorem archived_of_not_live (hne : existing ≠ [])
    (hnone : existing.find? InstalledExtension.present = none) :
    ∃ r ∈ existing, r.status = .archived := by
  obtain ⟨r, hr⟩ := List.exists_mem_of_ne_nil existing hne
  have hdead := List.find?_eq_none.mp hnone r hr
  refine ⟨r, hr, ?_⟩
  rw [InstalledExtension.present] at hdead
  cases hs : r.status with
  | archived => rfl
  | active | locked => simp [hs] at hdead

theorem ensureExisting_spec (hne : existing ≠ [])
    (hnew : ∀ r ∈ start.registry.table.rows, r.id ≠ drawn.rowId)
    (hin : ∀ r ∈ existing, r ∈ start.registry.table.rows ∧ rowScope r = req.scope)
    (h : Before start req.scope w) : Ends host drawn (ensureExisting req existing)
      (Post (fun e w' => Ensured start req drawn e w') (fun _ _ => False)) w := by
  refine Spec.post_bind (reactivate_spec existing hin none h) ?_
  rintro reactivated w₁ ⟨h₁, -, hnone⟩
  refine Spec.post_bind (findBroken_spec existing) ?_
  rintro broken w₂ ⟨hread, hbroken⟩
  have h₂ : Before start req.scope w₂ := h₁.read hread
  have hensured : ∀ e : CanonicalInstallEnsure, Spares start e →
      (usesActivateHook req.kind = true → e.needsPipeline = true ∨ NotReactivated w₂) →
      Ensured start req drawn e w₂ := fun e hspares hpiped =>
    ⟨h₂.quiet, h₂.survives, hspares, .inl (.inl (h₂.absent hnew)), fun hk _ => hpiped hk⟩
  cases broken with
  | some id =>
    refine hensured _ (fun _ i hi r hr hp heq => ?_) fun _ => .inl rfl
    obtain ⟨b, hb, hbid, hnon⟩ := hbroken id rfl
    -- a broken row was never finalized at the start either
    have hsame : r = b := by
      refine eq_of_key start.registry.table.keyed hr (hin b hb).1 ?_
      rw [heq, hbid]
      exact (Option.some.inj hi).symm
    rw [hsame] at hp
    exact hp ((nonFinalized_congr h₁.quiet.journal b).mp hnon)
  | none =>
    cases reactivated with
    | some id => exact hensured _ nofun fun _ => .inl rfl
    | none =>
      dsimp only
      cases hlive : existing.find? InstalledExtension.present with
      | some live =>
        show Spec _ _ (if (decide (req.op = .update) || usesActivateHook req.kind) = true
          then _ else _) _ w₂
        split
        · exact hensured _ nofun fun _ => .inl rfl
        · rename_i hnot
          refine hensured _ nofun fun hk => absurd ?_ hnot
          rw [hk, Bool.or_true]
      | none =>
        refine hensured _ nofun fun _ => .inr ?_
        obtain ⟨r, hr, hstatus⟩ := archived_of_not_live hne hlive
        exact ⟨r.id, hread.threw ((hnone rfl).2 r hr hstatus)⟩

/-- No row was ensured. -/
structure NotEnsured (start : World) (req : Request) (drawn : Drawn) (w : World) : Prop where
  quiet : Quiet start w
  survives : Survives start req.scope Unmoved w
  untracked : Untracked drawn.rowId w

/-- A write to the canonical rows alone, which keeps those that are there. -/
theorem Before.grown {rows : List InstalledExtension} (h : Before start scope w)
    (hregistry : w'.registry = w.registry ∨ ∃ t : CanonicalTable,
      t.rows = w.registry.table.rows ++ rows ∧ w'.registry = { w.registry with table := t }) :
    Quiet start w' ∧ Survives start scope Unmoved w' := by
  rcases hregistry with heq | ⟨t, ht, heq⟩
  · refine ⟨⟨?_, ?_, ?_⟩, h.survives.table (congrArg ExtRegistry.World.table heq)⟩
    · rw [heq, h.quiet.journal]
    · rw [heq, h.quiet.events]
    · rw [heq, h.quiet.log]
  · refine ⟨⟨?_, ?_, ?_⟩, fun r hr hp => ?_⟩
    · rw [heq]
      exact h.quiet.journal
    · rw [heq]
      exact h.quiet.events
    · rw [heq]
      exact h.quiet.log
    · obtain ⟨r', hr', hf⟩ := h.survives r hr hp
      refine ⟨r', ?_, hf⟩
      rw [heq]
      rw [ht]
      exact List.mem_append_left _ hr'

theorem insertRow_ok {t t' : CanonicalTable}
    (h : insertRow t row = .ok t') : t'.rows = t.rows ++ [row] := by
  rw [insertRow] at h
  split at h
  · cases h
  · rw [← Except.ok.inj h]

theorem insertion_cases (row : InstalledExtension) :
    (answer host drawn f (.insertInstalledExtension row) w).2.registry = w.registry ∨
      ∃ t : CanonicalTable, t.rows = w.registry.table.rows ++ [row] ∧
        (answer host drawn f (.insertInstalledExtension row) w).2.registry =
          { w.registry with table := t } := by
  obtain ⟨-, -, -, hregistry⟩ := answer_cases host drawn f (.insertInstalledExtension row) w
  rcases hregistry with hsame | hserved
  · exact .inl hsame
  have hserved : (answer host drawn f (.insertInstalledExtension row) w).2.registry =
      (tableStatement w.registry (insertRow w.registry.table row)).2 := hserved
  cases hins : insertRow w.registry.table row with
  | error err =>
    rw [hins] at hserved
    exact .inl hserved
  | ok t =>
    rw [hins] at hserved
    exact .inr ⟨t, insertRow_ok hins, hserved⟩

theorem ensureRow_spec {all : List InstalledExtension}
    (hnew : ∀ r ∈ start.registry.table.rows, r.id ≠ drawn.rowId)
    (hall : ∀ r ∈ all, r ∈ start.registry.table.rows ∧ r.packageName = req.ref.packageName)
    (h : Before start req.scope w) :
    Ends host drawn (ensureRow host req drawn all) (Post (fun e w' => Ensured start req drawn e w')
        (fun _ => NotEnsured start req drawn)) w := by
  have hstay : NotEnsured start req drawn w :=
    ⟨h.quiet, h.survives, .inl (h.absent hnew)⟩
  rw [ensureRow]
  split
  · rename_i hne
    refine Spec.mono (ensureExisting_spec hne hnew (fun r hr => ?_) h) fun r w₁ hr => ?_
    · obtain ⟨hr, horg⟩ := List.mem_filter.mp hr
      refine ⟨(hall r hr).1, ?_⟩
      rw [rowScope, (hall r hr).2, of_decide_eq_true horg]
      rfl
    · cases r with
      | ok e => exact hr
      | error err => exact hr.elim
  · refine Spec.post_bind (M := fun _ w' =>
      Ensured start req drawn ⟨true, some drawn.rowId, true⟩ w') ?_ fun _ w₁ h₁ => h₁
    rw [installExtensionManifest]
    split
    · exact hstay
    by_cases hvalid : validateExtensionSource (placeholderRow host req drawn).source = []
    · rw [if_pos hvalid]
      refine ⟨trivial, fun f => ?_⟩
      obtain ⟨hquiet, hsurvives⟩ := h.grown (insertion_cases (placeholderRow host req drawn))
      obtain ⟨-, hthrew, -⟩ := answer_cases host drawn f
        (.insertInstalledExtension (placeholderRow host req drawn)) w
      show Post _ _
        (answer host drawn f (.insertInstalledExtension (placeholderRow host req drawn)) w).1
        (answer host drawn f (.insertInstalledExtension (placeholderRow host req drawn)) w).2
      cases hr : (answer host drawn f
          (.insertInstalledExtension (placeholderRow host req drawn)) w).1 with
      | error err =>
        rw [hr] at hthrew
        exact ⟨hquiet, hsurvives, .inr ⟨_, hthrew rfl, rfl⟩⟩
      | ok _ =>
        refine ⟨hquiet, hsurvives, fun _ i hi r hrow _ => ?_, .inr ⟨rfl, rfl⟩,
          fun _ _ => .inl rfl⟩
        rw [← Option.some.inj hi]
        exact hnew r hrow
    · rw [if_neg hvalid]
      exact hstay

theorem sync_spec (hnew : ∀ r ∈ start.registry.table.rows, r.id ≠ drawn.rowId)
    (h : Before start req.scope w) (htable : w.registry.table = start.registry.table) :
    Ends host drawn (syncCanonicalManifestInstall host req drawn)
      (Post (fun e w' => Ensured start req drawn e w')
        (fun _ => NotEnsured start req drawn)) w := by
  rw [syncCanonicalManifestInstall]
  split
  · rename_i hnot
    refine ⟨h.quiet, h.survives, nofun, .inl (.inl (h.absent hnew)), fun _ hbacked => ?_⟩
    rw [hbacked] at hnot
    cases hnot
  · have hinner : Ends host drawn (do
        let all : List InstalledExtension ←
          tryCatch (perform (Call.readInstalledExtensionsByPackageName req.ref.packageName))
            (fun err => throwErr (.storeUnreachable err))
        ensureRow host req drawn all)
        (Post (fun e w' => Ensured start req drawn e w')
          (fun _ => NotEnsured start req drawn)) w := by
      refine Spec.bind (Spec.tryCatch (Spec.mono (read_spec rfl) ?_))
      intro r w₁ hr
      cases r with
      | error err =>
        have h₁ := h.read hr.1
        exact ⟨h₁.quiet, h₁.survives, .inl (h₁.absent hnew)⟩
      | ok all =>
        obtain ⟨hread, f, hserved⟩ := hr
        have hall : ExtRegistry.readInstalledExtensionsByPackageName w.registry.table.rows
            req.ref.packageName = all := Except.ok.inj hserved
        refine ensureRow_spec hnew (fun r hr => ?_) (h.read hread)
        rw [← hall, htable] at hr
        obtain ⟨hr, hpackage⟩ := List.mem_filter.mp hr
        exact ⟨hr, of_decide_eq_true hpackage⟩
    refine Spec.tryCatch (Spec.mono hinner ?_)
    intro r w₁ hr
    cases r with
    | ok e => exact hr
    | error err =>
      dsimp only
      split
      · exact hr
      · rename_i hkind
        exact ⟨hr.quiet, hr.survives, nofun, .inl hr.untracked, fun hk => absurd hk hkind⟩

/-! ## Unwinding a dispatch -/

/-- The scope's install is finalized. -/
def Finalized (req : Request) (w : World) : Prop :=
  finalizedOps w.registry.journal req.scope ≠ []

/-- No row the dispatch created is left as a placeholder. -/
def Settled (req : Request) (drawn : Drawn) (w : World) : Prop :=
  Cleared drawn.rowId w ∨ Finalized req w

theorem Untracked.cleared (h : Untracked id w) : Cleared id w := by
  rcases h with habsent | hfailed
  · exact .inl fun r hr hid => absurd hid (habsent r hr)
  · exact .inr hfailed

theorem Untracked.dropped {dropped : String} (h : Untracked id w) (hd : Dropped dropped w w') :
    Untracked id w' := by
  rcases h with habsent | hfailed
  · refine .inl fun r hr => ?_
    rcases hd.2 with heq | heq
    · rw [heq] at hr
      exact habsent r hr
    · rw [heq] at hr
      exact habsent r (List.mem_filter.mp hr).1
  · exact .inr (hfailed.mono hd.1)

variable {e : CanonicalInstallEnsure} {Q Q' : InstalledExtension → InstalledExtension → Prop}

theorem Survives.mono (h : Survives start scope Q w) (hQ : ∀ r r', Q r r' → Q' r r') :
    Survives start scope Q' w := by
  intro r hr hp
  obtain ⟨r', hr', hf, hq⟩ := h r hr hp
  exact ⟨r', hr', hf, hQ r r' hq⟩

/-- **The rollback of what is owned** drops no protected row and leaves no
    placeholder. -/
theorem rollbackOwned_spec {E : DispatchError → World → Prop}
    (hsurvives : Survives start scope Q w) (hspares : Spares start e)
    (htracked : Untracked id w ∨ e.ownsRollback = true ∧ e.rowId = some id) :
    Ends host drawn (rollbackOwned e) (Post (fun _ w' => Survives start scope Q w' ∧ Cleared id w' ∧
        w'.registry.events = w.registry.events) E) w := by
  obtain ⟨needsPipeline, rowId, ownsRollback⟩ := e
  have hnothing : Untracked id w → Survives start scope Q w ∧ Cleared id w ∧
      w.registry.events = w.registry.events := fun h => ⟨hsurvives, h.cleared, rfl⟩
  cases ownsRollback with
  | false => exact hnothing (htracked.resolve_right fun h => Bool.false_ne_true h.1)
  | true =>
    cases rowId with
    | none => exact hnothing (htracked.resolve_right fun h => Option.some_ne_none _ h.2.symm)
    | some rowId =>
      refine Spec.mono (rollback_spec (E := E) rowId) fun r w₁ hr => ?_
      cases r with
      | error err => exact hr
      | ok _ =>
        obtain ⟨hdropped, hcleared⟩ := hr
        refine ⟨hsurvives.dropped hdropped fun r hr hp => hspares rfl rowId rfl r hr hp, ?_, ?_⟩
        · rcases htracked with huntracked | ⟨-, hid⟩
          · exact (huntracked.dropped hdropped).cleared
          · rw [← Option.some.inj hid]
            exact hcleared
        · rcases hdropped.2 with heq | heq
          · rw [heq]
          · rw [heq]

/-! ## The activate hook -/

/-- The hook reports a new version as committed. -/
def Committed (result : ExtensionActivateResult) : Prop :=
  result.finalized = some true ∧ result.rolledBack ≠ some true

/-- The previous source of a live row with a finalized install, where it can be put
    back, is back; or it was told that it is not. -/
def SourceBack (host : DispatchHost) (start : World) (req : Request) (w : World)
    (r r' : InstalledExtension) : Prop :=
  r.present = true → rowScope r = req.scope → finalizedOps start.registry.journal req.scope ≠ [] →
    ExtRegistry.Restorable host.toRegistryHost (currentSource r.source) →
    currentSource r'.source = currentSource r.source ∨ ExtRegistry.Told w.registry .provenance

theorem sourceBack_of_unmoved (r r' : InstalledExtension) (h : Unmoved r r') :
    SourceBack host start req w r r' := by
  intro _ _ _ _
  have hsame : r'.source = r.source := h
  rw [hsame]
  exact .inl rfl

/-- The drawn op id is new to the journal, whatever the version. -/
def FreshOp (start : World) (req : Request) (drawn : Drawn) : Prop :=
  ∀ op ∈ start.registry.journal.rows, ∀ version : String,
    op.installOpId ≠ req.ref.packageName ++ "@" ++ version ++ ":" ++ drawn.op

/-- What a dispatch finds after the hook. -/
structure Fired (host : DispatchHost) (start : World) (req : Request) (drawn : Drawn)
    (e : CanonicalInstallEnsure) (result : ExtensionActivateResult) (w : World) : Prop where
  survives : Survives start req.scope
    (fun r r' => Committed result ∨ SourceBack host start req w r r') w
  spares : Spares start e
  tracked : Untracked drawn.rowId w ∨ e.ownsRollback = true ∧ e.rowId = some drawn.rowId
  finalized : result.finalized = some true →
    Finalized req w ∧ (w.registry.table.target req.scope).isSome = true

theorem Ensured.read (h : Ensured start req drawn e w) (hread : Read w w') :
    Ensured start req drawn e w' := by
  refine ⟨⟨?_, ?_, ?_⟩, h.survives.table ?_, h.spares, ?_, fun hk hv => ?_⟩
  · rw [hread.registry, h.quiet.journal]
  · rw [hread.registry, h.quiet.events]
  · rw [hread.registry, h.quiet.log]
  · rw [hread.registry]
  · rcases h.tracked with (habsent | hfailed) | howned
    · refine .inl (.inl ?_)
      rw [hread.registry]
      exact habsent
    · exact .inl (.inr (hfailed.mono hread.threw))
    · exact .inr howned
  · rcases h.piped hk hv with hneeds | ⟨id, hid⟩
    · exact .inl hneeds
    · exact .inr ⟨id, hread.threw hid⟩

variable {result : ExtensionActivateResult}

theorem Ensured.fired (h : Ensured start req drawn e w)
    (hread : Read w w') (hresult : result.finalized ≠ some true) :
    Fired host start req drawn e result w' := by
  have h' : Ensured start req drawn e w' := h.read hread
  exact ⟨h'.survives.mono fun r r' hq => .inr (sourceBack_of_unmoved r r' hq), h'.spares,
    h'.tracked, fun hf => absurd hf hresult⟩

theorem Ensured.piped_run {input : InstallPipelineInput} {s : Nat → ExtRegistry.Answer}
    (h : Ensured start req drawn e w) (hscope : input.scope = req.scope)
    (hfresh : ∀ op ∈ start.registry.journal.rows, op.installOpId ≠ input.opId drawn.op)
    (hquiet : start.registry.events = []) (hlog : start.registry.log = [])
    (htarget : (w.registry.table.target req.scope).isSome = true) (hregistry : w'.registry =
      (registryRun host.toRegistryHost input drawn.op s w.registry).2) (hthrew : w.threw ⊆ w'.threw) :
    Fired host start req drawn e
      (reported (registryRun host.toRegistryHost input drawn.op s w.registry).1) w' := by
  have hfreshAt : ∀ op ∈ w.registry.journal.rows, op.installOpId ≠ input.opId drawn.op := by
    rw [h.quiet.journal]
    exact hfresh
  have haltered : RowsAltered req.scope w.registry.table w'.registry.table := by
    rw [hregistry, ← hscope]
    exact ExtRegistry.registryRun_rows host.toRegistryHost input drawn.op s w.registry
  have htarget' : (w'.registry.table.target req.scope).isSome = true :=
    haltered.target.trans htarget
  refine ⟨h.survives.altered haltered fun r r' r'' hr hr' hr'' hf hq ha => ?_, h.spares, ?_,
    fun hfinal => ⟨?_, htarget'⟩⟩
  · by_cases hback : ExtRegistry.Unwound
        (registryRun host.toRegistryHost input drawn.op s w.registry).1
    · refine .inr fun hpresent hat hprior hsource => ?_
      -- the row is the single live one, before the run and after it
      obtain ⟨row, hrow⟩ := Option.isSome_iff_exists.mp htarget
      obtain ⟨row', hrow'⟩ := Option.isSome_iff_exists.mp htarget'
      have hlive : r'.present = true := by
        rw [InstalledExtension.present] at hpresent ⊢
        rcases hf.status with hs | ⟨hs, -⟩
        · rw [hs]
          exact hpresent
        · rw [hs] at hpresent
          cases hpresent
      have hr'row : r' = row :=
        (ExtRegistry.target_some hrow).2.2.2 r' hr' (hf.scope_eq.trans hat) hlive
      have hr''row : r'' = row' := by
        refine (ExtRegistry.target_some hrow').2.2.2 r'' hr'' ?_ ?_
        · rw [ha.packageName, ha.organizationId]
          exact hf.scope_eq.trans hat
        · rw [InstalledExtension.present, ha.status]
          exact hlive
      have hbefore : w.registry.source req.scope = currentSource r.source := by
        rw [ExtRegistry.World.source, hrow, ← hr'row]
        show currentSource r'.source = _
        rw [hq]
      have hafter : w'.registry.source req.scope = currentSource r''.source := by
        rw [ExtRegistry.World.source, hrow', ← hr''row]
        rfl
      obtain ⟨prior, hprior⟩ := List.exists_mem_of_ne_nil _ hprior
      rw [← h.quiet.journal, ← hscope] at hprior
      have hrestorable : ExtRegistry.Restorable host.toRegistryHost
          (w.registry.source input.scope) := by
        rw [hscope, hbefore]
        exact hsource
      have hout := ExtRegistry.registryRun_source hprior hfreshAt (h.quiet.events.trans hquiet)
        (h.quiet.log.trans hlog) hrestorable hback
      rw [← hregistry, hscope, hafter, hbefore] at hout
      exact hout
    · cases hrun : (registryRun host.toRegistryHost input drawn.op s w.registry).1 with
      | error err =>
        rw [hrun] at hback
        exact absurd trivial hback
      | ok res =>
        rw [hrun] at hback
        have hno : ¬ res.rolledBack = true := hback
        refine .inl ⟨rfl, ?_⟩
        show (if res.rolledBack = true then some true else none) ≠ some true
        rw [if_neg hno]
        exact (Option.some_ne_none true).symm
  · rcases h.tracked with (habsent | hfailed) | howned
    · refine .inl (.inl fun r hr => ?_)
      obtain ⟨g, hg, halt⟩ := haltered
      rw [hg] at hr
      obtain ⟨r₀, h₀, rfl⟩ := List.mem_map.mp hr
      rw [(halt r₀ h₀).id]
      exact habsent r₀ h₀
    · exact .inl (.inr (hfailed.mono hthrew))
    · exact .inr howned
  · cases hrun : (registryRun host.toRegistryHost input drawn.op s w.registry).1 with
    | error err =>
      rw [hrun] at hfinal
      cases hfinal
    | ok res =>
      have hdone := ExtRegistry.registryRun_finalized hfreshAt hrun
      rw [Finalized, hregistry, ← hscope]
      exact hdone

theorem fire_spec (hop : FreshOp start req drawn) (hquiet : start.registry.events = [])
    (hlog : start.registry.log = []) (h : Ensured start req drawn e w) :
    Ends host drawn (fireExtensionActivate host req)
      (Post (fun result w' => Fired host start req drawn e result w' ∧ w.threw ⊆ w'.threw)
        (fun _ _ => False)) w := by
  rw [fireExtensionActivate]
  split
  · exact ⟨h.fired (Read.refl w) nofun, fun _ hc => hc⟩
  refine Spec.tryCatch (Spec.bind (Spec.mono (read_spec rfl) ?_))
  intro r w₁ hr
  cases r with
  | error err => exact ⟨h.fired hr.1 nofun, hr.1.threw⟩
  | ok rows =>
    obtain ⟨hread, f, hserved⟩ := hr
    have hrows : ExtRegistry.readInstalledExtensionsByPackageName w.registry.table.rows
        req.ref.packageName = rows := Except.ok.inj hserved
    have hpick : pickSingleActiveRow rows req.orgId = w.registry.table.target req.scope := by
      rw [← hrows]
      rfl
    dsimp only
    rw [hpick]
    cases htarget : w.registry.table.target req.scope with
    | none => exact ⟨h.fired hread nofun, hread.threw⟩
    | some row =>
      dsimp only
      cases row.source with
      | github => exact ⟨h.fired hread nofun, hread.threw⟩
      | «local» => exact ⟨h.fired hread nofun, hread.threw⟩
      | verdaccio v =>
        refine ⟨trivial, fun f => ⟨?_, hread.threw⟩⟩
        refine (h.read hread).piped_run rfl (fun op hmem => hop op hmem _) hquiet hlog ?_ rfl
          (fun _ hc => hc)
        rw [hread.registry, htarget]
        rfl

/-- The dispatch reports a version that was committed and not activated. -/
def CommittedNotActivated : DispatchError → Prop
  | .finalizedNotActivated _ _ _ => True
  | _ => False

/-- What a dispatch that throws leaves. -/
structure Thrown (host : DispatchHost) (start : World) (req : Request) (drawn : Drawn)
    (err : DispatchError) (w : World) : Prop where
  survives : Survives start req.scope
    (fun r r' => CommittedNotActivated err ∨ SourceBack host start req w r r') w
  settled : Settled req drawn w

theorem SourceBack.events {r r' : InstalledExtension} (h : SourceBack host start req w r r')
    (hevents : w'.registry.events = w.registry.events) : SourceBack host start req w' r r' := by
  intro hpresent hat hprior hsource
  refine (h hpresent hat hprior hsource).imp_right fun htold => ?_
  exact (ExtRegistry.told_of_events hevents _).mpr htold

theorem settle_spec (h : Fired host start req drawn e result w) :
    Ends host drawn (settle req e result)
      (Post (fun _ w' => Finalized req w' ∧ (w'.registry.table.target req.scope).isSome = true ∧
          w'.threw = w.threw) (fun err w' => Thrown host start req drawn err w')) w := by
  have hback : result.finalized ≠ some true →
      Survives start req.scope (SourceBack host start req w) w := by
    intro hnot
    exact h.survives.mono fun r r' hq => hq.resolve_left fun hc => hnot hc.1
  have hrolled : ∀ err, result.finalized ≠ some true →
      Ends host drawn (do
        rollbackOwned e
        throwErr err : P Unit)
        (Post (fun _ w' => Finalized req w' ∧
            (w'.registry.table.target req.scope).isSome = true ∧ w'.threw = w.threw)
          (fun err w' => Thrown host start req drawn err w')) w := by
    intro err hnot
    refine Spec.post_bind (rollbackOwned_spec (hback hnot) h.spares h.tracked) ?_
    rintro _ w₁ ⟨hsurvives, hcleared, hevents⟩
    exact ⟨hsurvives.mono fun r r' hq => .inr (hq.events hevents), .inl hcleared⟩
  rw [settle]
  cases hfinal : result.finalized with
  | none => exact hrolled _ (by rw [hfinal]; exact nofun)
  | some b =>
    cases b with
    | false => exact hrolled _ (by rw [hfinal]; exact nofun)
    | true =>
      obtain ⟨hdone, htarget⟩ := h.finalized hfinal
      dsimp only
      split
      · rename_i hrolledBack
        have hsurvives : ∀ err, Survives start req.scope
            (fun r r' => CommittedNotActivated err ∨ SourceBack host start req w r r') w :=
          fun err => h.survives.mono fun r r' hq =>
            .inr (hq.resolve_left fun hc => hc.2 hrolledBack)
        split
        · exact ⟨hsurvives _, .inr hdone⟩
        · exact ⟨hsurvives _, .inr hdone⟩
      · split
        · exact ⟨h.survives.mono fun _ _ _ => .inl trivial, .inr hdone⟩
        · exact ⟨hdone, htarget, rfl⟩

/-- The handler leaves the canonical rows alone, as the connectors' does. -/
def HandlerKeeps (host : DispatchHost) (req : Request) : Prop :=
  usesActivateHook req.kind = true ∨ ∀ v, (host.handled v).table = v.table

theorem gates_spec : Ends host drawn (dispatchGates host req) (fun _ => Read w) w := by
  rw [dispatchGates]
  split
  · exact Read.refl w
  split
  · exact Read.refl w
  split
  · refine Spec.bind (Spec.mono (read_spec rfl) ?_)
    intro r w₁ hr
    cases r with
    | error err => exact hr.1
    | ok rows =>
      dsimp only
      split
      · exact hr.1
      · exact hr.1
  · exact Read.refl w

theorem handler_spec (hkeeps : HandlerKeeps host req) (h : Ensured start req drawn e w) :
    Ends host drawn (runHandler req e)
      (Post (fun _ w' => usesActivateHook req.kind = true → Ensured start req drawn e w')
        (fun err w' => Thrown host start req drawn err w')) w := by
  refine Spec.tryCatch ⟨trivial, fun f => ?_⟩
  obtain ⟨hsub, -, hok, hregistry⟩ := answer_cases host drawn f (.handle req.kind req.op) w
  have hserve : (serve host drawn f w.registry (.handle req.kind req.op)).2 =
      if usesActivateHook req.kind then w.registry else host.handled w.registry := rfl
  have htable : (answer host drawn f (.handle req.kind req.op) w).2.registry.table =
      w.registry.table := by
    rcases hregistry with heq | heq
    · rw [heq]
    rw [heq, hserve]
    split
    · rfl
    · rename_i hnot
      exact hkeeps.resolve_left hnot w.registry
  have htracked : Untracked drawn.rowId (answer host drawn f (.handle req.kind req.op) w).2 ∨
      e.ownsRollback = true ∧ e.rowId = some drawn.rowId := by
    rcases h.tracked with (habsent | hfailed) | howned
    · refine .inl (.inl ?_)
      rw [htable]
      exact habsent
    · exact .inl (.inr (hfailed.mono hsub))
    · exact .inr howned
  show Spec _ _ (.done (answer host drawn f (.handle req.kind req.op) w).1) _
    (answer host drawn f (.handle req.kind req.op) w).2
  cases hr : (answer host drawn f (.handle req.kind req.op) w).1 with
  | ok _ =>
    intro hk
    refine h.read ⟨?_, hsub⟩
    rcases hregistry with heq | heq
    · exact heq
    · rw [heq, hserve, if_pos hk]
  | error err =>
    refine Spec.post_bind (rollbackOwned_spec (h.survives.table htable) h.spares htracked) ?_
    rintro _ w₁ ⟨hsurvives, hcleared, -⟩
    exact ⟨hsurvives.mono fun r r' hq => .inr (sourceBack_of_unmoved r r' hq), .inl hcleared⟩

/-- **A whole dispatch.** -/
theorem dispatch_spec (hkeeps : HandlerKeeps host req)
    (hnew : ∀ r ∈ start.registry.table.rows, r.id ≠ drawn.rowId) (hop : FreshOp start req drawn)
    (hquiet : start.registry.events = []) (hlog : start.registry.log = []) :
    Ends host drawn (runHostInstallLocked host req drawn)
      (Post (fun _ w' => usesActivateHook req.kind = true → isVerdaccioBackedRef req.ref = true →
          ¬ NotReactivated w' →
          Finalized req w' ∧ (w'.registry.table.target req.scope).isSome = true)
        (fun err w' => Thrown host start req drawn err w')) start := by
  have hthrown : ∀ {err : DispatchError} {w : World}, NotEnsured start req drawn w →
      Thrown host start req drawn err w := fun h =>
    ⟨h.survives.mono fun r r' hq => .inr (sourceBack_of_unmoved r r' hq),
      .inl h.untracked.cleared⟩
  refine Spec.bind (Spec.mono gates_spec ?_)
  intro r w₁ hread
  have h₁ : Before start req.scope w₁ := (Before.refl start req.scope).read hread
  cases r with
  | error err => exact hthrown ⟨h₁.quiet, h₁.survives, .inl (h₁.absent hnew)⟩
  | ok _ =>
    refine Spec.bind (Spec.mono (sync_spec hnew h₁
      (congrArg ExtRegistry.World.table hread.registry)) ?_)
    intro r w₂ hr
    cases r with
    | error err => exact hthrown hr
    | ok e =>
      refine Spec.post_bind (handler_spec hkeeps hr) ?_
      intro _ w₃ h₃
      split
      · rename_i hshort
        intro hk hv hactivated
        rcases (h₃ hk).piped hk hv with hneeds | hnot
        · rw [hneeds, hk] at hshort
          cases hshort
        · exact absurd hnot hactivated
      · rename_i hlong
        have hk : usesActivateHook req.kind = true := by
          cases hk : usesActivateHook req.kind with
          | true => rfl
          | false =>
            rw [hk] at hlong
            exact absurd (Bool.or_true _) hlong
        refine Spec.bind (Spec.mono (fire_spec hop hquiet hlog (h₃ hk)) ?_)
        intro r w₄ hr
        cases r with
        | error err => exact hr.elim
        | ok result =>
          refine Spec.mono (settle_spec hr.1) fun r w₅ hr => ?_
          cases r with
          | ok _ => exact fun _ _ _ => ⟨hr.1, hr.2.1⟩
          | error err => exact hr

/-! ### The handler's outcome -/

/-- A call that is not the handler's. -/
def Call.other : Call → Bool
  | .handle _ _ => false
  | _ => true

/-- No handler threw. -/
def Handled (w : World) : Prop := ∀ c ∈ w.threw, c.other = true

theorem handled_answer {c : Call} (hc : c.other = true) (h : Handled w) :
    Handled (answer host drawn f c w).2 := by
  have hone : ∀ c' ∈ w.threw ++ [c], c'.other = true := by
    intro c' hc'
    rcases List.mem_append.mp hc' with hmem | hmem
    · exact h c' hmem
    · rw [List.mem_singleton.mp hmem]
      exact hc
  rw [Handled, answer]
  cases (if c.fallible = true then f.fault else none) with
  | some fault => exact hone
  | none =>
    dsimp only
    split
    · exact h
    · exact hone

theorem aware_only (row : InstalledExtension) :
    Only (fun c => c.other = true) (isNonFinalizedLiveRowAware row) := by
  rw [isNonFinalizedLiveRowAware]
  split
  · exact only_pure _
  split
  · exact only_pure _
  · split
    · exact only_pure _
    · exact Only.bind (Only.tryCatch (only_perform rfl) fun _ => only_pure _) fun _ => only_pure _

theorem deleteNonFinalized_only (id : String) :
    Only (fun c => c.other = true) (deleteNonFinalizedCanonicalRow id) := by
  refine Only.bind (only_perform rfl) fun row => ?_
  split
  · exact only_pure _
  · refine Only.bind (aware_only _) fun b => ?_
    split
    · exact only_throwErr _
    · exact only_perform rfl

theorem rollbackOwned_only (e : CanonicalInstallEnsure) :
    Only (fun c => c.other = true) (rollbackOwned e) := by
  rw [rollbackOwned]
  split
  · refine Only.swallow (Only.bind (only_perform rfl) fun row => ?_)
    split
    · exact only_pure _
    · refine Only.bind (aware_only _) fun b => ?_
      split
      · exact only_pure _
      · exact deleteNonFinalized_only _
  · exact only_pure _

theorem reactivate_only (existing : List InstalledExtension) (reactivated : Option String) :
    Only (fun c => c.other = true) (reactivate existing reactivated) := by
  induction existing generalizing reactivated with
  | nil => exact only_pure _
  | cons row rest ih =>
    rw [reactivate]
    split
    · exact Only.bind (only_perform (S := fun c : Call => c.other = true) rfl).attempt fun r => ih _
    · exact ih _

theorem findBroken_only (existing : List InstalledExtension) :
    Only (fun c => c.other = true) (findBroken existing) := by
  induction existing with
  | nil => exact only_pure _
  | cons row rest ih =>
    refine Only.bind (aware_only row) fun b => ?_
    split
    · exact only_pure _
    · exact ih

theorem sync_only (req : Request) :
    Only (fun c => c.other = true) (syncCanonicalManifestInstall host req drawn) := by
  rw [syncCanonicalManifestInstall]
  split
  · exact only_pure _
  refine Only.tryCatch (Only.bind (Only.tryCatch (only_perform rfl) fun _ => only_throwErr _)
    fun all => ?_) fun err => ?_
  · rw [ensureRow]
    split
    · refine Only.bind (reactivate_only _ _) fun _ => Only.bind (findBroken_only _) fun _ => ?_
      split
      · exact only_pure _
      · exact only_pure _
      split
      · split
        · exact only_pure _
        · exact only_pure _
      · exact only_pure _
    · refine Only.bind ?_ fun _ => only_pure _
      rw [installExtensionManifest]
      split
      · exact only_throwErr _
      · split
        · exact only_perform rfl
        · exact only_throwErr _
  · split
    · exact only_throwErr _
    · exact only_pure _

theorem gates_only (req : Request) : Only (fun c => c.other = true) (dispatchGates host req) := by
  rw [dispatchGates]
  split
  · exact only_throwErr _
  split
  · exact only_throwErr _
  split
  · refine Only.bind (only_perform rfl) fun rows => ?_
    split
    · exact only_throwErr _
    · exact only_pure _
  · exact only_pure _

theorem fire_only (req : Request) :
    Only (fun c => c.other = true) (fireExtensionActivate host req) := by
  rw [fireExtensionActivate]
  split
  · exact only_pure _
  refine Only.tryCatch (Only.bind (only_perform rfl) fun rows => ?_) fun _ => only_pure _
  split
  · exact only_pure _
  · split
    · exact Only.bind (only_perform rfl) fun _ => only_pure _
    · exact only_pure _
    · exact only_pure _

theorem settle_only (req : Request) (e : CanonicalInstallEnsure)
    (result : ExtensionActivateResult) : Only (fun c => c.other = true) (settle req e result) := by
  rw [settle]
  split
  · exact Only.bind (rollbackOwned_only e) fun _ => only_throwErr _
  · exact Only.bind (rollbackOwned_only e) fun _ => only_throwErr _
  split
  · split
    · exact only_throwErr _
    · exact only_throwErr _
  · split
    · exact only_throwErr _
    · exact only_pure _

/-- **A success is the handler's**: a dispatch that returns ran one that did not throw. -/
theorem handled_spec (h : Handled start) : Ends host drawn (runHostInstallLocked host req drawn)
      (Post (fun _ => Handled) (fun _ _ => True)) start := by
  have hpart : ∀ {α : Type} {p : P α} {w₁ : World}, Only (fun c => c.other = true) p →
      Handled w₁ → Ends host drawn p (Post (fun _ => Handled) (fun _ _ => True)) w₁ := by
    intro α p w₁ hp h₁
    refine Spec.mono (hp.spec (fun _ _ _ hc h => handled_answer hc h) h₁) ?_
    intro r w' hr
    cases r with
    | ok _ => exact hr
    | error err => trivial
  refine Spec.post_bind (hpart (gates_only req) h) fun _ w₁ h₁ => ?_
  refine Spec.post_bind (hpart (sync_only req) h₁) fun e w₂ h₂ => ?_
  refine Spec.post_bind (M := fun _ w' => Handled w') ?_ fun _ w₃ h₃ => ?_
  · refine Spec.tryCatch ⟨trivial, fun f => ?_⟩
    obtain ⟨-, -, hok, -⟩ := answer_cases host drawn f (.handle req.kind req.op) w₂
    show Spec _ _ (.done (answer host drawn f (.handle req.kind req.op) w₂).1) _
      (answer host drawn f (.handle req.kind req.op) w₂).2
    cases hr : (answer host drawn f (.handle req.kind req.op) w₂).1 with
    | error err =>
      refine Spec.post_bind (M := fun _ _ => True) ?_ fun _ _ _ => trivial
      exact (rollbackOwned_only e).post (fun _ _ _ _ h => h) trivial
    | ok _ =>
      rw [hr] at hok
      show ∀ c ∈ (answer host drawn f (.handle req.kind req.op) w₂).2.threw, c.other = true
      rw [(hok rfl).2.2]
      exact h₂
  · split
    · exact h₃
    · exact Spec.post_bind (hpart (fire_only req) h₃) fun result w₄ h₄ =>
        hpart (settle_only req e result) h₄

/-- **What a dispatch reports is so.** -/
structure Truthful (host : DispatchHost) (req : Request) (drawn : Drawn) (start : World)
    (result : Except DispatchError Unit) (w : World) : Prop where
  handled : result = .ok () → Handled w
  /-- A connector's install is finalized and its row is live, unless an archived row
      could not be activated. -/
  installed : result = .ok () → usesActivateHook req.kind = true →
    isVerdaccioBackedRef req.ref = true → ¬ NotReactivated w →
    Finalized req w ∧ (w.registry.table.target req.scope).isSome = true
  /-- A live and healthy row keeps its status, and one of another scope is untouched. -/
  live : ∀ err, result = .error err → HandlerKeeps host req →
    ∀ r ∈ start.registry.table.rows, r.present = true → ¬ NonFinalized start.registry r →
      ∃ r' ∈ w.registry.table.rows, r'.id = r.id ∧ r'.status = r.status ∧
        (rowScope r ≠ req.scope → r' = r) ∧
        (CommittedNotActivated err ∨ SourceBack host start req w r r')
  /-- An archived row is there still, archived or activated. -/
  archived : ∀ err, result = .error err → HandlerKeeps host req →
    ∀ r ∈ start.registry.table.rows, r.status = .archived →
      ∃ r' ∈ w.registry.table.rows, r'.id = r.id ∧ (r'.status = .archived ∨ r'.status = .active)
  placeholder : ∀ err, result = .error err → HandlerKeeps host req → Settled req drawn w

variable {r : InstalledExtension}

theorem protected_of_archived (h : r.status = .archived) : Protected start r := by
  rw [Protected, NonFinalized, nonFinalizedAt, InstalledExtension.present, h]
  exact Bool.false_ne_true

variable {err : DispatchError}

theorem Thrown.live (h : Thrown host start req drawn err w) (hr : r ∈ start.registry.table.rows)
    (hpresent : r.present = true) (hhealthy : ¬ NonFinalized start.registry r) :
    ∃ r' ∈ w.registry.table.rows, r'.id = r.id ∧ r'.status = r.status ∧
      (rowScope r ≠ req.scope → r' = r) ∧
      (CommittedNotActivated err ∨ SourceBack host start req w r r') := by
  obtain ⟨r', hr', hf, hq⟩ := h.survives r hr hhealthy
  refine ⟨r', hr', hf.id, ?_, hf.other, hq⟩
  rcases hf.status with hs | ⟨hold, -⟩
  · exact hs
  · rw [InstalledExtension.present, hold] at hpresent
    cases hpresent

theorem Thrown.archived (h : Thrown host start req drawn err w) (hr : r ∈ start.registry.table.rows)
    (harchived : r.status = .archived) :
    ∃ r' ∈ w.registry.table.rows, r'.id = r.id ∧ (r'.status = .archived ∨ r'.status = .active) := by
  obtain ⟨r', hr', hf, -⟩ := h.survives r hr (protected_of_archived harchived)
  refine ⟨r', hr', hf.id, ?_⟩
  rcases hf.status with hs | ⟨-, hnew⟩
  · exact .inl (hs.trans harchived)
  · exact .inr hnew

/-- **A dispatch reports the truth**, for every state of the rows and the journal,
    and every pattern of failing calls of the dispatcher and of the pipeline. -/
theorem dispatch_truthful (hnew : ∀ r ∈ start.registry.table.rows, r.id ≠ drawn.rowId)
    (hop : FreshOp start req drawn) (hquiet : start.registry.events = [])
    (hlog : start.registry.log = []) (hthrew : start.threw = []) (s : Nat → Answer) :
    Truthful host req drawn start (dispatchRun host req drawn s start).1
      (dispatchRun host req drawn s start).2 := by
  have hstart : Handled start := by
    rw [Handled, hthrew]
    exact fun c hc => absurd hc List.not_mem_nil
  have hhandled : Post (fun _ w' => Handled w') (fun _ _ => True)
      (dispatchRun host req drawn s start).1 (dispatchRun host req drawn s start).2 :=
    (handled_spec hstart).run s
  have hthrown : ∀ err, (dispatchRun host req drawn s start).1 = .error err →
      HandlerKeeps host req → Thrown host start req drawn err
        (dispatchRun host req drawn s start).2 := by
    intro err herr hkeeps
    have h : Post _ (fun err w' => Thrown host start req drawn err w')
        (dispatchRun host req drawn s start).1 (dispatchRun host req drawn s start).2 :=
      (dispatch_spec hkeeps hnew hop hquiet hlog).run s
    rw [herr] at h
    exact h
  refine ⟨fun hok => ?_, fun hok hk hv hactivated => ?_, fun err herr hkeeps r hr hp hn => ?_,
    fun err herr hkeeps r hr ha => ?_, fun err herr hkeeps => ?_⟩
  · rw [hok] at hhandled
    exact hhandled
  · -- the connectors' handler leaves the rows alone
    have h : Post (fun _ w' => usesActivateHook req.kind = true →
          isVerdaccioBackedRef req.ref = true → ¬ NotReactivated w' →
          Finalized req w' ∧ (w'.registry.table.target req.scope).isSome = true)
        (fun err w' => Thrown host start req drawn err w')
        (dispatchRun host req drawn s start).1 (dispatchRun host req drawn s start).2 :=
      (dispatch_spec (.inl hk) hnew hop hquiet hlog).run s
    rw [hok] at h
    exact h hk hv hactivated
  · exact (hthrown err herr hkeeps).live hr hp hn
  · exact (hthrown err herr hkeeps).archived hr ha
  · exact (hthrown err herr hkeeps).settled

/-! ### Runs of a dispatch -/

/-- A host that refuses nothing, its hook loaded. -/
def openHost : DispatchHost where
  toRegistryHost := ExtRegistry.plainHost
  registered := fun _ => true
  satisfies := fun _ _ => true
  checkRequiredExtensionVersionPin := fun _ _ _ => none
  isPackageRequiredInProd := fun _ => false
  isDev := false
  hookWired := true
  handled := fun w => w

def toolTwo (op : DispatchOp) : Request where
  op := op
  kind := .connector
  ref := ⟨"tool", some "2", none⟩
  orgId := some "org"

def drawnTwo : Drawn := ⟨"bbbbbbbb-bbb", "bbbbbbbb"⟩

/-- Version 2 is served, and nothing of it is loaded. -/
def unloaded : (c : ExtRegistry.Call) → c.Reply
  | .discoverSupersededStoreDirs _ _ => false
  | c => ExtRegistry.versionTwo c

/-- The call of this number throws, where one is given. -/
def throwing (k : Option Nat) : Nat → Answer := fun n => {
  fault := if k = some n then some ⟨"rebuild required", false⟩ else none
  pipeline := fun _ => { reply := unloaded } }

/-- Version 1 is finalized, of this row. -/
def ofRow (row : InstalledExtension) : World where
  registry := { ExtRegistry.versionOne with table := ⟨[row], List.nodup_singleton _⟩ }
  threw := []

theorem ofRow_freshOp (row : InstalledExtension) (op : DispatchOp) :
    FreshOp (ofRow row) (toolTwo op) drawnTwo := by
  intro o ho version heq
  rw [List.mem_singleton.mp ho] at heq
  -- the ids differ in their last letter
  have hlast := congrArg (fun id : String => id.toList.getLast?) heq
  simp only [String.toList_append, toolTwo, drawnTwo] at hlast
  have hb : "bbbbbbbb".toList.getLast? = some 'b' := by decide
  rw [List.getLast?_append, hb, Option.some_or] at hlast
  exact absurd hlast (by decide)

theorem dispatch_truthful_handlerThrew :
    Truthful openHost (toolTwo .update) drawnTwo (ofRow ExtRegistry.rowOne)
      (dispatchRun openHost (toolTwo .update) drawnTwo (throwing (some 2))
        (ofRow ExtRegistry.rowOne)).1
      (dispatchRun openHost (toolTwo .update) drawnTwo (throwing (some 2))
        (ofRow ExtRegistry.rowOne)).2 :=
  dispatch_truthful (by decide) (ofRow_freshOp _ _) rfl rfl rfl (throwing (some 2))

/-- An archived row. -/
def archivedRow : InstalledExtension := { ExtRegistry.rowOne with status := .archived }

/-- A skill of a repository, at no version. -/
def githubSkill : Request where
  op := .install
  kind := .skill
  ref := ⟨"owner/repo", none, none⟩
  orgId := some "org"

/-- An archived row is left active where the handler throws; a skill of a repository
    is reported as installed and has no row; and an update that is committed but not
    activated throws, with the new source in place. -/
theorem dispatch_untruthful : ((dispatchRun openHost (toolTwo .install) drawnTwo (throwing (some 2))
          (ofRow archivedRow)).1 = .error (.step "rebuild required") ∧
        (dispatchRun openHost (toolTwo .install) drawnTwo (throwing (some 2))
          (ofRow archivedRow)).2.registry.table.rows.map InstalledExtension.status = [.active]) ∧
      ((dispatchRun openHost githubSkill drawnTwo (throwing none) (ofRow ExtRegistry.rowOne)).1 =
          .ok () ∧ (dispatchRun openHost githubSkill drawnTwo (throwing none)
          (ofRow ExtRegistry.rowOne)).2.registry.table.rows.filter
            (fun r => rowScope r = githubSkill.scope) = []) ∧
      (dispatchRun openHost (toolTwo .update) drawnTwo (throwing none)
          (ofRow ExtRegistry.rowOne)).1 =
        .error (.finalizedNotActivated .update "tool" (some (.activation "anchor-refused"))) ∧
      (dispatchRun openHost (toolTwo .update) drawnTwo (throwing none)
          (ofRow ExtRegistry.rowOne)).2.registry.table.rows.map
            (fun r => sourceIntegrity r.source) = [some "sha512-2"] := by
  refine ⟨⟨?_, ?_⟩, ⟨?_, ?_⟩, ?_, ?_⟩
  all_goals decide +kernel

end ExtDispatch
