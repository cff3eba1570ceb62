import Cinatra.Extensions.ManifestLifecycle
import Cinatra.Extensions.ClosureSearch
import Cinatra.Lib.Loop
import Cinatra.Lib.Machine

/-! # GatedLifecycle — which gated operations keep every closure intact

    An operation changes what one package name resolves to, at the scopes it
    reaches.  `Sound` says what has to hold where a scope comes to resolve the name
    to another row; archive and uninstall meet it by their gate.  Under it every
    accepted operation keeps the boot scan empty, and no weaker condition does. -/

namespace ExtLifecycle

open ExtCanonical ExtClosure ExtClosureSearch Resolution

variable {host : Host} {rows after : List InstalledExtension} {op : LifecycleOp} {p : String}
  {org : Option String} {r x n : InstalledExtension} {req : InstallRequest}

/-- A scope comes to resolve a name to another row. -/
structure Comes (rows after : List InstalledExtension) (p : String) (org : Option String)
    (n : InstalledExtension) : Prop where
  now : makeScopedManifestLookup after org p = some n
  before : makeScopedManifestLookup rows org p ≠ some n

/-- The rows of a closure that do not lie behind the package. -/
abbrev Ahead (rows : List InstalledExtension) (p : String) (r x : InstalledExtension) : Prop :=
  Reaches (makeScopedManifestLookup rows r.organizationId)
    (fun q => q = r.packageName ∨ q = p) r x

/-- The update gate has evaluated the edges of this row, on the version of `n`. -/
def Checked (rows : List InstalledExtension) (op : LifecycleOp) (x n : InstalledExtension) :
    Prop :=
  match op with
  | .update req => x.packageName ≠ req.packageName ∧
      resolvesTarget rows req.packageName req.organizationId x = true ∧
      n.organizationId = req.organizationId
  | .install _ | .archive _ | .uninstall _ | .restore _ => False

/-- The scope whose rows are changed without the forward gate: that of an update or an
    install that finds a row. -/
def ungated (rows : List InstalledExtension) : LifecycleOp → Option (Option String)
  | .install req | .update req =>
    if rows.any (atScope req.packageName req.organizationId) then some req.organizationId
    else none
  | .archive _ | .uninstall _ | .restore _ => none

/-- What the gates leave open. -/
structure Sound (host : Host) (rows : List InstalledExtension) (op : LifecycleOp) : Prop where
  /-- An edge that comes to resolve to another row admits its version. -/
  edges : ∀ r ∈ written host rows op, r.present = true → ∀ n,
    Comes rows (written host rows op) op.packageName r.organizationId n →
    ∀ x, Ahead rows op.packageName r x → ∀ e ∈ x.dependencies,
      e.packageName = op.packageName → ¬ Checked rows op x n → Satisfied host.satisfies e (some n)
  /-- A row that comes to serve a foreign scope passes the forward gate there. -/
  elsewhere : ∀ r ∈ written host rows op, r.present = true → r.packageName ≠ op.packageName →
    ∀ n, Comes rows (written host rows op) op.packageName r.organizationId n →
    n.organizationId ≠ r.organizationId →
    (∃ x e, Ahead rows op.packageName r x ∧ e ∈ x.dependencies ∧ e.packageName = op.packageName) →
    assertForward op.packageName
      (scopedClosure host.satisfies (written host rows op) r.organizationId n) = .ok ()
  /-- The forward gate, where it does not run, would pass. -/
  own : ∀ org, ungated rows op = some org →
    assertForwardInstallClosureForPackage host.satisfies op.packageName
      (written host rows op) org = .ok ()

/-! ## The gates, as facts -/

theorem assertForward_eq_ok {result : ClosureResult} :
    assertForward p result = .ok () ↔ Clean result := by
  simp only [assertForward, Clean]
  cases result.rangeViolations <;> cases result.missingRequired <;> simp

theorem forward_eq_ok {satisfies : String → String → Bool} :
    assertForwardInstallClosureForPackage satisfies p rows org = .ok () ↔
      ∀ r ∈ rows, r.present = true → r.packageName = p → r.organizationId = org →
        IntactUnder satisfies (makeScopedManifestLookup rows org) r := by
  rw [assertForwardInstallClosureForPackage, Loop.forM_ok]
  simp only [assertForward_eq_ok, clean_scopedClosure, List.mem_filter, Bool.and_eq_true,
    decide_eq_true_eq]
  constructor
  · intro h r hr hp hname horg
    exact horg ▸ h r ⟨hr, ⟨hname, hp⟩, horg⟩
  · rintro h r ⟨hr, ⟨hname, hp⟩, horg⟩
    exact horg ▸ h r hr hp hname horg

theorem clean_of_assertInstallClosure {result result' : ClosureResult}
    (h : assertInstallClosure p result = .ok result') : Clean result := by
  simp only [assertInstallClosure, ClosureResult.ok] at h
  cases hm : result.missingRequired <;> cases hv : result.rangeViolations <;>
    simp_all [Clean]

theorem gate_eq_ok {α : Type} {g : Except DependencyClosureError α} (h : gate g = .ok ()) :
    ∃ a, g = .ok a := by
  cases g with
  | ok a => exact ⟨a, rfl⟩
  | error e => cases h

theorem restore_gate (h : assertCanonicalRestoreClosure host rows p = .ok ()) {t}
    (ht : t ∈ rows) (hname : t.packageName = p) (hst : t.status = .archived) :
    IntactUnder host.satisfies (makeScopedManifestLookup rows t.organizationId) t := by
  obtain ⟨u, hu⟩ := gate_eq_ok h
  have hall := Loop.forM_ok.mp hu t (List.mem_filter.mpr ⟨ht, by simp [hname, hst]⟩)
  cases hc : assertInstallClosure t.packageName
      (scopedClosure host.satisfies rows t.organizationId t) with
  | ok result => exact (clean_scopedClosure _ _ _ _).mp (clean_of_assertInstallClosure hc)
  | error e =>
    rw [hc] at hall
    cases hall

variable {e : ExtensionDependency}

/-- No live row of another package has an install-blocking edge on an archived one. -/
theorem archive_gate (h : assertCanonicalArchiveClosure rows p = .ok ())
    (hx : x ∈ rows) (hp : x.present = true) (hne : x.packageName ≠ p)
    (hany : rows.any (fun r => r.packageName = p) = true)
    (he : e ∈ x.dependencies) (hname : e.packageName = p) : isInstallBlockingEdge e = false := by
  rw [assertCanonicalArchiveClosure, if_pos hany] at h
  obtain ⟨u, hu⟩ := gate_eq_ok h
  by_contra hb
  rw [Bool.not_eq_false] at hb
  rw [assertArchiveDoesNotBreakClosure] at hu
  split at hu
  · next hempty =>
      have hin : x ∈ rows.filter (fun row => row.packageName ≠ p && row.present &&
          row.dependencies.any (fun d => d.packageName = p && isInstallBlockingEdge d)) := by
        refine List.mem_filter.mpr ⟨hx, ?_⟩
        simp only [hne, hp, ne_eq, not_false_eq_true, decide_true, Bool.true_and, Bool.and_true,
          List.any_eq_true]
        exact ⟨e, he, by simp [hname, hb]⟩
      rw [List.map_eq_nil_iff.mp hempty] at hin
      cases hin
  · cases hu

/-- The update gate admits the new version on the edges it evaluates. -/
theorem update_gate (h : assertUpdate host rows req = .ok ()) (hv : req.source.version ≠ "")
    (hx : x ∈ rows) (hp : x.present = true) (hc : Checked rows (.update req) x n)
    (he : e ∈ x.dependencies)
    (hname : e.packageName = req.packageName) (hb : isInstallBlockingEdge e = true) :
    edgeVersionViolation host.satisfies e (some req.source.version) = none := by
  rw [assertUpdate, if_neg hv] at h
  obtain ⟨u, hu⟩ := gate_eq_ok h
  simp only [assertUpdateDoesNotBreakDependents] at hu
  split at hu
  · next hempty =>
      have hrow := List.flatMap_eq_nil_iff.mp hempty x hx
      rw [if_pos (by simp [hc.1, hp, hc.2.1])] at hrow
      have hedge := List.filterMap_eq_nil_iff.mp hrow e
        (List.mem_filter.mpr ⟨he, by simp [hname, hb]⟩)
      exact Option.map_eq_none_iff.mp hedge
  · cases hu

/-! ## The rows of other packages -/

theorem activate_packageName (r : InstalledExtension) :
    (activate r).packageName = r.packageName := by
  rw [activate]
  split <;> rfl

theorem activate_organizationId (r : InstalledExtension) :
    (activate r).organizationId = r.organizationId := by
  rw [activate]
  split <;> rfl

theorem activate_dependencies (r : InstalledExtension) :
    (activate r).dependencies = r.dependencies := by
  rw [activate]
  split <;> rfl

theorem activate_present (r : InstalledExtension) : (activate r).present = true := by
  rw [activate, InstalledExtension.present]
  split
  · rfl
  next h =>
    cases hs : r.status with
    | active => rfl
    | archived => exact absurd hs h
    | locked => rfl

theorem uninstallRow_some {r' : InstalledExtension} (h : uninstallRow r = some r') :
    r'.packageName = r.packageName ∧ r'.present = false := by
  rw [uninstallRow] at h
  split at h
  · cases h
    exact ⟨rfl, rfl⟩
  · cases h

variable {q : String}

theorem liveRows_filterMap {g : InstalledExtension → Option InstalledExtension}
    (hsame : ∀ r, r.packageName = q → g r = some r)
    (hother : ∀ r r', r.packageName ≠ q → g r = some r' → r'.packageName ≠ q)
    (rows : List InstalledExtension) : liveRows (rows.filterMap g) q = liveRows rows q := by
  induction rows with
  | nil => rfl
  | cons r rows ih =>
    simp only [liveRows] at ih ⊢
    by_cases hr : r.packageName = q
    · rw [List.filterMap_cons_some (hsame r hr), List.filter_cons, List.filter_cons, ih]
    rw [List.filter_cons_of_neg (by simp [hr])]
    cases hg : g r with
    | none => rw [List.filterMap_cons_none hg, ih]
    | some r' =>
      rw [List.filterMap_cons_some hg, List.filter_cons_of_neg (by simp [hother r r' hr hg]), ih]

variable {f : InstalledExtension → InstalledExtension} {t : InstalledExtension → Bool}

/-- A change of the rows that pass a test of the package leaves the others alone. -/
theorem liveRows_map_if (ht : ∀ r, t r = true → r.packageName ≠ q)
    (hf : ∀ r, (f r).packageName = r.packageName) (rows : List InstalledExtension) :
    liveRows (rows.map (fun r => if t r then f r else r)) q = liveRows rows q := by
  rw [← List.filterMap_eq_map]
  refine liveRows_filterMap ?_ ?_ rows
  · intro r hr
    by_cases hc : t r = true
    · exact absurd hr (ht r hc)
    · simp [hc]
  · intro r r' hr h
    by_cases hc : t r = true
    · simp only [Function.comp_apply, hc, if_true, Option.some.injEq] at h
      rw [← h, hf]
      exact hr
    · simp only [Function.comp_apply, hc, Option.some.injEq] at h
      rw [← h]
      exact hr

theorem liveRows_append_newRow (h : req.packageName ≠ q) :
    liveRows (rows ++ [newRow host req]) q = liveRows rows q := by
  rw [liveRows, List.filter_append,
    List.filter_cons_of_neg (l := []) (by simp [newRow, h]), List.filter_nil, List.append_nil]
  rfl

theorem atScope_packageName (h : atScope p org r = true) : r.packageName = p :=
  of_decide_eq_true (Bool.and_eq_true_iff.mp h).1

theorem atScope_organizationId (h : atScope p org r = true) : r.organizationId = org :=
  of_decide_eq_true (Bool.and_eq_true_iff.mp h).2

theorem liveRows_written (h : q ≠ op.packageName) :
    liveRows (written host rows op) q = liveRows rows q := by
  have hscope : ∀ {org : Option String} (r : InstalledExtension),
      atScope op.packageName org r = true → r.packageName ≠ q :=
    fun r hr hc => h (hc.symm.trans (atScope_packageName hr))
  cases op with
  | install req | update req =>
    rw [written]
    split
    · exact liveRows_map_if (f := updateRow req) hscope activate_packageName rows
    · exact liveRows_append_newRow h.symm
  | archive p =>
    rw [written]
    have := liveRows_map_if (t := fun r : InstalledExtension => r.packageName = p)
      (f := fun r => { r with status := .archived }) (q := q)
      (fun r hr hc => h (hc.symm.trans (of_decide_eq_true hr))) (fun _ => rfl) rows
    simpa only [decide_eq_true_eq] using this
  | uninstall p =>
    rw [written]
    refine liveRows_filterMap ?_ ?_ rows
    · intro r hr
      exact if_neg (fun hc => h (hr.symm.trans hc))
    · intro r r' hr hg
      split at hg
      · rw [(uninstallRow_some hg).1]
        exact hr
      · rw [← Option.some.inj hg]
        exact hr
  | restore p =>
    rw [written]
    have := liveRows_map_if (t := fun r : InstalledExtension => r.packageName = p)
      (f := activate) (q := q)
      (fun r hr hc => h (hc.symm.trans (of_decide_eq_true hr))) activate_packageName rows
    simpa only [decide_eq_true_eq] using this

theorem lookup_written (h : q ≠ op.packageName) :
    makeScopedManifestLookup (written host rows op) org q = makeScopedManifestLookup rows org q :=
  lookup_congr (liveRows_written h)

theorem mem_of_written (hr : r ∈ written host rows op) (hp : r.present = true)
    (h : r.packageName ≠ op.packageName) : r ∈ rows := by
  have hin : r ∈ liveRows (written host rows op) r.packageName :=
    List.mem_filter.mpr ⟨hr, by simp [hp]⟩
  rw [liveRows_written h] at hin
  exact (List.mem_filter.mp hin).1

/-- Where a live row of the operation's package comes from. -/
inductive Origin (host : Host) (rows : List InstalledExtension) (op : LifecycleOp)
    (r : InstalledExtension) : Prop
  | kept (h : r ∈ rows)
  | ungated (h : ungated rows op = some r.organizationId)
  | restored (t : InstalledExtension) (ht : t ∈ rows) (hop : op = .restore t.packageName)
      (hst : t.status = .archived) (hr : r = activate t)
  | fresh (req : InstallRequest) (hop : op = .install req ∨ op = .update req)
      (hany : ¬ rows.any (atScope req.packageName req.organizationId) = true)
      (hr : r = newRow host req)

theorem mem_map_atScope (hf : ∀ r, (f r).organizationId = r.organizationId)
    (hr : r ∈ rows.map (fun r => if atScope p org r then f r else r)) :
    r ∈ rows ∨ r.organizationId = org := by
  obtain ⟨t, ht, rfl⟩ := List.mem_map.mp hr
  by_cases hc : atScope p org t = true
  · refine .inr ?_
    rw [if_pos hc, hf]
    exact atScope_organizationId hc
  · refine .inl ?_
    rw [if_neg hc]
    exact ht

theorem mem_append_newRow (hr : r ∈ rows ++ [newRow host req]) : r ∈ rows ∨ r = newRow host req :=
  (List.mem_append.mp hr).imp_right List.mem_singleton.mp

theorem origin (hr : r ∈ written host rows op) (hp : r.present = true) : Origin host rows op r := by
  cases op with
  | install req | update req =>
    rw [written] at hr
    split at hr
    · next hany =>
        rcases mem_map_atScope (f := updateRow req) activate_organizationId hr with h | h
        · exact .kept h
        · exact .ungated (by rw [ExtLifecycle.ungated, if_pos hany, h])
    · next hany =>
        rcases mem_append_newRow hr with h | h
        · exact .kept h
        · exact .fresh req (by simp) hany h
  | archive q =>
    rw [written] at hr
    obtain ⟨t, ht, rfl⟩ := List.mem_map.mp hr
    by_cases hq : t.packageName = q
    · rw [if_pos hq] at hp
      cases hp
    · rw [if_neg hq]
      exact .kept ht
  | uninstall q =>
    rw [written] at hr
    obtain ⟨t, ht, hg⟩ := List.mem_filterMap.mp hr
    split at hg
    · rw [(uninstallRow_some hg).2] at hp
      cases hp
    · exact .kept (Option.some.inj hg ▸ ht)
  | restore q =>
    rw [written] at hr
    obtain ⟨t, ht, rfl⟩ := List.mem_map.mp hr
    by_cases hq : t.packageName = q
    · rw [if_pos hq] at hp ⊢
      by_cases hst : t.status = .archived
      · exact .restored t ht (by rw [hq]) hst rfl
      · rw [activate, if_neg hst]
        exact .kept ht
    · rw [if_neg hq]
      exact .kept ht

theorem lookup_eq_none : makeScopedManifestLookup rows org p = none ↔
    ∀ r ∈ liveRows rows p, r.organizationId ≠ org ∧ r.organizationId ≠ none := by
  rw [makeScopedManifestLookup, Option.or_eq_none_iff, List.find?_eq_none]
  cases org with
  | none => simp [ownRow]
  | some o =>
    simp only [ownRow, List.find?_eq_none, decide_eq_true_eq]
    exact ⟨fun h r hr => ⟨h.1 r hr, h.2 r hr⟩, fun h => ⟨fun r hr => (h r hr).1,
      fun r hr => (h r hr).2⟩⟩

theorem present_map_if (hname : ∀ r, (f r).packageName = r.packageName)
    (horg : ∀ r, (f r).organizationId = r.organizationId) (hpres : ∀ r, (f r).present = true)
    (hr : r ∈ rows) (hp : r.present = true) :
    ∃ r' ∈ rows.map (fun r => if t r then f r else r), r'.packageName = r.packageName ∧
      r'.organizationId = r.organizationId ∧ r'.present = true := by
  refine ⟨_, List.mem_map_of_mem hr, ?_⟩
  split
  · exact ⟨hname r, horg r, hpres r⟩
  · exact ⟨rfl, rfl, hp⟩

theorem present_written (hr : r ∈ rows) (hp : r.present = true)
    (hop : ∀ q, op ≠ .archive q ∧ op ≠ .uninstall q) :
    ∃ r' ∈ written host rows op, r'.packageName = r.packageName ∧
      r'.organizationId = r.organizationId ∧ r'.present = true := by
  cases op with
  | install req | update req =>
    rw [written]
    split
    · exact present_map_if (f := updateRow req) activate_packageName activate_organizationId
        activate_present hr hp
    · exact ⟨r, List.mem_append_left _ hr, rfl, rfl, hp⟩
  | archive q => exact absurd rfl (hop q).1
  | uninstall q => exact absurd rfl (hop q).2
  | restore q =>
    rw [written]
    have := present_map_if (t := fun r : InstalledExtension => r.packageName = q)
      activate_packageName activate_organizationId activate_present hr hp
    simpa only [decide_eq_true_eq] using this

theorem lookup_none (h : makeScopedManifestLookup (written host rows op) org op.packageName = none)
    (hop : ∀ q, op ≠ .archive q ∧ op ≠ .uninstall q) :
    makeScopedManifestLookup rows org op.packageName = none := by
  rw [lookup_eq_none] at h ⊢
  intro r hr
  obtain ⟨hin, hlive⟩ := List.mem_filter.mp hr
  obtain ⟨hq, hp⟩ := Bool.and_eq_true_iff.mp hlive
  obtain ⟨r', hr', hname, horg, hp'⟩ := present_written hin hp hop
  rw [← horg]
  exact h r' (List.mem_filter.mpr ⟨hr', by simp [hname, of_decide_eq_true hq, hp']⟩)

/-! ## The edges on the package -/

theorem seq_ok {ε α : Type} {a : Except ε Unit} {b : Except ε α} {v : α}
    (h : (do a; b) = .ok v) : a = .ok () ∧ b = .ok v := by
  cases a with
  | ok u => exact ⟨rfl, h⟩
  | error e => cases h

theorem assertProvenance_version (h : assertProvenance req = .ok ()) : req.source.version ≠ "" := by
  intro hv
  have hbad : "verdaccio.version" ∈ validateExtensionSource (.verdaccio req.source) := by
    simp [validateExtensionSource, hv, resolvedField]
  rw [assertProvenance, if_pos (List.ne_nil_of_mem hbad)] at h
  cases h

theorem fresh_gate (h : assertFresh host rows req = .ok ()) : req.source.version ≠ "" ∧
      IntactUnder host.satisfies
        (makeScopedManifestLookup (rows ++ [newRow host req]) req.organizationId)
        (newRow host req) := by
  obtain ⟨hprov, hgate⟩ := seq_ok h
  refine ⟨assertProvenance_version hprov, ?_⟩
  obtain ⟨u, hu⟩ := gate_eq_ok hgate
  refine forward_eq_ok.mp hu _ (List.mem_concat_self) ?_ rfl rfl
  simp only [newRow, InstalledExtension.present]
  split <;> rfl

theorem update_gates (h : gates host rows (.update req) = .ok ()) :
    assertUpdate host rows req = .ok () ∧ req.source.version ≠ "" := by
  obtain ⟨hupd, hrest⟩ := seq_ok h
  refine ⟨hupd, ?_⟩
  rw [assertPipeline] at hrest
  split at hrest
  · exact assertProvenance_version (seq_ok hrest).1
  · exact (fresh_gate hrest).1

theorem version_written (hn : n ∈ written host rows (.update req))
    (hname : n.packageName = req.packageName) (horg : n.organizationId = req.organizationId)
    (hv : req.source.version ≠ "") : installedVersionOfRow n = some req.source.version := by
  rw [written] at hn
  split at hn
  · obtain ⟨t, ht, rfl⟩ := List.mem_map.mp hn
    by_cases hc : atScope req.packageName req.organizationId t = true
    · rw [if_pos hc]
      exact if_neg hv
    · rw [if_neg hc] at hname horg
      exact absurd (by simp [atScope, hname, horg]) hc
  · next hany =>
      rcases mem_append_newRow hn with hn | rfl
      · exact absurd (List.any_eq_true.mpr ⟨n, hn, by simp [atScope, hname, horg]⟩) hany
      · exact if_neg hv

theorem ahead_mem (h : Ahead rows p r x) :
    x = r ∨ (x ∈ rows ∧ x.present = true ∧ x.packageName ≠ p) := by
  cases h with
  | refl => exact .inl rfl
  | step _ _ hn hy =>
    obtain ⟨hin, hname, hp⟩ := lookup_some hy
    exact .inr ⟨hin, hp, fun hc => hn (.inr (hname.symm.trans hc))⟩

/-- After an archive or uninstall no row of the package is live. -/
theorem dead_written (hop : ∃ q, op = .archive q ∨ op = .uninstall q)
    (hr : r ∈ written host rows op) (hname : r.packageName = op.packageName) :
    r.present = false := by
  obtain ⟨q, rfl | rfl⟩ := hop
  · obtain ⟨t, ht, rfl⟩ := List.mem_map.mp hr
    by_cases hq : t.packageName = q
    · rw [if_pos hq]
      rfl
    · rw [if_neg hq] at hname
      exact absurd hname hq
  · obtain ⟨t, ht, hg⟩ := List.mem_filterMap.mp hr
    split at hg
    · exact (uninstallRow_some hg).2
    · next hq =>
        rw [← Option.some.inj hg] at hname
        exact absurd hname hq

theorem archive_gates (hop : op = .archive q ∨ op = .uninstall q)
    (h : gates host rows op = .ok ()) : assertCanonicalArchiveClosure rows q = .ok () := by
  rcases hop with rfl | rfl
  · exact (seq_ok h).2
  · exact (seq_ok h).2

/-- What a live row needs of the package it gets from what its scope now resolves. -/
def EdgesHold (host : Host) (rows : List InstalledExtension) (op : LifecycleOp)
    (r : InstalledExtension) : Prop :=
  makeScopedManifestLookup (written host rows op) r.organizationId op.packageName ≠
      makeScopedManifestLookup rows r.organizationId op.packageName →
    ∀ x, Ahead rows op.packageName r x → ∀ e ∈ x.dependencies, e.packageName = op.packageName →
      Satisfied host.satisfies e
        (makeScopedManifestLookup (written host rows op) r.organizationId op.packageName)

/-- Archive and uninstall: the gate left no install-blocking edge. -/
theorem edgesHold_archive (hop : op = .archive q ∨ op = .uninstall q)
    (h : gates host rows op = .ok ()) (hr : r ∈ written host rows op) (hp : r.present = true) :
    EdgesHold host rows op r := by
  have hname : op.packageName = q := by rcases hop with rfl | rfl <;> rfl
  have hne : r.packageName ≠ op.packageName := by
    intro hc
    rw [dead_written ⟨q, hop⟩ hr hc] at hp
    cases hp
  intro hdiff x hx e he hedge hb
  have hlive : x ∈ rows ∧ x.present = true ∧ x.packageName ≠ op.packageName := by
    rcases ahead_mem hx with rfl | hx
    · exact ⟨mem_of_written hr hp hne, hp, hne⟩
    · exact hx
  have hany : rows.any (fun r => r.packageName = q) = true := by
    by_contra hc
    have hnone : ∀ t ∈ rows, t.packageName ≠ q := by simpa using hc
    have hdead : ∀ t ∈ written host rows op, t.packageName = op.packageName →
        t.present = false := fun t ht => dead_written ⟨q, hop⟩ ht
    refine hdiff ((lookup_eq_none.mpr ?_).trans (lookup_eq_none.mpr ?_).symm)
    · intro t ht
      obtain ⟨hin, hlive⟩ := List.mem_filter.mp ht
      obtain ⟨htn, htp⟩ := Bool.and_eq_true_iff.mp hlive
      rw [hdead t hin (of_decide_eq_true htn)] at htp
      cases htp
    · intro t ht
      obtain ⟨hin, hlive⟩ := List.mem_filter.mp ht
      exact absurd ((of_decide_eq_true (Bool.and_eq_true_iff.mp hlive).1).trans hname)
        (hnone t hin)
  have hfree := archive_gate (archive_gates hop h) hlive.1 hlive.2.1 (hname ▸ hlive.2.2) hany he
    (hedge.trans hname)
  rw [hfree] at hb
  cases hb

/-- **The edges on the package** hold after an accepted operation that is sound. -/
theorem edgesHold (h : gates host rows op = .ok ()) (hs : Sound host rows op)
    (hr : r ∈ written host rows op) (hp : r.present = true) : EdgesHold host rows op r := by
  by_cases hop : ∃ q, op = .archive q ∨ op = .uninstall q
  · obtain ⟨q, hop⟩ := hop
    exact edgesHold_archive hop h hr hp
  have hop' : ∀ q, op ≠ .archive q ∧ op ≠ .uninstall q :=
    fun q => ⟨fun hc => hop ⟨q, .inl hc⟩, fun hc => hop ⟨q, .inr hc⟩⟩
  intro hdiff x hx e he hedge
  cases hn : makeScopedManifestLookup (written host rows op) r.organizationId op.packageName with
  | none => exact absurd (hn.trans (lookup_none hn hop').symm) hdiff
  | some n =>
    have hcomes : Comes rows (written host rows op) op.packageName r.organizationId n :=
      ⟨hn, fun hc => hdiff (hn.trans hc.symm)⟩
    by_cases hc : Checked rows op x n
    · -- the update gate has seen this edge
      cases op with
      | update req =>
        obtain ⟨hupd, hv⟩ := update_gates h
        obtain ⟨hin, hname, -⟩ := lookup_some hn
        have hlive : x ∈ rows ∧ x.present = true := by
          rcases ahead_mem hx with rfl | hx
          · exact ⟨mem_of_written hr hp hc.1, hp⟩
          · exact ⟨hx.1, hx.2.1⟩
        intro hb
        refine ⟨n, rfl, ?_⟩
        rw [version_written hin hname hc.2.2 hv]
        exact update_gate hupd hv hlive.1 hlive.2 hc he hedge hb
      | install | archive | uninstall | restore => exact hc.elim
    · exact hs.edges r hr hp n hcomes x hx e he hedge hc

theorem lookup_written_eq (h : makeScopedManifestLookup (written host rows op) org op.packageName =
      makeScopedManifestLookup rows org op.packageName) :
    makeScopedManifestLookup (written host rows op) org = makeScopedManifestLookup rows org := by
  funext q
  by_cases hq : q = op.packageName
  · rw [hq]
    exact h
  · exact lookup_written hq

theorem intact_kept (hname : r.packageName = op.packageName)
    (hi : IntactUnder host.satisfies (makeScopedManifestLookup rows r.organizationId) r)
    (he : EdgesHold host rows op r) : IntactUnder host.satisfies
      (makeScopedManifestLookup (written host rows op) r.organizationId) r := by
  by_cases heq : makeScopedManifestLookup (written host rows op) r.organizationId op.packageName =
      makeScopedManifestLookup rows r.organizationId op.packageName
  · rw [lookup_written_eq heq]
    exact hi
  refine Intact.reroute (p := op.packageName) (fun q hq => lookup_written hq) ?_ (he heq) ?_
  · intro x hx e hin _
    exact hi x (hx.mono (fun _ => .inl)) e hin
  · intro n _ _ hav
    exact absurd hname.symm hav

/-- A live row of the package has an intact closure at its own scope. -/
theorem intact_own (hi : AllIntact host.satisfies rows) (h : gates host rows op = .ok ())
    (hs : Sound host rows op) (hr : r ∈ written host rows op) (hp : r.present = true)
    (hname : r.packageName = op.packageName) : IntactUnder host.satisfies
      (makeScopedManifestLookup (written host rows op) r.organizationId) r := by
  have he := edgesHold h hs hr hp
  cases origin hr hp with
  | kept hin => exact intact_kept hname (hi r hin hp) he
  | ungated hu => exact forward_eq_ok.mp (hs.own _ hu) r hr hp hname rfl
  | restored t ht hop hst hact =>
    refine intact_kept hname ?_ he
    subst hop
    rw [hact, activate_organizationId]
    have hpre := restore_gate h ht rfl hst
    have hd : (activate t).dependencies = t.dependencies := activate_dependencies t
    rw [IntactUnder, activate_packageName]
    exact Intact.of_deps_eq hd hpre
  | fresh req hop hany hnew =>
    have hw : written host rows op = rows ++ [newRow host req] := by
      rcases hop with rfl | rfl
      · exact if_neg hany
      · exact if_neg hany
    have hfresh : assertFresh host rows req = .ok () := by
      rcases hop with rfl | rfl
      · rw [gates, assertPipeline, if_neg hany] at h
        exact h
      · have hrest := (seq_ok h).2
        rw [assertPipeline, if_neg hany] at hrest
        exact hrest
    rw [hw, hnew]
    exact (fresh_gate hfresh).2

/-- **An accepted operation that is sound** keeps every live row's closure intact. -/
theorem allIntact_written (hi : AllIntact host.satisfies rows) (h : gates host rows op = .ok ())
    (hs : Sound host rows op) : AllIntact host.satisfies (written host rows op) := by
  intro r hr hp
  by_cases hname : r.packageName = op.packageName
  · exact intact_own hi h hs hr hp hname
  have hpre := hi r (mem_of_written hr hp hname) hp
  by_cases heq : makeScopedManifestLookup (written host rows op) r.organizationId
      op.packageName = makeScopedManifestLookup rows r.organizationId op.packageName
  · rw [lookup_written_eq heq]
    exact hpre
  refine Intact.reroute (p := op.packageName) (fun q hq => lookup_written hq) ?_
    (edgesHold h hs hr hp heq) ?_
  · intro x hx e hin _
    exact hpre x (hx.mono (fun _ => .inl)) e hin
  · intro n hn hfrom _
    obtain ⟨hin, hnn, hnp⟩ := lookup_some hn
    have hclosure : IntactUnder host.satisfies
        (makeScopedManifestLookup (written host rows op) r.organizationId) n := by
      by_cases horg : n.organizationId = r.organizationId
      · rw [← horg]
        exact intact_own hi h hs hin hnp hnn
      · have hcomes : Comes rows (written host rows op) op.packageName r.organizationId n :=
          ⟨hn, fun hc => heq (hn.trans hc.symm)⟩
        exact (clean_scopedClosure _ _ _ _).mp (assertForward_eq_ok.mp
          (hs.elsewhere r hr hp hname n hcomes horg hfrom))
    rw [IntactUnder, hnn] at hclosure
    exact hclosure

/-! ## The condition is exact -/

theorem lookup_own (hr : r ∈ rows) (hp : r.present = true)
    (hx : makeScopedManifestLookup rows r.organizationId r.packageName = some x) :
    x.organizationId = r.organizationId := by
  rw [makeScopedManifestLookup] at hx
  have hlive : r ∈ liveRows rows r.packageName := List.mem_filter.mpr ⟨hr, by simp [hp]⟩
  cases ho : r.organizationId with
  | none =>
    rw [ho] at hx
    exact of_decide_eq_true (List.find?_some (p := fun r : InstalledExtension =>
      r.organizationId = none) hx)
  | some o =>
    rw [ho] at hx
    rcases Option.or_eq_some_iff.mp hx with h | ⟨h, -⟩
    · exact of_decide_eq_true (List.find?_some (p := fun r : InstalledExtension =>
        r.organizationId = some o) h)
    · exact absurd (decide_eq_true ho) (List.find?_eq_none.mp h r hlive)

theorem Ahead.written (h : Ahead rows op.packageName r x) :
    Reaches (makeScopedManifestLookup (written host rows op) r.organizationId)
      (fun q => q = r.packageName) r x :=
  (h.congr (fun _ hq => lookup_written (fun hc => hq (.inr hc)))).mono (fun _ => .inl)

/-- No weaker condition will do: what leaves every closure intact is sound. -/
theorem sound_of_allIntact (hi : AllIntact host.satisfies (written host rows op)) :
    Sound host rows op := by
  refine ⟨?_, ?_, ?_⟩
  · intro r hr hp n hn x hx e he hname _
    have hsat := hi r hr hp x (Ahead.written hx) e he
    rw [hname, hn.now] at hsat
    exact hsat
  · intro r hr hp hne n hn _ hfrom
    refine assertForward_eq_ok.mpr ((clean_scopedClosure _ _ _ _).mpr ?_)
    obtain ⟨x, e, hx, he, hname⟩ := hfrom
    have hrn : Reaches (makeScopedManifestLookup (written host rows op) r.organizationId)
        (fun q => q = r.packageName) r n :=
      .step (Ahead.written hx) he (fun hc => hne (hc.symm.trans hname)) (hname ▸ hn.now)
    intro y hy
    rcases hy.split (p := r.packageName) (fun _ _ => rfl) with hoff | ⟨r', hr', -, hw⟩
    · exact hi r hr hp y (hrn.trans (hoff.mono (fun _ => .inr)))
    -- behind `r` again: the row its own scope resolves has an intact closure too
    obtain ⟨hin, hsame, hp'⟩ := lookup_some hr'
    have hclosure := hi r' hin hp'
    rw [IntactUnder, hsame, lookup_own hr hp hr'] at hclosure
    exact hclosure y hw
  · intro org horg
    refine forward_eq_ok.mpr (fun r hr hp _ ho => ?_)
    rw [← ho]
    exact hi r hr hp

/-- **An accepted operation keeps the boot scan empty exactly if it is sound.** -/
theorem findBrokenClosures_written (hi : findBrokenClosures host.satisfies rows = [])
    (h : gates host rows op = .ok ()) :
    findBrokenClosures host.satisfies (written host rows op) = [] ↔ Sound host rows op := by
  rw [findBrokenClosures_eq_nil] at hi ⊢
  exact ⟨sound_of_allIntact, allIntact_written hi h⟩

/-- Archive and uninstall are sound: no scope resolves the package any more. -/
theorem sound_archive (hop : op = .archive q ∨ op = .uninstall q) : Sound host rows op := by
  have hnone : ∀ {org n}, ¬ Comes rows (written host rows op) op.packageName org n := by
    intro org n hc
    obtain ⟨hin, hname, hp⟩ := lookup_some hc.now
    rw [dead_written ⟨q, hop⟩ hin hname] at hp
    cases hp
  refine ⟨fun _ _ _ _ hc => absurd hc hnone, fun _ _ _ _ _ hc => absurd hc hnone, ?_⟩
  intro org horg
  rcases hop with rfl | rfl
  · cases horg
  · cases horg

/-- A fresh install of a package that nothing depends on yet is sound. -/
theorem sound_of_unreferenced (hun : ungated rows op = none)
    (h : ∀ r, r ∈ rows ∨ r ∈ written host rows op → ∀ e ∈ r.dependencies,
      e.packageName ≠ op.packageName) : Sound host rows op := by
  have hedge : ∀ {r x}, r ∈ written host rows op → Ahead rows op.packageName r x →
      ∀ e ∈ x.dependencies, e.packageName ≠ op.packageName := by
    intro r x hr hx
    rcases ahead_mem hx with rfl | ⟨hin, -⟩
    · exact h x (.inr hr)
    · exact h x (.inl hin)
  refine ⟨?_, ?_, ?_⟩
  · intro r hr _ n _ x hx e he hname _
    exact absurd hname (hedge hr hx e he)
  · rintro r hr _ _ n _ _ ⟨x, e, hx, he, hname⟩
    exact absurd hname (hedge hr hx e he)
  · intro org horg
    rw [hun] at horg
    cases horg

/-- What an operation leaves behind, accepted or refused. -/
def step (host : Host) (rows : List InstalledExtension) (op : LifecycleOp) :
    List InstalledExtension :=
  match apply host rows op with
  | .ok rows' => rows'
  | .error _ => rows

/-- The operations of a run: each passes its gates, and what they leave open holds. -/
def SoundStep (host : Host) (rows : List InstalledExtension) (op : LifecycleOp) : Prop :=
  gates host rows op = .ok () ∧ Sound host rows op

theorem step_of_gates (h : gates host rows op = .ok ()) : step host rows op =
    written host rows op := by
  rw [step, apply, h]

/-- Every range is satisfied, nothing is a system package or locked on install. -/
def plainHost : Host := ⟨fun _ _ => true, fun _ => false, fun _ => false⟩

def sourceAt (packageName version : String) : ExtensionSourceVerdaccio :=
  ⟨"https://registry.test", packageName, version, "sha512-x", none, none, none, none⟩

/-- The base package at a scope and a version. -/
def baseRequest (id : String) (organizationId : Option String) (version : String) :
    InstallRequest :=
  ⟨id, "@x/base", organizationId, .connector, sourceAt "@x/base" version, []⟩

/-- A package of organisation `a` that needs exactly the first version of the base. -/
def rootRequest : InstallRequest :=
  ⟨"iext_root", "@x/root", some "a", .connector, sourceAt "@x/root" "1.0.0",
    [⟨"@x/base", none, .runtime, .exact "1.0.0", .required⟩]⟩

/-- The base for the platform, and the package that needs it. -/
def baseAndRoot : List InstalledExtension :=
  [newRow plainHost (baseRequest "iext_base" none "1.0.0"), newRow plainHost rootRequest]

def archivedBaseAndRoot : List InstalledExtension :=
  baseAndRoot.map (fun r => { r with status := .archived })

end ExtLifecycle
