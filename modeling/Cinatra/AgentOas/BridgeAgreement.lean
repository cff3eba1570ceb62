import Cinatra.AgentOas.Supplied

/-! # Bridge agreement — what the compiler sets is what the validator demands

    A document grows when a demanded field is added to the data of a bridge
    call the validator sees and nothing else of it changes.  Compiler and
    validator agree on a document when the compiled document has grown, passes
    both scans, and compiles to itself.

    * **`Grows`** — the changes the validator asks for, one field at a time;
    * **`agrees_iff_fits`** — the documents on which the two agree. -/

namespace AgentOas

open JsonValue

/-! ## Growth -/

/-- One demanded field added where it is missing: at a bridge call, or at one
    below an entry of `$referenced_components` or below an inline `subflow`. -/
inductive Supplies (fields : List (String × Json)) : Json → Json → Prop
  | field (node data : Record) (field : String) (value : Json) :
      callsLlmBridge node = true → (field, value) ∈ fields →
      dataObject? node = some data → Record.get? field data = none →
      Supplies fields (.obj node)
        (.obj (Record.assign "data" (.obj (Record.assign field value data)) node))
  | entry (node before after : Record) (key : String) (v w : Json) :
      Record.get? "$referenced_components" node = some (.obj (before ++ (key, v) :: after)) →
      Supplies fields v w →
      Supplies fields (.obj node)
        (.obj (Record.assign "$referenced_components" (.obj (before ++ (key, w) :: after)) node))
  | subflow (node : Record) (v w : Json) :
      Record.get? "subflow" node = some v → Supplies fields v w →
      Supplies fields (.obj node) (.obj (Record.assign "subflow" w node))

/-- Any number of demanded fields added. -/
def Grows (fields : List (String × Json)) : Json → Json → Prop :=
  Relation.ReflTransGen (Supplies fields)

/-- Compiler and validator agree on a document: it compiles, the compiled
    document passes both scans, it differs from the document by demanded fields
    alone, and compiling it again changes nothing. -/
def Agrees (parsed : Record) : Prop :=
  ∃ compiled, fanOutMetadata parsed = .ok compiled ∧
    scanForCinatraLlmInSource compiled = [] ∧ scanForToolboxIdsInSource compiled = [] ∧
    Grows (demands parsed) (.obj parsed) (.obj compiled) ∧
    fanOutMetadata compiled = .ok compiled

/-- The compiler sets a duty's field at a site: it reaches the node, the url
    ends with the bridge path, and the field is unset. -/
def Duty.writes (q : Duty) (s : Site) : Bool :=
  s.reached && isBridgeTarget s.node && q.lacks s.node

/-- A duty fits a site: where the compiler sets the field, an object can stand
    in `data` and the validator demands the field there; where the validator
    demands it and the compiler does not set it, a valid value is there. -/
def Duty.Fits (q : Duty) (s : Site) : Prop :=
  (q.writes s = true → (dataObject? s.node).isSome = true ∧ s.seen = true ∧ q.demanded = true) ∧
  (s.seen = true → q.demanded = true → q.writes s = false →
    (dataField s.node q.field).any q.carries = true)

/-- The documents the compiler and the validator agree on. -/
def Fits (parsed : Record) : Prop :=
  (duties parsed = [] ∨ withinDepth parsed = true) ∧
  ∀ q ∈ duties parsed, ∀ s ∈ documentSites parsed, q.Fits s

variable {fields : List (String × Json)} {w : Json}

theorem Grows.entry {node before after : Record} {key : String} {v : Json}
    (hget : Record.get? "$referenced_components" node = some (.obj (before ++ (key, v) :: after)))
    (h : Grows fields v w) : Grows fields (.obj node)
      (.obj (Record.assign "$referenced_components" (.obj (before ++ (key, w) :: after)) node)) := by
  induction h with
  | refl => rw [Record.assign_get? hget]; exact .refl
  | tail _ step ih =>
    refine ih.tail ?_
    have hnext := Supplies.entry _ before after key _ _ (Record.get?_assign_self _ _ node) step
    rw [Record.assign_assign] at hnext
    exact hnext

/-- Growth at every entry is growth of the container's owner. -/
theorem Grows.entries (g : Json → Json) (rest : Record) : ∀ (before node : Record),
      Record.get? "$referenced_components" node = some (.obj (before ++ rest)) →
      (∀ v ∈ entryValues (.obj rest), Grows fields v (g v)) →
      Grows fields (.obj node) (.obj (Record.assign "$referenced_components"
        (.obj (before ++ rest.map (fun e => (e.1, g e.2)))) node)) := by
  induction rest with
  | nil =>
    intro before node hget _
    rw [List.map_nil, Record.assign_get? hget]
    exact .refl
  | cons e rest ih =>
    intro before node hget h
    obtain ⟨key, v⟩ := e
    have hfirst := Grows.entry hget (h v (.head _))
    have hrest := ih (before ++ [(key, g v)])
      (Record.assign "$referenced_components" (.obj (before ++ (key, g v) :: rest)) node)
      (by rw [Record.get?_assign_self, List.append_assoc]; rfl)
      (fun w hw => h w (List.mem_cons_of_mem v hw))
    rw [Record.assign_assign, List.append_assoc] at hrest
    exact hfirst.trans hrest

/-- A bridge call grows by its fan-outs, where each that sets a field adds a
    demanded one to an object. -/
theorem Grows.supplyAll {ps : List FanOut}
    (hnodup : (ps.map (·.field)).Nodup) {node : Record} (hcalls : callsLlmBridge node = true)
    (h : ∀ p ∈ ps, p.lacks node = true →
      (dataObject? node).isSome = true ∧ (p.field, p.value) ∈ fields) :
    Grows fields (.obj node) (.obj (supplyAll ps node)) := by
  induction ps generalizing node with
  | nil => exact .refl
  | cons p ps ih =>
    rw [List.map_cons, List.nodup_cons] at hnodup
    have hne : ∀ p' ∈ ps, p'.field ≠ p.field := by
      intro p' hp' heq
      exact hnodup.1 (heq ▸ List.mem_map_of_mem hp')
    rw [AgentOas.supplyAll]
    by_cases hl : p.lacks node = true
    · obtain ⟨hdata, hmem⟩ := h p (.head _) hl
      obtain ⟨data, hdata⟩ := Option.isSome_iff_exists.mp hdata
      obtain ⟨hnone, hsupply⟩ := FanOut.supply_of_lacks hl hdata
      have hstep := Supplies.field node data p.field p.value hcalls hmem hdata hnone
      rw [← hsupply] at hstep
      refine Relation.ReflTransGen.head hstep (ih hnodup.2 ?_ ?_)
      · rw [p.supply_dataOnly.callsLlmBridge]
        exact hcalls
      · intro p' hp' hl'
        rw [p'.lacks_supply_ne p node (hne p' hp')] at hl'
        refine ⟨?_, (h p' (List.mem_cons_of_mem p hp') hl').2⟩
        rw [hsupply, dataObject?, Record.get?_assign_self]
        rfl
    · rw [Bool.not_eq_true] at hl
      rw [FanOut.supply_of_not_lacks hl]
      exact ih hnodup.2 hcalls (fun p' hp' => h p' (List.mem_cons_of_mem p hp'))

/-! ## The reached targets -/

/-- A predicate on the sites the compiler's walk rewrites. -/
def OnTargets (H : Site → Prop) (s : Site) : Prop :=
  s.reached = true → isBridgeTarget s.node = true → H s

theorem onTargets_unreached (H : Site → Prop) {l : List Site}
    (h : ∀ s ∈ l, s.reached = false) : ∀ s ∈ l, OnTargets H s := by
  intro s hs hr
  rw [h s hs] at hr
  cases hr

theorem sitesOfRefs_of_not_container (seen entered : Bool) {r : Json}
    (h : container? (some r) = none) : sitesOfRefs seen entered r = [] := by
  cases r with
  | obj | arr => cases h
  | null | bool | num | str => simp [sitesOfRefs]

/-- The targets at an entry: the entry itself, or those below the container the
    walk enters from it. -/
theorem forall_targets (H : Site → Prop) (seen : Bool) (node : Record) :
    (∀ s ∈ sites seen true (.obj node), OnTargets H s) ↔
      (isBridgeTarget node = true → H ⟨node, seen, true⟩) ∧
      (∀ r, enteredRefs? (.obj node) = some r → ∀ s ∈ sitesOfRefs seen true r, OnTargets H s) := by
  rw [forall_sites (OnTargets H)]
  constructor
  · rintro ⟨hown, hrefs, -⟩
    refine ⟨fun ht => hown (callsLlmBridge_of_target ht) rfl ht, ?_⟩
    intro r hr
    obtain ⟨-, hflow, hc⟩ := enteredRefs?_eq_some hr
    have h := hrefs r (container?_eq_some hc).1
    rw [hflow] at h
    exact h
  · rintro ⟨hown, hrefs⟩
    refine ⟨fun _ _ ht => hown ht, ?_, ?_⟩
    · intro r hget
      by_cases hflow : componentType node "Flow" = true
      · have ht : isBridgeTarget node = false := by
          by_contra hne
          rw [not_flow_of_apiNode (apiNode_of_calls
            (callsLlmBridge_of_target (by simpa using hne)))] at hflow
          cases hflow
        have hent : enteredRefs? (.obj node) = container? (some r) := by
          simp [enteredRefs?, ht, hflow, hget]
        rw [hflow, Bool.and_true]
        cases hc : container? (some r) with
        | none =>
          rw [sitesOfRefs_of_not_container _ _ hc]
          simp
        | some r' =>
          have hrr : r = r' := Option.some.inj (container?_eq_some hc).1
          rw [hrr]
          exact hrefs r' (hent.trans hc)
      · rw [Bool.not_eq_true] at hflow
        rw [hflow, Bool.and_false]
        exact onTargets_unreached H (sitesOfRefs_unreached seen r)
    · intro v _
      exact onTargets_unreached H (sites_unreached v seen)

variable {f : Record → Record}

theorem rewriteContainer_fixed (levels : Nat) :
    ∀ seen r, (∀ s ∈ sitesOfRefs seen true r, OnTargets (fun s => f s.node = s.node) s) →
      rewriteContainer f levels r = r := by
  induction levels with
  | zero => intro _ r _; rfl
  | succ levels ih =>
    intro seen r h
    rw [forall_sitesOfRefs] at h
    rw [rewriteContainer]
    apply mapEntries_eq_self
    intro v hv
    cases v with
    | obj node =>
      obtain ⟨hown, hrefs⟩ := (forall_targets _ _ node).mp (h (.obj node) hv)
      by_cases ht : isBridgeTarget node = true
      · rw [rewriteEntry_target f _ ht, hown ht]
      rw [Bool.not_eq_true] at ht
      cases hr : enteredRefs? (.obj node) with
      | none => exact rewriteEntry_other f _ ht hr
      | some r' =>
        obtain ⟨-, -, hc⟩ := enteredRefs?_eq_some hr
        rw [rewriteEntry_entered f _ hr, ih _ r' (hrefs r' hr),
          Record.assign_get? (container?_eq_some hc).1]
    | null | bool | num | str | arr => rfl

/-! ## When a rewriting grows a document -/

/-- What a rewriting may do to a target: nothing, or let it grow in sight of
    the validator. -/
def MayRewrite (fields : List (String × Json)) (f : Record → Record) (s : Site) : Prop :=
  f s.node = s.node ∨ (s.seen = true ∧ Grows fields (.obj s.node) (.obj (f s.node)))

/-- A container whose targets may be rewritten grows inside its owner. -/
theorem grows_of_mayRewrite (levels : Nat) :
    ∀ node r, Record.get? "$referenced_components" node = some r →
      (∀ s ∈ sitesOfRefs true true r, OnTargets (MayRewrite fields f) s) → Grows fields (.obj node)
        (.obj (Record.assign "$referenced_components" (rewriteContainer f levels r) node)) := by
  induction levels with
  | zero =>
    intro node r hget _
    rw [rewriteContainer, Record.assign_get? hget]
    exact .refl
  | succ levels ih =>
    intro node r hget h
    cases r with
    | obj refs =>
      rw [forall_sitesOfRefs] at h
      apply Grows.entries _ refs [] node hget
      intro v hv
      cases v with
      | obj inner =>
        obtain ⟨hown, hrefs⟩ := (forall_targets _ _ inner).mp (h (.obj inner) hv)
        by_cases ht : isBridgeTarget inner = true
        · rw [rewriteEntry_target f _ ht]
          rcases hown ht with heq | ⟨-, hgrows⟩
          · have heq' : f inner = inner := heq
            rw [heq']
            exact .refl
          · exact hgrows
        rw [Bool.not_eq_true] at ht
        cases hr : enteredRefs? (.obj inner) with
        | none =>
          rw [rewriteEntry_other f _ ht hr]
          exact .refl
        | some r' =>
          obtain ⟨-, -, hc⟩ := enteredRefs?_eq_some hr
          rw [rewriteEntry_entered f _ hr]
          exact ih inner r' (container?_eq_some hc).1 (hrefs r' hr)
      | null | bool | num | str | arr => exact .refl
    | arr xs =>
      -- an array's sites are not seen, so none of them is rewritten
      rw [rewriteContainer_fixed (levels + 1) true, Record.assign_get? hget]
      · exact .refl
      · intro s hs hreached ht
        rcases h s hs hreached ht with heq | ⟨hseen, -⟩
        · exact heq
        have hunseen : ∀ s ∈ sitesOfRefs true true (.arr xs), s.seen = false := by
          rw [forall_sitesOfRefs (fun s => s.seen = false)]
          intro v _
          rw [show (true && (Json.arr xs).isObj) = false from rfl]
          exact sites_unseen v true
        rw [hunseen s hs] at hseen
        cases hseen
    | null | bool | num | str =>
      simp only [rewriteContainer, mapEntries, Record.assign_get? hget]
      exact .refl

/-- What growth keeps of an object. -/
structure Grown (fields : List (String × Json)) (o o' : Record) : Prop where
  data : Record.get? "data" o' = Record.get? "data" o ∨
    ∃ d d', dataObject? o = some d ∧ Record.get? "data" o' = some (.obj d') ∧
      ∀ name, Record.get? name d' = Record.get? name d ∨
        ∃ v, (name, v) ∈ fields ∧ Record.get? name d = none ∧ Record.get? name d' = some v
  refs : ∀ es, Record.get? "$referenced_components" o = some (.obj es) →
    ∃ es', Record.get? "$referenced_components" o' = some (.obj es') ∧
      List.Forall₂ (fun e e' => e.1 = e'.1 ∧ Grows fields e.2 e'.2) es es'
  other : ∀ r, Record.get? "$referenced_components" o = some r → r.isObj = false →
    Record.get? "$referenced_components" o' = some r

theorem Grown.refl (fields : List (String × Json)) (o : Record) : Grown fields o o where
  data := .inl rfl
  refs := by
    intro es hes
    refine ⟨es, hes, ?_⟩
    rw [List.forall₂_same]
    intro e _
    exact ⟨rfl, .refl⟩
  other := fun _ hr _ => hr

theorem forall₂_grows_trans {es es' es'' : Record}
    (h : List.Forall₂ (fun e e' => e.1 = e'.1 ∧ Grows fields e.2 e'.2) es es')
    (h' : List.Forall₂ (fun e e' => e.1 = e'.1 ∧ Grows fields e.2 e'.2) es' es'') :
    List.Forall₂ (fun e e' => e.1 = e'.1 ∧ Grows fields e.2 e'.2) es es'' := by
  induction h generalizing es'' with
  | nil =>
    cases h'
    exact .nil
  | cons hhead _ ih =>
    cases h' with
    | cons hhead' hrest' =>
      exact .cons ⟨hhead.1.trans hhead'.1, hhead.2.trans hhead'.2⟩ (ih hrest')

theorem Grown.step {o o' : Record} (h : Grown fields o o') (step : Supplies fields (.obj o') w) :
    ∃ o'', w = .obj o'' ∧ Grown fields o o'' := by
  cases step with
  | field _ data field value _ hmem hdata hnone =>
    refine ⟨_, rfl, ?_, ?_, ?_⟩
    · right
      rcases h.data with heq | ⟨d, d', hd, hd', hfields⟩
      · have hdata' : dataObject? o = some data := by
          rw [dataObject?, ← heq, ← dataObject?]
          exact hdata
        refine ⟨data, _, hdata', Record.get?_assign_self _ _ _, ?_⟩
        intro name
        by_cases hne : name = field
        · right
          rw [hne]
          exact ⟨value, hmem, hnone, Record.get?_assign_self _ _ _⟩
        · left
          exact Record.get?_assign_ne hne _ _
      · have hsame : data = d' := by
          rw [dataObject?, hd'] at hdata
          exact (Option.some.inj hdata).symm
        refine ⟨d, _, hd, Record.get?_assign_self _ _ _, ?_⟩
        intro name
        rw [hsame] at hnone ⊢
        by_cases hne : name = field
        · right
          rw [hne] at *
          refine ⟨value, hmem, ?_, Record.get?_assign_self _ _ _⟩
          rcases hfields field with heq | ⟨v, _, hd0, _⟩
          · rw [← heq]
            exact hnone
          · exact hd0
        · rw [Record.get?_assign_ne hne]
          exact hfields name
    · intro es hes
      obtain ⟨es', hes', hall⟩ := h.refs es hes
      exact ⟨es', by rw [Record.get?_assign_ne (by decide)]; exact hes', hall⟩
    · intro r hr hobj
      rw [Record.get?_assign_ne (by decide)]
      exact h.other r hr hobj
  | entry _ before after key v w hget hstep =>
    refine ⟨_, rfl, ?_, ?_, ?_⟩
    · rw [Record.get?_assign_ne (by decide)]
      exact h.data
    · intro es hes
      obtain ⟨es', hes', hall⟩ := h.refs es hes
      rw [hget] at hes'
      cases hes'
      refine ⟨_, Record.get?_assign_self _ _ _, forall₂_grows_trans hall ?_⟩
      apply List.rel_append
      · rw [List.forall₂_same]
        intro e _
        exact ⟨rfl, .refl⟩
      · refine .cons ⟨rfl, .single hstep⟩ ?_
        rw [List.forall₂_same]
        intro e _
        exact ⟨rfl, .refl⟩
    · intro r hr hobj
      have hr' := h.other r hr hobj
      rw [hget] at hr'
      cases hr'
      cases hobj
  | subflow _ v w hget hstep =>
    refine ⟨_, rfl, ?_, ?_, ?_⟩
    · rw [Record.get?_assign_ne (by decide)]
      exact h.data
    · intro es hes
      obtain ⟨es', hes', hall⟩ := h.refs es hes
      exact ⟨es', by rw [Record.get?_assign_ne (by decide)]; exact hes', hall⟩
    · intro r hr hobj
      rw [Record.get?_assign_ne (by decide)]
      exact h.other r hr hobj

/-- **Inversion**: what an object grows into keeps what growth keeps. -/
theorem Grows.grown {o : Record}
    (h : Grows fields (.obj o) w) : ∃ o', w = .obj o' ∧ Grown fields o o' := by
  induction h with
  | refl => exact ⟨o, rfl, Grown.refl fields o⟩
  | tail _ step ih =>
    obtain ⟨o', rfl, hgrown⟩ := ih
    exact hgrown.step step

/-- Where a rewritten container has grown, its targets may be rewritten. -/
theorem mayRewrite_of_grows (hf : DataOnly f) (levels : Nat) :
    ∀ node r, Record.get? "$referenced_components" node = some r → withinLevels levels r = true →
      Grows fields (.obj node)
        (.obj (Record.assign "$referenced_components" (rewriteContainer f levels r) node)) →
      ∀ s ∈ sitesOfRefs true true r, OnTargets (MayRewrite fields f) s := by
  induction levels with
  | zero =>
    intro _ r _ hw
    cases hw
  | succ levels ih =>
    intro node r hget hw h
    obtain ⟨o', ho', hgrown⟩ := h.grown
    cases ho'
    cases r with
    | obj refs =>
      obtain ⟨es', hes', hall⟩ := hgrown.refs refs hget
      rw [Record.get?_assign_self, rewriteContainer, mapEntries] at hes'
      cases hes'
      rw [List.forall₂_map_right_iff, List.forall₂_same] at hall
      rw [withinLevels, List.all_eq_true] at hw
      rw [forall_sitesOfRefs]
      intro v hv
      obtain ⟨e, he, rfl⟩ := List.mem_map.mp hv
      have hgrows := (hall e he).2
      cases hv' : e.2 with
      | obj inner =>
        have hwithin := hw e.2 hv
        rw [hv'] at hgrows hwithin
        apply (forall_targets (MayRewrite fields f) _ inner).mpr
        constructor
        · intro ht
          rw [rewriteEntry_target f _ ht] at hgrows
          exact .inr ⟨rfl, hgrows⟩
        · intro r' hr'
          obtain ⟨-, -, hc⟩ := enteredRefs?_eq_some hr'
          rw [rewriteEntry_entered f _ hr'] at hgrows
          rw [hr'] at hwithin
          exact ih inner r' (container?_eq_some hc).1 hwithin hgrows
      | null | bool | num | str | arr => simp [sites]
    | arr xs =>
      have hsame := hgrown.other (.arr xs) hget rfl
      rw [Record.get?_assign_self] at hsame
      have hsites := sitesOfRefs_rewriteContainer hf (levels + 1) true (.arr xs) hw
      rw [Option.some.inj hsame] at hsites
      have hfixed : ∀ s ∈ sitesOfRefs true true (.arr xs), touch f s = s := by
        intro s hs
        have hid : (sitesOfRefs true true (.arr xs)).map (touch f) =
            (sitesOfRefs true true (.arr xs)).map id := by
          rw [← hsites, List.map_id]
        exact List.map_inj_left.mp hid s hs
      intro s hs hreached ht
      have hs' := hfixed s hs
      rw [touch, hreached, ht] at hs'
      exact .inl (congrArg Site.node hs')
    | null | bool | num | str => simp [sitesOfRefs]

variable {parsed : Record}

/-- A rewritten document has grown when its targets may be rewritten. -/
theorem grows_rewriteDocument_iff (hf : DataOnly f) (hw : withinDepth parsed = true) :
    Grows fields (.obj parsed) (.obj (rewriteDocument f parsed)) ↔
      ∀ s ∈ documentSites parsed, OnTargets (MayRewrite fields f) s := by
  rw [forall_documentSites (OnTargets (MayRewrite fields f))]
  cases hr : rootRefs? parsed with
  | none =>
    have hsame : rewriteDocument f parsed = parsed := by rw [rewriteDocument, hr]
    rw [hsame]
    refine iff_of_true .refl ⟨?_, ?_, ?_⟩
    · intro _ hreached
      cases hreached
    · intro r hget
      rw [rootRefs?, hget] at hr
      rw [sitesOfRefs_of_not_container _ _ hr]
      simp
    · intro v _
      exact onTargets_unreached _ (sites_unreached v true)
  | some r =>
    have hget := (container?_eq_some hr).1
    have hlevels : withinLevels (injectMaxDepth + 1) r = true := by
      rw [withinDepth, hr] at hw
      exact hw
    have hdoc : rewriteDocument f parsed =
        Record.assign "$referenced_components" (rewriteContainer f (injectMaxDepth + 1) r)
          parsed := by
      rw [rewriteDocument, hr]
    rw [hdoc]
    constructor
    · intro h
      refine ⟨?_, ?_, ?_⟩
      · intro _ hreached
        cases hreached
      · intro r' hget'
        rw [hget] at hget'
        cases hget'
        exact mayRewrite_of_grows hf _ parsed r hget hlevels h
      · intro v _
        exact onTargets_unreached _ (sites_unreached v true)
    · rintro ⟨-, h, -⟩
      exact grows_of_mayRewrite _ parsed r hget (h r hget)

/-! ## What the fan-outs of a document may do -/

def fanOuts (parsed : Record) : List FanOut := (duties parsed).map (·.toFanOut)

theorem fanOuts_nodup (parsed : Record) : ((fanOuts parsed).map (·.field)).Nodup := by
  rw [fanOuts, List.map_map]
  exact duties_fields parsed

variable {q : Duty}

theorem mem_fanOuts (hq : q ∈ duties parsed) : q.toFanOut ∈ fanOuts parsed :=
  List.mem_map_of_mem hq

theorem demanded_of_mem_demands (hq : q ∈ duties parsed)
    {value : Json} (h : (q.field, value) ∈ demands parsed) : q.demanded = true := by
  obtain ⟨q', hq', heq⟩ := List.mem_map.mp h
  obtain ⟨hmem, hd⟩ := List.mem_filter.mp hq'
  have hfield : q'.field = q.field := congrArg Prod.fst heq
  have hsame : q' = q := List.inj_on_of_nodup_map (duties_fields parsed) hmem hq hfield
  rw [← hsame]
  exact hd

/-- A target may be rewritten by the fan-outs of its document when every field
    they set there is a demanded one that an object can take. -/
theorem mayRewrite_supplyAll_iff (parsed : Record) (s : Site) (hreached : s.reached = true)
    (ht : isBridgeTarget s.node = true) :
    MayRewrite (demands parsed) (supplyAll (fanOuts parsed)) s ↔
      ∀ q ∈ duties parsed, q.writes s = true →
        (dataObject? s.node).isSome = true ∧ s.seen = true ∧ q.demanded = true := by
  have hwrites : ∀ q : Duty, q.writes s = q.lacks s.node := by
    intro q
    rw [Duty.writes, hreached, ht]
    rfl
  constructor
  · intro h q hq hw
    rw [hwrites] at hw
    have hfield := dataField_supplyAll (fanOuts_nodup parsed) (mem_fanOuts hq) s.node
    rw [if_pos hw] at hfield
    rcases h with heq | ⟨hseen, hgrows⟩
    · have hl := lacks_supplyAll (fanOuts_nodup parsed) (mem_fanOuts hq) s.node
      rw [heq, hw] at hl
      cases hl
    obtain ⟨o', ho', hgrown⟩ := hgrows.grown
    cases ho'
    rcases hgrown.data with heq | ⟨d, d', hd, hd', hfields⟩
    · -- `data` is as it was, so the field is still unset
      have hl := lacks_supplyAll (fanOuts_nodup parsed) (mem_fanOuts hq) s.node
      rw [FanOut.lacks, heq, ← FanOut.lacks, hw] at hl
      cases hl
    · refine ⟨by rw [hd]; rfl, hseen, ?_⟩
      rw [dataField, hd'] at hfield
      have hget : Record.get? q.field d' = some q.value := hfield
      rcases hfields q.field with heq | ⟨v, hmem, -, -⟩
      · rw [(FanOut.supply_of_lacks hw hd).1, hget] at heq
        cases heq
      · exact demanded_of_mem_demands hq hmem
  · intro h
    by_cases hnone : ∀ p ∈ fanOuts parsed, p.lacks s.node = false
    · exact .inl (supplyAll_of_not_lacks hnone)
    push Not at hnone
    obtain ⟨p, hp, hl⟩ := hnone
    obtain ⟨q, hq, rfl⟩ := List.mem_map.mp hp
    have hseen := (h q hq (by rw [hwrites]; simpa using hl)).2.1
    refine .inr ⟨hseen, Grows.supplyAll (fanOuts_nodup parsed) (callsLlmBridge_of_target ht) ?_⟩
    intro p' hp' hl'
    obtain ⟨q', hq', rfl⟩ := List.mem_map.mp hp'
    obtain ⟨hdata, -, hd⟩ := h q' hq' (by rw [hwrites]; exact hl')
    refine ⟨hdata, List.mem_map.mpr ⟨q', List.mem_filter.mpr ⟨hq', hd⟩, rfl⟩⟩

/-- Both scans are empty when every demanded field passes its test at every
    seen site. -/
theorem scans_eq_nil_iff (parsed : Record) :
    (scanForCinatraLlmInSource parsed = [] ∧ scanForToolboxIdsInSource parsed = []) ↔
      ∀ q ∈ duties parsed, q.demanded = true → ∀ s ∈ documentSites parsed, s.seen = true →
        (dataField s.node q.field).any q.carries = true := by
  rw [duties, List.forall_mem_append]
  refine and_congr ?_ ?_
  · rw [scanForCinatraLlmInSource]
    cases cinatraMetadata parsed "llm" with
    | none => simp [llmDuties]
    | some llm =>
      rw [Option.any_some, llmDuties, List.forall_mem_singleton]
      by_cases hobj : llm.isObj = true
      · rw [if_pos hobj, scanBridgeCalls_eq_nil_iff]
        simp [llmDuty, llmFanOut, hobj]
      · rw [if_neg hobj]
        simp [llmDuty, hobj]
  · rw [scanForToolboxIdsInSource]
    cases stringItems? (cinatraMetadata parsed "toolboxes") with
    | none => simp [toolboxDuties]
    | some ts =>
      cases ts with
      | nil => simp [toolboxDuties]
      | cons t ts =>
        rw [toolboxDuties, List.forall_mem_singleton]
        show scanBridgeCalls parsed _ _ _ = [] ↔ _
        rw [scanBridgeCalls_eq_nil_iff]
        simp [toolboxDuty, toolboxFanOut]

/-- A field after the fan-outs: it was set by one of them, or passes
    its test as the author left it. -/
theorem carries_touch_iff (hq : q ∈ duties parsed) (s : Site) :
    (dataField (touch (supplyAll (fanOuts parsed)) s).node q.field).any q.carries = true ↔
      (q.writes s = false → (dataField s.node q.field).any q.carries = true) := by
  rw [touch, Duty.writes]
  by_cases hr : (s.reached && isBridgeTarget s.node) = true
  · rw [if_pos hr, hr, Bool.true_and]
    dsimp only
    rw [dataField_supplyAll (fanOuts_nodup parsed) (mem_fanOuts hq) s.node]
    by_cases hl : q.lacks s.node = true
    · rw [if_pos hl, hl]
      simp [carries_of_duty hq]
    · rw [Bool.not_eq_true] at hl
      rw [hl]
      simp
  · rw [if_neg hr]
    rw [Bool.not_eq_true] at hr
    rw [hr]
    simp

/-- The document grows when every field the compiler sets is demanded, and an
    object can take it. -/
theorem grows_fanOuts_iff (hw : withinDepth parsed = true) : Grows (demands parsed) (.obj parsed)
        (.obj (rewriteDocument (supplyAll (fanOuts parsed)) parsed)) ↔
      ∀ q ∈ duties parsed, ∀ s ∈ documentSites parsed, q.writes s = true →
        (dataObject? s.node).isSome = true ∧ s.seen = true ∧ q.demanded = true := by
  rw [grows_rewriteDocument_iff (supplyAll_dataOnly _) hw]
  constructor
  · intro h q hq s hs hwrites
    have hflags := hwrites
    rw [Duty.writes, Bool.and_eq_true, Bool.and_eq_true] at hflags
    obtain ⟨⟨hreached, ht⟩, -⟩ := hflags
    exact (mayRewrite_supplyAll_iff parsed s hreached ht).mp (h s hs hreached ht) q hq hwrites
  · intro h s hs hreached ht
    exact (mayRewrite_supplyAll_iff parsed s hreached ht).mpr (fun q hq => h q hq s hs)

/-- The scans of the compiled document, by the sites of the document. -/
theorem scans_fanOuts_iff (hw : withinDepth parsed = true) :
    (scanForCinatraLlmInSource (rewriteDocument (supplyAll (fanOuts parsed)) parsed) = [] ∧
      scanForToolboxIdsInSource (rewriteDocument (supplyAll (fanOuts parsed)) parsed) = []) ↔
      ∀ q ∈ duties parsed, ∀ s ∈ documentSites parsed, s.seen = true → q.demanded = true →
        q.writes s = false → (dataField s.node q.field).any q.carries = true := by
  rw [scans_eq_nil_iff, duties_rewriteDocument]
  refine forall_congr' fun q => forall_congr' fun hq => ?_
  have htouch : (∀ s ∈ documentSites (rewriteDocument (supplyAll (fanOuts parsed)) parsed),
        s.seen = true → (dataField s.node q.field).any q.carries = true) ↔
      ∀ s ∈ documentSites parsed, s.seen = true → q.writes s = false →
        (dataField s.node q.field).any q.carries = true := by
    rw [forall_documentSites_rewrite
      (fun s => s.seen = true → (dataField s.node q.field).any q.carries = true)
      (supplyAll_dataOnly _) hw]
    · refine forall_congr' fun s => forall_congr' fun _ => ?_
      have hseen : (touch (supplyAll (fanOuts parsed)) s).seen = s.seen := by
        rw [touch]
        split <;> rfl
      rw [hseen]
      exact forall_congr' fun _ => carries_touch_iff hq s
    · dsimp only
      rw [dataField, dataField, get?_rewriteDocument _ _ (by decide)]
  constructor
  · intro h s hs hseen hd
    exact htouch.mp (h hd) s hs hseen
  · intro h hd
    exact htouch.mpr (fun s hs hseen => h s hs hseen hd)

/-- **Compiler and validator agree on the documents whose duties fit their
    sites**, and on no other. -/
theorem agrees_iff_fits (parsed : Record) : Agrees parsed ↔ Fits parsed := by
  have hrun : ∀ compiled, fanOutMetadata parsed = .ok compiled ↔
      (duties parsed = [] ∨ withinDepth parsed = true) ∧
        compiled = rewriteDocument (supplyAll (fanOuts parsed)) parsed := by
    intro compiled
    rw [fanOutMetadata_eq, runAll_eq_ok_iff, List.map_eq_nil_iff]
    rfl
  constructor
  · rintro ⟨compiled, hok, hllm, htools, hgrows, -⟩
    obtain ⟨hdepth, rfl⟩ := (hrun compiled).mp hok
    refine ⟨hdepth, ?_⟩
    intro q hq s hs
    have hw : withinDepth parsed = true := by
      rcases hdepth with hnil | hw
      · rw [hnil] at hq
        cases hq
      · exact hw
    exact ⟨(grows_fanOuts_iff hw).mp hgrows q hq s hs,
      (scans_fanOuts_iff hw).mp ⟨hllm, htools⟩ q hq s hs⟩
  · rintro ⟨hdepth, hfits⟩
    have hok := (hrun _).mpr ⟨hdepth, rfl⟩
    refine ⟨_, hok, ?_⟩
    rcases hdepth with hnil | hw
    · -- nothing is declared: the document compiles to itself
      have hself : rewriteDocument (supplyAll (fanOuts parsed)) parsed = parsed := by
        rw [fanOuts, hnil]
        exact rewriteDocument_id parsed
      have hscans := (scans_eq_nil_iff parsed).mpr (by rw [hnil]; simp)
      rw [hself] at hok ⊢
      exact ⟨hscans.1, hscans.2, .refl, hok⟩
    · have hscans := (scans_fanOuts_iff hw).mpr (fun q hq s hs => (hfits q hq s hs).2)
      exact ⟨hscans.1, hscans.2, (grows_fanOuts_iff hw).mpr (fun q hq s hs => (hfits q hq s hs).1),
        fanOutMetadata_idem hok⟩

/-- A bridge call in the inline subflow of a `FlowNode`, below a declared block:
    the validator sees it, the compiler does not reach it. -/
def inlineSubflow : Record :=
  [("component_type", .str "Flow"),
   ("metadata", .obj [("cinatra", .obj [("llm", .obj [("preferredProvider", .str "gemini")])])]),
   ("$referenced_components", .obj [("transcribe", .obj [("component_type", .str "FlowNode"),
        ("subflow", .obj [("component_type", .str "Flow"), ("$referenced_components", .obj
             [("call", .obj [("component_type", .str "ApiNode"), ("url", .str "/api/llm-bridge"),
                ("data", .obj [])])])])])])]

/-- **The compiler leaves the call without the block it declares.** -/
theorem inlineSubflow_disagrees : ¬ Agrees inlineSubflow := by
  rintro ⟨compiled, hok, hscan, -⟩
  have hself : fanOutMetadata inlineSubflow = .ok inlineSubflow := by decide +kernel
  have hfound : scanForCinatraLlmInSource inlineSubflow ≠ [] := by decide +kernel
  rw [hself] at hok
  cases hok
  exact hfound hscan

end AgentOas
