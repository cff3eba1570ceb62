import Cinatra.AgentOas.FanOutWalk

/-! # Bridge sites — where the two walks come to

    The compiler and the validator walk one document in different ways.  The
    sites of a document are the bridge calls either walk comes to, each with
    two flags: the validator sees it, the compiler reaches it.

    * **`scanBridgeCalls_eq_nil_iff`** — a scan is empty when every seen site
      carries the field;
    * **`documentSites_rewrite`** — the sites of the rewritten document are
      the sites of the document, with the reached targets rewritten. -/

namespace AgentOas

open JsonValue

/-- A bridge call, and which of the walks comes to it. -/
structure Site where
  node    : Record
  seen    : Bool
  reached : Bool

mutual
/-- The sites at a value and below. -/
def sites (seen reached : Bool) : Json → List Site
  | .obj o =>
    (if callsLlmBridge o then [⟨o, seen, reached⟩] else []) ++
    (sitesInRefs seen (reached && componentType o "Flow") o ++ sitesInSubflow seen o)
  | _ => []

def sitesInRefs (seen entered : Bool) : Record → List Site
  | [] => []
  | (k, v) :: o =>
    if k = "$referenced_components" then sitesOfRefs seen entered v
    else sitesInRefs seen entered o

/-- The validator does not enter an array, the compiler does. -/
def sitesOfRefs (seen entered : Bool) : Json → List Site
  | .obj refs => sitesOfEntries seen entered refs
  | .arr items => sitesOfItems entered items
  | _ => []

def sitesOfEntries (seen entered : Bool) : Record → List Site
  | [] => []
  | (_, v) :: refs => sites seen entered v ++ sitesOfEntries seen entered refs

def sitesOfItems (entered : Bool) : List Json → List Site
  | [] => []
  | v :: items => sites false entered v ++ sitesOfItems entered items

/-- The compiler does not enter an inline subflow. -/
def sitesInSubflow (seen : Bool) : Record → List Site
  | [] => []
  | (k, v) :: o => if k = "subflow" then sites seen false v else sitesInSubflow seen o
end

/-- The sites of a document: the compiler enters the root without testing it. -/
def documentSites (parsed : Record) : List Site :=
  (if callsLlmBridge parsed then [⟨parsed, true, false⟩] else []) ++
  (sitesInRefs true true parsed ++ sitesInSubflow true parsed)

/-! ## The walks by their equations -/

theorem sitesInRefs_eq (seen entered : Bool) (o : Record) : sitesInRefs seen entered o =
      ((o.get? "$referenced_components").map (sitesOfRefs seen entered)).getD [] := by
  induction o with
  | nil => simp [sitesInRefs]
  | cons f o ih =>
    obtain ⟨k, v⟩ := f
    by_cases hk : k = "$referenced_components"
    · simp [sitesInRefs, Record.get?, hk]
    · simp [sitesInRefs, Record.get?, hk, ih]

theorem sitesInSubflow_eq (seen : Bool) (o : Record) :
    sitesInSubflow seen o = ((o.get? "subflow").map (sites seen false)).getD [] := by
  induction o with
  | nil => simp [sitesInSubflow]
  | cons f o ih =>
    obtain ⟨k, v⟩ := f
    by_cases hk : k = "subflow"
    · simp [sitesInSubflow, Record.get?, hk]
    · simp [sitesInSubflow, Record.get?, hk, ih]

/-- A container's sites are those of its entries; none is seen in an array. -/
theorem sitesOfRefs_eq (seen entered : Bool) (r : Json) : sitesOfRefs seen entered r =
      (entryValues r).flatMap (sites (seen && r.isObj) entered) := by
  cases r with
  | obj o =>
    rw [sitesOfRefs]
    induction o with
    | nil => simp [sitesOfEntries, entryValues]
    | cons f o ih =>
      simp only [entryValues, Json.isObj, Bool.and_true] at ih ⊢
      rw [sitesOfEntries, ih]
      simp
  | arr xs =>
    rw [sitesOfRefs]
    induction xs with
    | nil => simp [sitesOfItems, entryValues]
    | cons x xs ih =>
      simp only [entryValues, Json.isObj, Bool.and_false] at ih ⊢
      rw [sitesOfItems, ih]
      simp
  | null | bool | num | str => simp [sitesOfRefs, entryValues]

theorem bridgeCallsInRefs_eq (path : String) (o : Record) : bridgeCallsInRefs path o =
      ((o.get? "$referenced_components").map (bridgeCallsOfRefs path)).getD [] := by
  induction o with
  | nil => simp [bridgeCallsInRefs]
  | cons f o ih =>
    obtain ⟨k, v⟩ := f
    by_cases hk : k = "$referenced_components"
    · simp [bridgeCallsInRefs, Record.get?, hk]
    · simp [bridgeCallsInRefs, Record.get?, hk, ih]

theorem bridgeCallsInSubflow_eq (path : String) (o : Record) : bridgeCallsInSubflow path o =
      ((o.get? "subflow").map (bridgeCalls (path ++ ".subflow"))).getD [] := by
  induction o with
  | nil => simp [bridgeCallsInSubflow]
  | cons f o ih =>
    obtain ⟨k, v⟩ := f
    by_cases hk : k = "subflow"
    · simp [bridgeCallsInSubflow, Record.get?, hk]
    · simp [bridgeCallsInSubflow, Record.get?, hk, ih]

/-! ## Predicates on sites -/

theorem forall_optional {α : Type} {P : α → Prop} {f : Json → List α} (v? : Option Json) :
    (∀ s ∈ (v?.map f).getD [], P s) ↔ ∀ v, v? = some v → ∀ s ∈ f v, P s := by
  cases v? with
  | none | some => simp

theorem forall_sitesOfRefs (P : Site → Prop) (seen entered : Bool) (r : Json) :
    (∀ s ∈ sitesOfRefs seen entered r, P s) ↔
      ∀ v ∈ entryValues r, ∀ s ∈ sites (seen && r.isObj) entered v, P s := by
  rw [sitesOfRefs_eq]
  simp only [List.mem_flatMap, forall_exists_index, and_imp]
  constructor
  · intro h v hv s hs
    exact h s v hv hs
  · intro h s v hv hs
    exact h v hv s hs

theorem forall_sites (P : Site → Prop) (seen reached : Bool) (o : Record) :
    (∀ s ∈ sites seen reached (.obj o), P s) ↔ (callsLlmBridge o → P ⟨o, seen, reached⟩) ∧
      (∀ r, o.get? "$referenced_components" = some r →
        ∀ s ∈ sitesOfRefs seen (reached && componentType o "Flow") r, P s) ∧
      (∀ v, o.get? "subflow" = some v → ∀ s ∈ sites seen false v, P s) := by
  rw [sites, sitesInRefs_eq, sitesInSubflow_eq, List.forall_mem_append,
    List.forall_mem_append, forall_optional, forall_optional]
  by_cases hc : callsLlmBridge o <;> simp [hc]

/-- Below a value the compiler does not reach it reaches nothing. -/
theorem sites_unreached (v : Json) : ∀ seen, ∀ s ∈ sites seen false v, s.reached = false := by
  induction v using Json.parts_induction with
  | step v ih =>
    intro seen
    cases v with
    | obj o =>
      rw [forall_sites (fun s => s.reached = false), Bool.false_and]
      refine ⟨fun _ => rfl, ?_, ?_⟩
      · intro r hr
        rw [forall_sitesOfRefs (fun s => s.reached = false)]
        intro w hw
        exact (ih o _ r rfl hr).2 w hw _
      · intro w hw
        exact (ih o _ w rfl hw).1 seen
    | null | bool | num | str | arr => intro s hs; cases hs

/-- Below a value the validator does not see it sees nothing. -/
theorem sites_unseen (v : Json) : ∀ reached, ∀ s ∈ sites false reached v, s.seen = false := by
  induction v using Json.parts_induction with
  | step v ih =>
    intro reached
    cases v with
    | obj o =>
      rw [forall_sites (fun s => s.seen = false)]
      refine ⟨fun _ => rfl, ?_, ?_⟩
      · intro r hr
        rw [forall_sitesOfRefs (fun s => s.seen = false), Bool.false_and]
        intro w hw
        exact (ih o _ r rfl hr).2 w hw _
      · intro w hw
        exact (ih o _ w rfl hw).1 false
    | null | bool | num | str | arr => intro s hs; cases hs

/-- The calls below a container are its seen sites when they are so below each
    entry. -/
theorem forall_bridgeCallsOfRefs (P : Record → Prop) (path : String) (entered : Bool) (r : Json)
    (h : ∀ v ∈ entryValues r, ∀ path, (∀ c ∈ bridgeCalls path v, P c.1) ↔
      ∀ s ∈ sites true entered v, s.seen → P s.node) : (∀ c ∈ bridgeCallsOfRefs path r, P c.1) ↔
      ∀ s ∈ sitesOfRefs true entered r, s.seen → P s.node := by
  rw [forall_sitesOfRefs (fun s => s.seen → P s.node)]
  cases r with
  | obj refs =>
    rw [bridgeCallsOfRefs]
    induction refs with
    | nil => simp [bridgeCallsOfEntries, entryValues]
    | cons f refs ih =>
      obtain ⟨k, v⟩ := f
      have hv := h v (.head _) (path ++ ".$referenced_components." ++ k)
      have hrest := ih (fun w hw => h w (.tail _ hw))
      rw [bridgeCallsOfEntries, List.forall_mem_append, hv, hrest]
      simp [entryValues, Json.isObj]
  | arr items =>
    constructor
    · intro _ w _ s hs hseen
      have hs' : s ∈ sites false entered w := by simpa [Json.isObj] using hs
      rw [sites_unseen w entered s hs'] at hseen
      cases hseen
    · intro _
      simp [bridgeCallsOfRefs]
  | null | bool | num | str => simp [bridgeCallsOfRefs, entryValues]

theorem forall_bridgeCalls (P : Record → Prop) (v : Json) :
    ∀ path reached, (∀ c ∈ bridgeCalls path v, P c.1) ↔
      ∀ s ∈ sites true reached v, s.seen → P s.node := by
  induction v using Json.parts_induction with
  | step v ih =>
    intro path reached
    cases v with
    | obj o =>
      rw [forall_sites (fun s => s.seen → P s.node), bridgeCalls, bridgeCallsInRefs_eq,
        bridgeCallsInSubflow_eq, List.forall_mem_append, List.forall_mem_append,
        forall_optional, forall_optional]
      refine and_congr ?_ (and_congr ?_ ?_)
      · by_cases hc : callsLlmBridge o <;> simp [hc]
      · refine forall_congr' fun r => forall_congr' fun hr => ?_
        apply forall_bridgeCallsOfRefs
        intro w hw path
        exact (ih o _ r rfl hr).2 w hw path _
      · exact forall_congr' fun w => forall_congr' fun hw =>
          (ih o _ w rfl hw).1 _ _
    | null | bool | num | str | arr => simp [bridgeCalls, sites]

theorem forall_documentSites (P : Site → Prop) (parsed : Record) :
    (∀ s ∈ documentSites parsed, P s) ↔ (callsLlmBridge parsed → P ⟨parsed, true, false⟩) ∧
      (∀ r, parsed.get? "$referenced_components" = some r → ∀ s ∈ sitesOfRefs true true r, P s) ∧
      (∀ v, parsed.get? "subflow" = some v → ∀ s ∈ sites true false v, P s) := by
  rw [documentSites, sitesInRefs_eq, sitesInSubflow_eq, List.forall_mem_append,
    List.forall_mem_append, forall_optional, forall_optional]
  by_cases hc : callsLlmBridge parsed <;> simp [hc]

theorem forall_walkBridgeApiNodes (P : Record → Prop) (parsed : Record) :
    (∀ c ∈ walkBridgeApiNodes parsed, P c.1) ↔ ∀ s ∈ documentSites parsed, s.seen → P s.node := by
  rw [walkBridgeApiNodes, bridgeCalls, bridgeCallsInRefs_eq, bridgeCallsInSubflow_eq,
    List.forall_mem_append, List.forall_mem_append, forall_optional, forall_optional,
    forall_documentSites (fun s => s.seen → P s.node)]
  refine and_congr ?_ (and_congr ?_ ?_)
  · by_cases hc : callsLlmBridge parsed <;> simp [hc]
  · refine forall_congr' fun r => forall_congr' fun _ => ?_
    apply forall_bridgeCallsOfRefs
    intro w _ path
    exact forall_bridgeCalls P w path true
  · exact forall_congr' fun w => forall_congr' fun _ => forall_bridgeCalls P w _ false

theorem scanBridgeCalls_eq_nil_iff (parsed : Record) (field : String) (carries : Json → Bool)
    (finding : Record → String → ReviewFinding) :
    scanBridgeCalls parsed field carries finding = [] ↔
      ∀ s ∈ documentSites parsed, s.seen → (dataField s.node field).any carries := by
  rw [scanBridgeCalls, List.map_eq_nil_iff, List.filter_eq_nil_iff,
    ← forall_walkBridgeApiNodes (fun node => (dataField node field).any carries)]
  simp

/-! ## The compiler's walk -/

/-- A site as the compiler's walk leaves it. -/
def touch (f : Record → Record) (s : Site) : Site :=
  if s.reached && isBridgeTarget s.node then { s with node := f s.node } else s

theorem includesFrom_of_suffix {part t : List Char} (h : part <:+ t) :
    includesFrom part t = true := by
  induction t with
  | nil =>
    rw [List.suffix_nil.mp h]
    rfl
  | cons c t ih =>
    rw [includesFrom, Bool.or_eq_true, decide_eq_true_eq]
    rcases List.suffix_cons_iff.mp h with rfl | h
    · exact .inl (List.prefix_refl _)
    · exact .inr (ih h)

variable {node : Record}

theorem callsLlmBridge_of_target (h : isBridgeTarget node = true) : callsLlmBridge node = true := by
  rw [isBridgeTarget, Bool.and_eq_true] at h
  obtain ⟨hapi, hurl⟩ := h
  rw [callsLlmBridge, hapi, Bool.true_and]
  cases hget : Record.get? "url" node with
  | none => rw [hget] at hurl; cases hurl
  | some v =>
    rw [hget] at hurl
    cases v with
    | str url =>
      show includes url "/api/llm-bridge" = true
      simp only [targetsLlmBridge, Bool.or_eq_true, endsWith, decide_eq_true_eq, beq_iff_eq] at hurl
      apply includesFrom_of_suffix
      rcases hurl with (rfl | h) | h
      · exact List.suffix_refl _
      · rw [String.toList_append] at h
        exact (List.suffix_append _ _).trans h
      · exact h
    | null | bool | num | arr | obj => cases hurl

theorem not_flow_of_apiNode (h : componentType node "ApiNode" = true) :
    componentType node "Flow" = false := by
  rw [componentType, beq_iff_eq] at h
  rw [componentType, h]
  decide

theorem apiNode_of_calls (h : callsLlmBridge node = true) :
    componentType node "ApiNode" = true := by
  rw [callsLlmBridge, Bool.and_eq_true] at h
  exact h.1

theorem touch_unreached (f : Record → Record) {l : List Site}
    (h : ∀ s ∈ l, s.reached = false) : l.map (touch f) = l := by
  have hid : l.map (touch f) = l.map id := by
    apply List.map_congr_left
    intro s hs
    rw [touch, h s hs]
    rfl
  rw [hid, List.map_id]

theorem sitesOfRefs_unreached (seen : Bool) (r : Json) :
    ∀ s ∈ sitesOfRefs seen false r, s.reached = false := by
  rw [forall_sitesOfRefs (fun s => s.reached = false)]
  intro v _
  exact sites_unreached v _

theorem sites_obj (seen reached : Bool) (o : Record) : sites seen reached (.obj o) =
      (if callsLlmBridge o then [⟨o, seen, reached⟩] else []) ++
      (((o.get? "$referenced_components").map
          (sitesOfRefs seen (reached && componentType o "Flow"))).getD [] ++
        ((o.get? "subflow").map (sites seen false)).getD []) := by
  rw [sites, sitesInRefs_eq, sitesInSubflow_eq]

theorem touch_below (f : Record → Record) (seen : Bool) (r? v? : Option Json) :
    ((r?.map (sitesOfRefs seen false)).getD [] ++ (v?.map (sites seen false)).getD []).map
        (touch f) =
      (r?.map (sitesOfRefs seen false)).getD [] ++ (v?.map (sites seen false)).getD [] := by
  apply touch_unreached
  rw [List.forall_mem_append, forall_optional, forall_optional]
  exact ⟨fun r _ => sitesOfRefs_unreached seen r, fun v _ => sites_unreached v seen⟩

variable {f : Record → Record}

theorem sites_rewriteEntry (hf : DataOnly f) (inner : Json → Json) (seen : Bool) (v : Json)
    (ih : ∀ r, enteredRefs? v = some r →
      sitesOfRefs seen true (inner r) = (sitesOfRefs seen true r).map (touch f)) :
    sites seen true (rewriteEntry f inner v) = (sites seen true v).map (touch f) := by
  cases v with
  | obj node =>
    by_cases ht : isBridgeTarget node = true
    · -- a bridge target: its own site is rewritten, the sites below are not reached
      have hcalls := callsLlmBridge_of_target ht
      have hflow := not_flow_of_apiNode (apiNode_of_calls hcalls)
      rw [rewriteEntry_target f inner ht, sites_obj, sites_obj, hf.componentType,
        hf.callsLlmBridge, hf _ (by decide), hf _ (by decide), hflow, hcalls, Bool.and_false,
        List.map_append, touch_below]
      simp [touch, ht]
    rw [Bool.not_eq_true] at ht
    cases hr : enteredRefs? (.obj node) with
    | some r =>
      -- a `Flow`: no site itself, its references are rewritten
      obtain ⟨-, hflow, hc⟩ := enteredRefs?_eq_some hr
      have hcalls : callsLlmBridge node = false := by
        by_contra hne
        rw [not_flow_of_apiNode (apiNode_of_calls (by simpa using hne))] at hflow
        cases hflow
      have hcalls' :
          callsLlmBridge (Record.assign "$referenced_components" (inner r) node) = false := by
        simpa [callsLlmBridge, componentType] using hcalls
      rw [rewriteEntry_entered f inner hr, sites_obj, sites_obj, hcalls, hcalls',
        componentType_assign, Record.get?_assign_self,
        Record.get?_assign_ne (by decide), (container?_eq_some hc).1, hflow]
      have hsub := touch_below f seen none (Record.get? "subflow" node)
      simp only [Option.map_none, Option.getD_none, List.nil_append] at hsub
      simp [ih r hr, hsub]
    | none =>
      -- any other entry is left alone, and its own site is no target
      rw [rewriteEntry_other f inner ht hr]
      symm
      rw [sites_obj, List.map_append]
      have hown : (if callsLlmBridge node then [(⟨node, seen, true⟩ : Site)] else []).map
          (touch f) = if callsLlmBridge node then [⟨node, seen, true⟩] else [] := by
        by_cases hcalls : callsLlmBridge node <;> simp [hcalls, touch, ht]
      rw [hown]
      congr 1
      by_cases hflow : componentType node "Flow" = true
      · have hc : container? (Record.get? "$referenced_components" node) = none := by
          simpa [enteredRefs?, ht, hflow] using hr
        have hnil : ∀ entered, ((Record.get? "$referenced_components" node).map
              (sitesOfRefs seen entered)).getD [] = [] := by
          intro entered
          cases hget : Record.get? "$referenced_components" node with
          | none => rfl
          | some w =>
            rw [hget] at hc
            cases w with
            | obj | arr => cases hc
            | null | bool | num | str => simp [sitesOfRefs]
        rw [hnil]
        have hsub := touch_below f seen none (Record.get? "subflow" node)
        simpa using hsub
      · rw [Bool.not_eq_true] at hflow
        rw [hflow, Bool.and_false]
        exact touch_below f seen _ _
  | null | bool | num | str | arr => simp [rewriteEntry, sites]

theorem isObj_mapEntries (g : Json → Json) (r : Json) : (mapEntries g r).isObj = r.isObj := by
  cases r <;> rfl

/-- The sites below a rewritten container, where the walk stays within its
    levels. -/
theorem sitesOfRefs_rewriteContainer (hf : DataOnly f) (levels : Nat) :
    ∀ seen r, withinLevels levels r = true → sitesOfRefs seen true (rewriteContainer f levels r) =
        (sitesOfRefs seen true r).map (touch f) := by
  induction levels with
  | zero =>
    intro seen r h
    cases h
  | succ levels ih =>
    intro seen r h
    rw [withinLevels, List.all_eq_true] at h
    rw [rewriteContainer, sitesOfRefs_eq, sitesOfRefs_eq, entryValues_mapEntries,
      isObj_mapEntries, List.flatMap_map, List.map_flatMap]
    apply List.flatMap_congr
    intro v hv
    apply sites_rewriteEntry hf
    intro r' hr'
    have hv' := h v hv
    rw [hr'] at hv'
    exact ih _ r' hv'

/-- A predicate on the sites of a rewritten document, for one that does not
    tell the two roots apart. -/
theorem forall_documentSites_rewrite (P : Site → Prop) (hf : DataOnly f)
    {parsed : Record} (h : withinDepth parsed = true)
    (hroot : P ⟨rewriteDocument f parsed, true, false⟩ ↔ P ⟨parsed, true, false⟩) :
    (∀ s ∈ documentSites (rewriteDocument f parsed), P s) ↔
      ∀ s ∈ documentSites parsed, P (touch f s) := by
  have hkeep : ∀ name, name ≠ "$referenced_components" →
      Record.get? name (rewriteDocument f parsed) = Record.get? name parsed :=
    fun name hne => get?_rewriteDocument f parsed hne
  have hcalls : callsLlmBridge (rewriteDocument f parsed) = callsLlmBridge parsed := by
    rw [callsLlmBridge, callsLlmBridge, componentType, componentType, hkeep _ (by decide),
      hkeep _ (by decide)]
  rw [forall_documentSites, forall_documentSites (fun s => P (touch f s)), hcalls,
    hkeep "subflow" (by decide)]
  refine and_congr ?_ (and_congr ?_ ?_)
  · rw [hroot]
    rfl
  · cases hr : rootRefs? parsed with
    | none =>
      have hsame : rewriteDocument f parsed = parsed := by rw [rewriteDocument, hr]
      rw [hsame]
      refine forall_congr' fun r => forall_congr' fun hget => ?_
      rw [rootRefs?, hget] at hr
      cases r with
      | obj | arr => cases hr
      | null | bool | num | str => simp [sitesOfRefs]
    | some r =>
      have hget := (container?_eq_some hr).1
      have hlevels : withinLevels (injectMaxDepth + 1) r = true := by
        rw [withinDepth, hr] at h
        exact h
      have hget' : Record.get? "$referenced_components" (rewriteDocument f parsed) =
          some (rewriteContainer f (injectMaxDepth + 1) r) := by
        rw [rewriteDocument, hr]
        exact Record.get?_assign_self _ _ _
      rw [hget, hget']
      simp only [Option.some.injEq, forall_eq']
      rw [sitesOfRefs_rewriteContainer hf _ true r hlevels]
      exact List.forall_mem_map
  · refine forall_congr' fun v => forall_congr' fun _ => ?_
    conv_lhs => rw [← touch_unreached f (sites_unreached v true)]
    exact List.forall_mem_map

end AgentOas
