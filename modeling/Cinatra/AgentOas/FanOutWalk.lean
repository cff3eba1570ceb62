import Cinatra.AgentOas.LlmBridge

/-! # The fan-out walk — a bounded rewriting

    The compiler's walk fails on depth alone.  Within the depth it is a pure
    rewriting of the bridge targets it enters, so walks over one document
    compose, and a walk that sets nothing new is the identity.

    * **`FanOut.run_eq`** — a fan-out is an error or a rewriting;
    * **`runAll_eq`** — several fan-outs are one rewriting. -/

namespace AgentOas

open JsonValue

/-! ## The walk as a rewriting -/

/-- The container the walk enters from an entry. -/
def enteredRefs? : Json → Option Json
  | .obj node =>
    if isBridgeTarget node then none
    else if componentType node "Flow" then
      container? (Record.get? "$referenced_components" node)
    else none
  | _ => none

/-- The walk stays within a number of levels. -/
def withinLevels : Nat → Json → Bool
  | 0, _ => false
  | levels + 1, r =>
    (entryValues r).all (fun v => ((enteredRefs? v).map (withinLevels levels)).getD true)

/-- An entry rewritten: `f` on a bridge target, `inner` below a `Flow`. -/
def rewriteEntry (f : Record → Record) (inner : Json → Json) : Json → Json
  | .obj node =>
    if isBridgeTarget node then .obj (f node)
    else
      match enteredRefs? (.obj node) with
      | some r => .obj (Record.assign "$referenced_components" (inner r) node)
      | none => .obj node
  | v => v

def rewriteContainer (f : Record → Record) : Nat → Json → Json
  | 0, r => r
  | levels + 1, r => mapEntries (rewriteEntry f (rewriteContainer f levels)) r

variable {node : Record} {r : Json}

/-- What the walk enters is the `$referenced_components` of a `Flow`. -/
theorem enteredRefs?_eq_some (h : enteredRefs? (.obj node) = some r) :
    isBridgeTarget node = false ∧ componentType node "Flow" = true ∧
      container? (Record.get? "$referenced_components" node) = some r := by
  rw [enteredRefs?] at h
  by_cases ht : isBridgeTarget node
  · rw [if_pos ht] at h
    cases h
  by_cases hf : componentType node "Flow"
  · rw [if_neg ht, if_pos hf] at h
    exact ⟨by simpa using ht, hf, h⟩
  · rw [if_neg ht, if_neg hf] at h
    cases h

theorem rewriteEntry_target (f : Record → Record) (inner : Json → Json)
    (h : isBridgeTarget node = true) : rewriteEntry f inner (.obj node) = .obj (f node) := by
  rw [rewriteEntry, if_pos h]

theorem rewriteEntry_entered (f : Record → Record) (inner : Json → Json)
    (h : enteredRefs? (.obj node) = some r) : rewriteEntry f inner (.obj node) =
      .obj (Record.assign "$referenced_components" (inner r) node) := by
  rw [rewriteEntry, (enteredRefs?_eq_some h).1, h]
  rfl

theorem rewriteEntry_other (f : Record → Record) (inner : Json → Json)
    (ht : isBridgeTarget node = false) (h : enteredRefs? (.obj node) = none) :
    rewriteEntry f inner (.obj node) = .obj node := by
  rw [rewriteEntry, ht, h]
  rfl

theorem FanOut.visitEntry_eq (p : FanOut) (levels : Nat) (v : Json)
    (ih : ∀ r, p.visitContainer levels r =
      if withinLevels levels r then .ok (rewriteContainer p.supply levels r)
      else .error p.tooDeep) : p.visitEntry (p.visitContainer levels) v =
      if ((enteredRefs? v).map (withinLevels levels)).getD true then
        .ok (rewriteEntry p.supply (rewriteContainer p.supply levels) v) else .error p.tooDeep := by
  cases v with
  | obj node =>
    by_cases ht : isBridgeTarget node
    · simp [visitEntry, enteredRefs?, rewriteEntry, ht]
    by_cases hf : componentType node "Flow"
    · cases hr : container? (Record.get? "$referenced_components" node) with
      | none => simp [visitEntry, enteredRefs?, rewriteEntry, ht, hf, hr]
      | some r =>
        simp only [visitEntry, enteredRefs?, rewriteEntry, ht, hf, hr, ih]
        by_cases hw : withinLevels levels r <;> simp [hw, Except.map]
    · simp [visitEntry, enteredRefs?, rewriteEntry, ht, hf]
  | null | bool | num | str | arr => simp [visitEntry, enteredRefs?, rewriteEntry]

theorem FanOut.visitEntries_eq (visit : Json → Except String Json) (e : String)
    (ok : Json → Bool) (g : Json → Json)
    (h : ∀ v, visit v = if ok v then .ok (g v) else .error e) (vs : List Json) :
    visitEntries visit vs = if vs.all ok then .ok (vs.map g) else .error e := by
  induction vs with
  | nil => rfl
  | cons v vs ih =>
    rw [visitEntries, h v]
    by_cases hv : ok v
    · by_cases hvs : vs.all ok <;> simp [hv, ih, hvs, Except.map]
    · simp [hv]

theorem FanOut.withValues_map (g : Json → Json) (r : Json) :
    withValues r ((entryValues r).map g) = mapEntries g r := by
  cases r with
  | obj o =>
    simp only [withValues, entryValues, mapEntries, List.map_map]
    congr 1
    induction o with
    | nil => rfl
    | cons f o ih => simp [ih]
  | null | bool | num | str | arr => rfl

/-- The walk fails on depth alone, and rewrites the container otherwise. -/
theorem FanOut.visitContainer_eq (p : FanOut) (levels : Nat) : ∀ r, p.visitContainer levels r =
      if withinLevels levels r then .ok (rewriteContainer p.supply levels r)
      else .error p.tooDeep := by
  induction levels with
  | zero => intro r; rfl
  | succ levels ih =>
    intro r
    rw [visitContainer, visitEntries_eq _ p.tooDeep _ _
      (fun v => p.visitEntry_eq levels v ih), withinLevels, rewriteContainer]
    by_cases hw : (entryValues r).all
        (fun v => ((enteredRefs? v).map (withinLevels levels)).getD true)
    · rw [if_pos hw, if_pos hw, Except.map, withValues_map]
    · rw [if_neg hw, if_neg hw, Except.map]

/-! ## Rewritings that keep the walk -/

/-- A rewriting of nodes that touches `data` alone. -/
def DataOnly (f : Record → Record) : Prop :=
  ∀ name, name ≠ "data" → ∀ node, Record.get? name (f node) = Record.get? name node

theorem DataOnly.id : DataOnly id := fun _ _ _ => rfl

theorem DataOnly.comp {f g : Record → Record} (hg : DataOnly g) (hf : DataOnly f) :
    DataOnly (fun node => g (f node)) := by
  intro name hne node
  rw [hg name hne, hf name hne]

variable {f : Record → Record}

theorem DataOnly.componentType (hf : DataOnly f) (node : Record)
    (name : String) : componentType (f node) name = componentType node name := by
  rw [AgentOas.componentType, AgentOas.componentType, hf _ (by decide)]

theorem DataOnly.isBridgeTarget (hf : DataOnly f) (node : Record) :
    isBridgeTarget (f node) = isBridgeTarget node := by
  rw [AgentOas.isBridgeTarget, AgentOas.isBridgeTarget, hf.componentType, hf _ (by decide)]

theorem DataOnly.callsLlmBridge (hf : DataOnly f) (node : Record) :
    callsLlmBridge (f node) = callsLlmBridge node := by
  rw [AgentOas.callsLlmBridge, AgentOas.callsLlmBridge, hf.componentType, hf _ (by decide)]

theorem isBridgeTarget_assign (r : Json) (node : Record) :
    isBridgeTarget (Record.assign "$referenced_components" r node) = isBridgeTarget node := by
  simp [isBridgeTarget, componentType]

theorem componentType_assign (r : Json) (node : Record) (name : String) :
    componentType (Record.assign "$referenced_components" r node) name =
      componentType node name := by
  simp [componentType]

theorem rewriteContainer_container (f : Record → Record) (levels : Nat) {v? : Option Json}
    (h : container? v? = some r) :
    container? (some (rewriteContainer f levels r)) = some (rewriteContainer f levels r) := by
  cases levels with
  | zero =>
    rcases (container?_eq_some h).2 with ⟨o, rfl⟩ | ⟨xs, rfl⟩ <;> rfl
  | succ levels => exact container?_mapEntries _ h

/-- The walk enters the rewritten entry where it entered the entry. -/
theorem enteredRefs?_rewriteEntry (hf : DataOnly f) (levels : Nat) (v : Json) :
    enteredRefs? (rewriteEntry f (rewriteContainer f levels) v) =
      (enteredRefs? v).map (rewriteContainer f levels) := by
  cases v with
  | obj node =>
    by_cases ht : isBridgeTarget node
    · rw [rewriteEntry_target f _ ht]
      simp [enteredRefs?, ht, hf.isBridgeTarget]
    rw [Bool.not_eq_true] at ht
    cases hr : enteredRefs? (.obj node) with
    | none => rw [rewriteEntry_other f _ ht hr, hr]; rfl
    | some r =>
      obtain ⟨-, hflow, hc⟩ := enteredRefs?_eq_some hr
      rw [rewriteEntry_entered f _ hr]
      simp [enteredRefs?, isBridgeTarget_assign, componentType_assign, ht, hflow,
        rewriteContainer_container f levels hc]
  | null | bool | num | str | arr => rfl

theorem withinLevels_rewriteContainer (hf : DataOnly f) (levels : Nat) :
    ∀ r, withinLevels levels (rewriteContainer f levels r) = withinLevels levels r := by
  induction levels with
  | zero => intro r; rfl
  | succ levels ih =>
    intro r
    rw [withinLevels, withinLevels, rewriteContainer, entryValues_mapEntries, List.all_map]
    congr 1
    funext v
    rw [Function.comp_apply, enteredRefs?_rewriteEntry hf]
    cases enteredRefs? v with
    | none => rfl
    | some r' => exact ih r'

theorem rewriteContainer_comp {f g : Record → Record} (hf : DataOnly f) (levels : Nat) :
    ∀ r, rewriteContainer g levels (rewriteContainer f levels r) =
      rewriteContainer (fun node => g (f node)) levels r := by
  induction levels with
  | zero => intro r; rfl
  | succ levels ih =>
    intro r
    rw [rewriteContainer, rewriteContainer, rewriteContainer, mapEntries_mapEntries]
    apply mapEntries_congr
    intro v _
    cases v with
    | obj node =>
      by_cases ht : isBridgeTarget node
      · rw [rewriteEntry_target f _ ht, rewriteEntry_target _ _ ht,
          rewriteEntry_target g _ (by rw [hf.isBridgeTarget]; exact ht)]
      rw [Bool.not_eq_true] at ht
      cases hr : enteredRefs? (.obj node) with
      | none =>
        rw [rewriteEntry_other f _ ht hr, rewriteEntry_other g _ ht hr,
          rewriteEntry_other _ _ ht hr]
      | some r' =>
        have hent := enteredRefs?_rewriteEntry hf levels (.obj node)
        rw [hr, Option.map_some, rewriteEntry_entered f _ hr] at hent
        rw [rewriteEntry_entered f _ hr, rewriteEntry_entered _ _ hr,
          rewriteEntry_entered g _ hent, Record.assign_assign, ih]
    | null | bool | num | str | arr => rfl

theorem rewriteContainer_id (levels : Nat) : ∀ r, rewriteContainer id levels r = r := by
  induction levels with
  | zero => intro r; rfl
  | succ levels ih =>
    intro r
    rw [rewriteContainer]
    apply mapEntries_eq_self
    intro v _
    cases v with
    | obj node =>
      by_cases ht : isBridgeTarget node
      · rw [rewriteEntry_target _ _ ht, id]
      rw [Bool.not_eq_true] at ht
      cases hr : enteredRefs? (.obj node) with
      | none => exact rewriteEntry_other _ _ ht hr
      | some r' =>
        obtain ⟨-, -, hc⟩ := enteredRefs?_eq_some hr
        rw [rewriteEntry_entered _ _ hr, ih, Record.assign_get? (container?_eq_some hc).1]
    | null | bool | num | str | arr => rfl

/-! ## The whole document -/

def rootRefs? (parsed : Record) : Option Json :=
  container? (Record.get? "$referenced_components" parsed)

def withinDepth (parsed : Record) : Bool :=
  ((rootRefs? parsed).map (withinLevels (injectMaxDepth + 1))).getD true

def rewriteDocument (f : Record → Record) (parsed : Record) : Record :=
  match rootRefs? parsed with
  | some r =>
    Record.assign "$referenced_components" (rewriteContainer f (injectMaxDepth + 1) r) parsed
  | none => parsed

theorem FanOut.run_eq (p : FanOut) (parsed : Record) : p.run parsed =
      if withinDepth parsed then .ok (rewriteDocument p.supply parsed) else .error p.tooDeep := by
  rw [run, withinDepth, rewriteDocument, rootRefs?]
  cases hr : container? (Record.get? "$referenced_components" parsed) with
  | none => rfl
  | some r =>
    rw [Option.map_some, Option.getD_some]
    show (p.visitContainer (injectMaxDepth + 1) r).map _ = _
    rw [visitContainer_eq]
    by_cases hw : withinLevels (injectMaxDepth + 1) r
    · rw [if_pos hw, if_pos hw]; rfl
    · rw [if_neg hw, if_neg hw]; rfl

theorem rootRefs?_rewriteDocument (f : Record → Record) (parsed : Record) :
    rootRefs? (rewriteDocument f parsed) =
      (rootRefs? parsed).map (rewriteContainer f (injectMaxDepth + 1)) := by
  rw [rewriteDocument]
  cases hr : rootRefs? parsed with
  | none => exact hr
  | some r =>
    show container? (Record.get? _ (Record.assign _ _ _)) = _
    rw [Record.get?_assign_self]
    exact rewriteContainer_container f _ hr

theorem get?_rewriteDocument (f : Record → Record) (parsed : Record) {name : String}
    (hne : name ≠ "$referenced_components") :
    Record.get? name (rewriteDocument f parsed) = Record.get? name parsed := by
  rw [rewriteDocument]
  cases rootRefs? parsed with
  | none => rfl
  | some r => exact Record.get?_assign_ne hne _ _

theorem withinDepth_rewriteDocument (hf : DataOnly f) (parsed : Record) :
    withinDepth (rewriteDocument f parsed) = withinDepth parsed := by
  rw [withinDepth, withinDepth, rootRefs?_rewriteDocument]
  cases rootRefs? parsed with
  | none => rfl
  | some r => exact withinLevels_rewriteContainer hf _ r

theorem rewriteDocument_comp {f g : Record → Record} (hf : DataOnly f) (parsed : Record) :
    rewriteDocument g (rewriteDocument f parsed) =
      rewriteDocument (fun node => g (f node)) parsed := by
  rw [rewriteDocument, rootRefs?_rewriteDocument, rewriteDocument, rewriteDocument]
  cases rootRefs? parsed with
  | none => rfl
  | some r =>
    show Record.assign _ _ (Record.assign _ _ _) = Record.assign _ _ _
    rw [Record.assign_assign, rewriteContainer_comp hf]

theorem rewriteDocument_id (parsed : Record) : rewriteDocument id parsed = parsed := by
  rw [rewriteDocument]
  cases hr : rootRefs? parsed with
  | none => rfl
  | some r =>
    show Record.assign _ (rewriteContainer id _ r) parsed = parsed
    rw [rewriteContainer_id, Record.assign_get? (container?_eq_some hr).1]

/-! ## Several fan-outs -/

/-- The fan-outs of a list, one after the other. -/
def runAll : List FanOut → Record → Except String Record
  | [], parsed => .ok parsed
  | p :: ps, parsed => (p.run parsed).bind (runAll ps)

/-- A node supplied by each fan-out of a list. -/
def supplyAll : List FanOut → Record → Record
  | [], node => node
  | p :: ps, node => supplyAll ps (p.supply node)

theorem FanOut.supply_dataOnly (p : FanOut) : DataOnly p.supply := by
  intro name hne node
  rw [supply]
  split
  · split
    · exact Record.get?_assign_ne hne _ _
    · rfl
  · rfl
  · exact Record.get?_assign_ne hne _ _

theorem supplyAll_dataOnly (ps : List FanOut) : DataOnly (supplyAll ps) := by
  induction ps with
  | nil => exact DataOnly.id
  | cons p ps ih => exact ih.comp p.supply_dataOnly

/-- Several fan-outs succeed together, and are one rewriting. -/
theorem runAll_eq_ok_iff (ps : List FanOut) (parsed compiled : Record) :
    runAll ps parsed = .ok compiled ↔
      (ps = [] ∨ withinDepth parsed) ∧ compiled = rewriteDocument (supplyAll ps) parsed := by
  induction ps generalizing parsed with
  | nil =>
    have hid : rewriteDocument (supplyAll []) parsed = parsed := rewriteDocument_id parsed
    rw [runAll, hid]
    constructor
    · intro h
      cases h
      exact ⟨.inl rfl, rfl⟩
    · rintro ⟨-, rfl⟩
      rfl
  | cons p ps ih =>
    rw [runAll, p.run_eq]
    by_cases hw : withinDepth parsed
    · rw [if_pos hw]
      show runAll ps (rewriteDocument p.supply parsed) = .ok compiled ↔ _
      rw [ih, withinDepth_rewriteDocument p.supply_dataOnly, rewriteDocument_comp p.supply_dataOnly]
      simp [hw, supplyAll]
    · rw [if_neg hw]
      simp [hw, Except.bind]

end AgentOas
