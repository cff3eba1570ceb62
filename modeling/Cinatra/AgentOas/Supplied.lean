import Cinatra.AgentOas.BridgeSites

/-! # Supplied nodes — what a document declares and what a node is given

    The declared blocks of a document are its duties: a fan-out for the
    compiler, a test for the validator.  On one node the fan-outs of a document
    add each declared field where it is unset and nothing where it is set, so
    compiling a compiled document changes nothing (`fanOutMetadata_idem`). -/

namespace AgentOas

open JsonValue

/-! ## What a document declares -/

/-- One declared block: the fan-out the compiler runs for it, whether the
    validator recognises it, and the validator's test of a value. -/
structure Duty extends FanOut where
  demanded : Bool
  carries  : Json → Bool

def llmDuty (llm : Json) : Duty where
  toFanOut := llmFanOut llm
  demanded := llm.isObj
  carries := Json.isObj

def toolboxDuty (toolboxes : List String) : Duty where
  toFanOut := toolboxFanOut toolboxes
  demanded := true
  carries := isArray

def llmDuties : Option Json → List Duty
  | none => []
  | some llm => [llmDuty llm]

def toolboxDuties : Option (List String) → List Duty
  | none | some [] => []
  | some (t :: ts) => [toolboxDuty (t :: ts)]

def duties (parsed : Record) : List Duty :=
  llmDuties (cinatraMetadata parsed "llm") ++
  toolboxDuties (stringItems? (cinatraMetadata parsed "toolboxes"))

/-- The fields the validator demands, with the values declared for them. -/
def demands (parsed : Record) : List (String × Json) :=
  ((duties parsed).filter (·.demanded)).map (fun q => (q.field, q.value))

theorem cinatraMetadata_rewriteDocument (f : Record → Record) (parsed : Record) (name : String) :
    cinatraMetadata (rewriteDocument f parsed) name = cinatraMetadata parsed name := by
  rw [cinatraMetadata, cinatraMetadata, get?_rewriteDocument f parsed (by decide)]

theorem duties_rewriteDocument (f : Record → Record) (parsed : Record) :
    duties (rewriteDocument f parsed) = duties parsed := by
  rw [duties, duties, cinatraMetadata_rewriteDocument, cinatraMetadata_rewriteDocument]

theorem duties_fields (parsed : Record) : ((duties parsed).map (·.field)).Nodup := by
  rw [duties]
  cases cinatraMetadata parsed "llm" with
  | none =>
    cases stringItems? (cinatraMetadata parsed "toolboxes") with
    | none => exact List.nodup_nil
    | some ts => cases ts <;> simp [llmDuties, toolboxDuties]
  | some llm =>
    cases stringItems? (cinatraMetadata parsed "toolboxes") with
    | none => simp [llmDuties, toolboxDuties]
    | some ts =>
      cases ts <;> simp [llmDuties, toolboxDuties, llmDuty, toolboxDuty, llmFanOut, toolboxFanOut]

/-- A declared value the validator recognises passes its test. -/
theorem carries_of_duty {parsed : Record} {q : Duty} (hq : q ∈ duties parsed) :
    q.carries q.value = true := by
  rw [duties, List.mem_append] at hq
  rcases hq with hq | hq
  · cases hllm : cinatraMetadata parsed "llm" with
    | none => rw [hllm] at hq; cases hq
    | some llm =>
      rw [hllm, llmDuties, List.mem_singleton] at hq
      rw [hq]
      rfl
  · cases hts : stringItems? (cinatraMetadata parsed "toolboxes") with
    | none => rw [hts] at hq; cases hq
    | some ts =>
      cases ts with
      | nil => rw [hts] at hq; cases hq
      | cons t ts =>
        rw [hts, toolboxDuties, List.mem_singleton] at hq
        rw [hq]
        rfl

theorem propagateDeclared_eq (parsed : Record) : propagateDeclared parsed =
      runAll ((toolboxDuties (stringItems? (cinatraMetadata parsed "toolboxes"))).map
        (·.toFanOut)) parsed := by
  rw [propagateDeclared]
  cases stringItems? (cinatraMetadata parsed "toolboxes") with
  | none => rfl
  | some ts =>
    cases ts with
    | nil => rfl
    | cons t ts =>
      show (toolboxFanOut (t :: ts)).run parsed =
        ((toolboxFanOut (t :: ts)).run parsed).bind (runAll [])
      cases (toolboxFanOut (t :: ts)).run parsed <;> rfl

/-- The compiler runs the declared fan-outs, one after the other. -/
theorem fanOutMetadata_eq (parsed : Record) :
    fanOutMetadata parsed = runAll ((duties parsed).map (·.toFanOut)) parsed := by
  rw [fanOutMetadata, duties, List.map_append]
  cases hllm : cinatraMetadata parsed "llm" with
  | none => exact propagateDeclared_eq parsed
  | some llm =>
    show ((llmFanOut llm).run parsed).bind propagateDeclared =
      ((llmFanOut llm).run parsed).bind (runAll _)
    cases hrun : (llmFanOut llm).run parsed with
    | error e => rfl
    | ok injected =>
      have hsame : cinatraMetadata injected "toolboxes" = cinatraMetadata parsed "toolboxes" := by
        rw [FanOut.run_eq] at hrun
        by_cases hw : withinDepth parsed
        · rw [if_pos hw] at hrun
          cases hrun
          exact cinatraMetadata_rewriteDocument _ _ _
        · rw [if_neg hw] at hrun
          cases hrun
      show propagateDeclared injected = runAll _ injected
      rw [propagateDeclared_eq, hsame]
      rfl

/-! ## What a fan-out does to one node -/

/-- A node's `data` when an object can stand there: missing, or an object. -/
def dataObject? (node : Record) : Option Record :=
  match node.get? "data" with
  | none => some []
  | some (.obj data) => some data
  | _ => none

/-- The compiler finds the field unset. -/
def FanOut.lacks (p : FanOut) (node : Record) : Bool :=
  match node.get? "data" with
  | some (.obj data) => (Record.get? p.field data).isNone
  | some (.arr _) => false
  | _ => true

variable {node : Record} {p : FanOut}

/-- A node is left alone, or the field is set among members that do not have it. -/
theorem FanOut.supply_cases (p : FanOut) (node : Record) :
    (p.lacks node = false ∧ p.supply node = node) ∨ ∃ data,
      (∀ field, dataField node field = Record.get? field data) ∧
      (∀ q : FanOut, q.lacks node = (Record.get? q.field data).isNone) ∧
      Record.get? p.field data = none ∧
      p.supply node = Record.assign "data" (.obj (Record.assign p.field p.value data)) node := by
  simp only [lacks, dataField, supply]
  cases Record.get? "data" node with
  | none => exact .inr ⟨[], fun _ => rfl, fun _ => rfl, rfl, rfl⟩
  | some v =>
    cases v with
    | null | bool | num | str => exact .inr ⟨[], fun _ => rfl, fun _ => rfl, rfl, rfl⟩
    | arr => exact .inl ⟨rfl, rfl⟩
    | obj data =>
      cases hget : Record.get? p.field data with
      | none => exact .inr ⟨data, fun _ => rfl, fun _ => rfl, hget, by simp [hget]⟩
      | some w => exact .inl ⟨by simp [hget], by simp [hget]⟩

theorem FanOut.supply_of_not_lacks (h : p.lacks node = false) : p.supply node = node := by
  rcases p.supply_cases node with ⟨_, hsame⟩ | ⟨data, _, hlacks, hget, _⟩
  · exact hsame
  · rw [hlacks, hget] at h
    cases h

theorem FanOut.supply_of_lacks {data : Record} (h : p.lacks node = true)
    (hd : dataObject? node = some data) : Record.get? p.field data = none ∧ p.supply node =
        Record.assign "data" (.obj (Record.assign p.field p.value data)) node := by
  rw [lacks] at h
  rw [dataObject?] at hd
  rw [supply]
  cases hdata : Record.get? "data" node with
  | none =>
    rw [hdata] at hd
    cases hd
    exact ⟨rfl, rfl⟩
  | some v =>
    rw [hdata] at h hd
    cases v with
    | obj d =>
      cases hd
      have hget : Record.get? p.field data = none := by simpa using h
      exact ⟨hget, by simp [hget]⟩
    | null | bool | num | str | arr => cases hd

theorem FanOut.dataField_supply_self (p : FanOut) (node : Record) :
    dataField (p.supply node) p.field =
      if p.lacks node then some p.value else dataField node p.field := by
  rcases p.supply_cases node with ⟨hlacks, hsame⟩ | ⟨data, _, hlacks, hget, heq⟩
  · simp [hlacks, hsame]
  · simp [hlacks, hget, heq, dataField]

variable {field : String}

theorem FanOut.dataField_supply_ne (p : FanOut) (node : Record)
    (hne : field ≠ p.field) : dataField (p.supply node) field = dataField node field := by
  rcases p.supply_cases node with ⟨_, hsame⟩ | ⟨data, hdata, _, _, heq⟩
  · rw [hsame]
  · rw [hdata]
    simp [heq, dataField, hne]

theorem FanOut.lacks_supply_self (p : FanOut) (node : Record) :
    p.lacks (p.supply node) = false := by
  rcases p.supply_cases node with ⟨hlacks, hsame⟩ | ⟨data, _, _, _, heq⟩
  · rw [hsame, hlacks]
  · simp [heq, lacks]

theorem FanOut.lacks_supply_ne (q p : FanOut) (node : Record) (hne : q.field ≠ p.field) :
    q.lacks (p.supply node) = q.lacks node := by
  rcases p.supply_cases node with ⟨_, hsame⟩ | ⟨data, _, hlacks, _, heq⟩
  · rw [hsame]
  · rw [heq, hlacks]
    simp [lacks, hne]

/-! ## What all the fan-outs do to one node -/

variable {ps : List FanOut}

theorem dataField_supplyAll_other (h : ∀ p ∈ ps, field ≠ p.field) (node : Record) :
    dataField (supplyAll ps node) field = dataField node field := by
  induction ps generalizing node with
  | nil => rfl
  | cons p ps ih =>
    rw [supplyAll, ih (fun p' hp' => h p' (List.mem_cons_of_mem p hp')),
      p.dataField_supply_ne node (h p (.head _))]

variable {q : FanOut}

/-- A declared field holds the declared value where it was unset, and what it
    held where it was not. -/
theorem dataField_supplyAll (hnodup : (ps.map (·.field)).Nodup) (hq : q ∈ ps) (node : Record) :
    dataField (supplyAll ps node) q.field =
      if q.lacks node then some q.value else dataField node q.field := by
  induction ps generalizing node with
  | nil => cases hq
  | cons p ps ih =>
    rw [List.map_cons, List.nodup_cons] at hnodup
    have hne : ∀ p' ∈ ps, p'.field ≠ p.field := by
      intro p' hp' heq
      exact hnodup.1 (heq ▸ List.mem_map_of_mem hp')
    rw [supplyAll]
    rcases List.mem_cons.mp hq with rfl | hq
    · rw [dataField_supplyAll_other (fun p' hp' => (hne p' hp').symm), q.dataField_supply_self]
    · rw [ih hnodup.2 hq, q.lacks_supply_ne p node (hne q hq),
        p.dataField_supply_ne node (hne q hq)]

theorem supplyAll_of_not_lacks (h : ∀ p ∈ ps, p.lacks node = false) : supplyAll ps node = node := by
  induction ps with
  | nil => rfl
  | cons p ps ih =>
    rw [supplyAll, FanOut.supply_of_not_lacks (h p (.head _))]
    exact ih (fun p' hp' => h p' (List.mem_cons_of_mem p hp'))

theorem lacks_supplyAll_other (h : ∀ p ∈ ps, q.field ≠ p.field) (node : Record) :
    q.lacks (supplyAll ps node) = q.lacks node := by
  induction ps generalizing node with
  | nil => rfl
  | cons p ps ih =>
    rw [supplyAll, ih (fun p' hp' => h p' (List.mem_cons_of_mem p hp')),
      q.lacks_supply_ne p node (h p (.head _))]

theorem lacks_supplyAll (hnodup : (ps.map (·.field)).Nodup)
    (hq : q ∈ ps) (node : Record) : q.lacks (supplyAll ps node) = false := by
  induction ps generalizing node with
  | nil => cases hq
  | cons p ps ih =>
    rw [List.map_cons, List.nodup_cons] at hnodup
    rw [supplyAll]
    rcases List.mem_cons.mp hq with rfl | hq
    · rw [lacks_supplyAll_other, q.lacks_supply_self]
      intro p' hp' heq
      exact hnodup.1 (heq ▸ List.mem_map_of_mem hp')
    · exact ih hnodup.2 hq _

theorem supplyAll_idem (hnodup : (ps.map (·.field)).Nodup) (node : Record) :
    supplyAll ps (supplyAll ps node) = supplyAll ps node :=
  supplyAll_of_not_lacks (fun _ hp => lacks_supplyAll hnodup hp node)

theorem fanOutMetadata_idem {parsed compiled : Record}
    (h : fanOutMetadata parsed = .ok compiled) : fanOutMetadata compiled = .ok compiled := by
  have hnodup : (((duties parsed).map (·.toFanOut)).map (·.field)).Nodup := by
    rw [List.map_map]
    exact duties_fields parsed
  rw [fanOutMetadata_eq, runAll_eq_ok_iff] at h
  obtain ⟨hdepth, rfl⟩ := h
  rw [fanOutMetadata_eq, duties_rewriteDocument, runAll_eq_ok_iff,
    withinDepth_rewriteDocument (supplyAll_dataOnly _),
    rewriteDocument_comp (supplyAll_dataOnly _)]
  refine ⟨hdepth, ?_⟩
  congr 1
  funext node
  exact (supplyAll_idem hnodup node).symm

end AgentOas
