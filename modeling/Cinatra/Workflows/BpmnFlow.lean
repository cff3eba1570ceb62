import Cinatra.Lib.Loop
import Cinatra.Workflows.Bpmn

/-! # BpmnFlow — what a compiled dependency means

    A path goes from a task along a sequence flow, and on through parallel gateways, to a
    node.  The compiler follows it backwards and never enters a gateway twice, but a path
    that comes back to a gateway can be cut short, so it finds every source
    (`resolve_complete`) and nothing else (`resolve_sound`).  `compile_depends_on` puts it
    together for a whole document. -/

namespace WfBpmn

open JsonValue Loop

section Paths

variable (elements : List FlowElement)

def IsTask (a : String) : Prop :=
  ∃ e ∈ elements, e.id = some a ∧ a ≠ "" ∧ e.isTask = true

def IsGateway (g : String) : Prop :=
  ∃ e ∈ elements, e.id = some g ∧ g ≠ "" ∧ e.type = gatewayType

/-- A sequence flow from `a` to `b` that carries the outcome `o`. -/
def Flow (a b : String) (o : Option String) : Prop :=
  ∃ f ∈ elements, f.type = flowType ∧ f.sourceRef = some a ∧ f.targetRef = some b ∧ b ≠ "" ∧
    f.outcome = o

/-- `FlowPath a o gs b`: a sequence-flow path from the task `a` to `b` through the parallel
    gateways `gs`, last one first; `a`'s own outbound flow carries `o`. -/
inductive FlowPath (a : String) (o : Option String) : List String → String → Prop
  | direct {b : String} : IsTask elements a → Flow elements a b o → FlowPath a o [] b
  | through {gs : List String} {g b : String} {o' : Option String} : FlowPath a o gs g →
      IsGateway elements g → Flow elements g b o' → FlowPath a o (g :: gs) b

end Paths

variable {elements : List FlowElement} {g : String} {a : String}

theorem FlowPath.cut {b : String} {o : Option String} {pre post : List String}
    (h : FlowPath elements a o (pre ++ g :: post) b) : FlowPath elements a o post g := by
  induction pre generalizing b with
  | nil =>
    cases h with
    | through hrest _ _ => exact hrest
  | cons x pre ih =>
    cases h with
    | through hrest _ _ => exact ih hrest

/-! ## Elements by id -/

section Unique

variable (huniq : (elements.filterMap FlowElement.id).Nodup)

include huniq

variable {e : FlowElement}

theorem element_unique {e' : FlowElement} (he : e ∈ elements) (hid : e.id = some a)
    (he' : e' ∈ elements) (hid' : e'.id = some a) : e = e' := by
  induction elements with
  | nil => cases he
  | cons x xs ih =>
    have hnot : ∀ y ∈ xs, x.id = some a → y.id ≠ some a := by
      intro y hy hx hya
      rw [List.filterMap_cons_some hx] at huniq
      exact (List.nodup_cons.mp huniq).1 (List.mem_filterMap.mpr ⟨y, hy, hya⟩)
    have hrest : (xs.filterMap FlowElement.id).Nodup :=
      ((List.sublist_cons_self x xs).filterMap FlowElement.id).nodup huniq
    rcases List.mem_cons.mp he with rfl | hin
    · rcases List.mem_cons.mp he' with rfl | hin'
      · rfl
      · exact absurd hid' (hnot e' hin' hid)
    · rcases List.mem_cons.mp he' with rfl | hin'
      · exact absurd hid (hnot e hin hid')
      · exact ih hrest hin hin'

theorem byId_eq_some : byId elements a = some e ↔ e ∈ elements ∧ e.id = some a ∧ a ≠ "" := by
  constructor
  · intro h
    have hprop := List.find?_some h
    have hmem := List.mem_reverse.mp (List.mem_of_find?_eq_some h)
    simp only [decide_eq_true_eq] at hprop
    exact ⟨hmem, hprop⟩
  · rintro ⟨he, hid, hne⟩
    have hsome : (byId elements a).isSome = true := by
      rw [byId, List.find?_isSome]
      exact ⟨e, List.mem_reverse.mpr he, by simp [hid, hne]⟩
    obtain ⟨e', he'⟩ := Option.isSome_iff_exists.mp hsome
    have hprop := List.find?_some he'
    simp only [decide_eq_true_eq] at hprop
    have hmem := List.mem_reverse.mp (List.mem_of_find?_eq_some he')
    rw [he', element_unique huniq hmem hprop.1 he hid]

variable {resolve : String → List String → Compile (List TaskDependency)}
  {seenGateways : List String} {flow : FlowElement}

theorem fromFlow_task (hsrc : flow.sourceRef = some a) (ha : IsTask elements a) :
    fromFlow elements resolve seenGateways flow = .ok [⟨a, flow.outcome⟩] := by
  obtain ⟨e, he, hid, hne, htask⟩ := ha
  have hby := (byId_eq_some huniq).mpr ⟨he, hid, hne⟩
  have hstart : e.type ≠ "bpmn:StartEvent" := by
    intro h
    rw [FlowElement.isTask, h] at htask
    exact absurd htask (by decide)
  rw [fromFlow, hsrc, Option.bind_some, hby]
  dsimp only
  rw [if_neg hstart, if_pos htask]
  rfl

omit huniq in
private theorem gateway_type (h : e.type = gatewayType) :
    e.type ≠ "bpmn:StartEvent" ∧ e.isTask = false := by
  refine ⟨by rw [h]; decide, ?_⟩
  rw [FlowElement.isTask, h]
  decide

/-- A flow out of a gateway not met before brings what comes before the gateway. -/
theorem fromFlow_gateway {ds : List TaskDependency} (hsrc : flow.sourceRef = some g)
    (hg : IsGateway elements g) (hseen : g ∉ seenGateways)
    (hok : fromFlow elements resolve seenGateways flow = .ok ds) :
    resolve g (g :: seenGateways) = .ok ds := by
  obtain ⟨e, he, hid, hne, htype⟩ := hg
  have hby := (byId_eq_some huniq).mpr ⟨he, hid, hne⟩
  obtain ⟨hstart, htask⟩ := gateway_type htype
  have hcontains : ¬ seenGateways.contains g = true := by
    rw [List.contains_iff_mem]
    exact hseen
  rw [fromFlow, hsrc, Option.bind_some, hby] at hok
  dsimp only [Option.getD_some] at hok
  rw [if_neg hstart, htask, if_neg Bool.false_ne_true, if_pos htype, if_neg hcontains] at hok
  split at hok
  · cases hok
  · exact hok

theorem fromFlow_cases (resolve : String → List String → Compile (List TaskDependency))
    (seenGateways : List String) (flow : FlowElement) :
    fromFlow elements resolve seenGateways flow = .ok [] ∨
      (∃ a, flow.sourceRef = some a ∧ IsTask elements a ∧
        fromFlow elements resolve seenGateways flow = .ok [⟨a, flow.outcome⟩]) ∨
      (∃ g, flow.sourceRef = some g ∧ IsGateway elements g ∧ g ∉ seenGateways ∧
        (fromFlow elements resolve seenGateways flow = fail (.gatewayOutcome g) ∨
          fromFlow elements resolve seenGateways flow = resolve g (g :: seenGateways))) := by
  cases hsrc : flow.sourceRef with
  | none =>
    refine .inl ?_
    rw [fromFlow, hsrc]
    rfl
  | some a =>
    cases hby : byId elements a with
    | none =>
      refine .inl ?_
      rw [fromFlow, hsrc, Option.bind_some, hby]
    | some e =>
      obtain ⟨he, hid, hne⟩ := (byId_eq_some huniq).mp hby
      by_cases htask : e.isTask = true
      · exact .inr (.inl ⟨a, rfl, ⟨e, he, hid, hne, htask⟩,
          fromFlow_task huniq hsrc ⟨e, he, hid, hne, htask⟩⟩)
      by_cases htype : e.type = gatewayType
      · obtain ⟨hstart, -⟩ := gateway_type htype
        by_cases hseen : a ∈ seenGateways
        · refine .inl ?_
          rw [fromFlow, hsrc, Option.bind_some, hby]
          dsimp only [Option.getD_some]
          rw [if_neg hstart, if_neg htask, if_pos htype,
            if_pos (List.contains_iff_mem.mpr hseen)]
        · refine .inr (.inr ⟨a, rfl, ⟨e, he, hid, hne, htype⟩, hseen, ?_⟩)
          have hcontains : ¬ seenGateways.contains a = true := by
            rw [List.contains_iff_mem]
            exact hseen
          rw [fromFlow, hsrc, Option.bind_some, hby]
          dsimp only [Option.getD_some]
          rw [if_neg hstart, if_neg htask, if_pos htype, if_neg hcontains]
          split
          · exact .inl rfl
          · exact .inr rfl
      · refine .inl ?_
        rw [fromFlow, hsrc, Option.bind_some, hby]
        dsimp only
        by_cases hstart : e.type = "bpmn:StartEvent"
        · rw [if_pos hstart]
        · rw [if_neg hstart, if_neg htask, if_neg htype]

end Unique

/-! ## Flows in a row, and their dependencies collapsed -/

section Rows

variable {resolve : String → List String → Compile (List TaskDependency)}
  {seenGateways : List String}

variable {ds : List TaskDependency} {flows : List FlowElement}

theorem fromFlows_ok (h : fromFlows elements resolve seenGateways flows = .ok ds) :
    (∀ f ∈ flows, ∃ es, fromFlow elements resolve seenGateways f = .ok es ∧ ∀ d ∈ es, d ∈ ds) ∧
      ∀ d ∈ ds, ∃ f ∈ flows, ∃ es, fromFlow elements resolve seenGateways f = .ok es ∧ d ∈ es := by
  induction flows generalizing ds with
  | nil =>
    cases h
    exact ⟨fun f hf => absurd hf List.not_mem_nil, fun d hd => absurd hd List.not_mem_nil⟩
  | cons flow flows ih =>
    rw [fromFlows] at h
    obtain ⟨es, hes, h⟩ := bind_ok.mp h
    obtain ⟨rest, hrest, h⟩ := bind_ok.mp h
    have hds : es ++ rest = ds := Except.ok.inj h
    obtain ⟨hall, hfrom⟩ := ih hrest
    rw [← hds]
    refine ⟨?_, ?_⟩
    · intro f hf
      rcases List.mem_cons.mp hf with rfl | hf
      · exact ⟨es, hes, fun d hd => List.mem_append_left _ hd⟩
      · obtain ⟨fs, hfs, hin⟩ := hall f hf
        exact ⟨fs, hfs, fun d hd => List.mem_append_right _ (hin d hd)⟩
    · intro d hd
      rcases List.mem_append.mp hd with hd | hd
      · exact ⟨flow, List.mem_cons_self .., es, hes, hd⟩
      · obtain ⟨f, hf, fs, hfs, hin⟩ := hfrom d hd
        exact ⟨f, .tail _ hf, fs, hfs, hin⟩

variable {e : Failure}

theorem bind_error {α β : Type} {x : Compile α} {f : α → Compile β}
    (h : (x >>= f) = .error e) : x = .error e ∨ ∃ a, x = .ok a ∧ f a = .error e := by
  cases x with
  | error e' =>
    have h' : (Except.error e' : Compile β) = .error e := h
    cases h'
    exact .inl rfl
  | ok a => exact .inr ⟨a, rfl, h⟩

theorem fromFlows_error (h : fromFlows elements resolve seenGateways flows = .error e) :
    ∃ f ∈ flows, fromFlow elements resolve seenGateways f = .error e := by
  induction flows with
  | nil => cases h
  | cons flow flows ih =>
    rw [fromFlows] at h
    rcases bind_error h with h | ⟨es, -, h⟩
    · exact ⟨flow, List.mem_cons_self .., h⟩
    · rcases bind_error h with h | ⟨rest, -, h⟩
      · obtain ⟨f, hf, he⟩ := ih h
        exact ⟨f, .tail _ hf, he⟩
      · cases h

private theorem find_key {kept : List TaskDependency} {d e : TaskDependency}
    (h : kept.find? (fun x => x.taskKey = d.taskKey) = some e) :
    e ∈ kept ∧ e.taskKey = d.taskKey := by
  have hprop := List.find?_some h
  exact ⟨List.mem_of_find?_eq_some h, by simpa using hprop⟩

variable {target : String}

/-- **Collapsing** keeps one dependency a task and loses none. -/
theorem collapse_ok : ∀ {kept L : List TaskDependency}, collapse target kept ds = .ok L →
      (kept.map TaskDependency.taskKey).Nodup →
      (L.map TaskDependency.taskKey).Nodup ∧ ∀ d, d ∈ L ↔ d ∈ kept ∨ d ∈ ds := by
  induction ds with
  | nil =>
    intro kept L h hnd
    cases h
    exact ⟨hnd, fun d => by simp⟩
  | cons x ds ih =>
    intro kept L h hnd
    rw [collapse] at h
    cases hfind : kept.find? (fun e => e.taskKey = x.taskKey) with
    | none =>
      rw [hfind] at h
      have hnew : x.taskKey ∉ kept.map TaskDependency.taskKey := by
        intro hin
        obtain ⟨e, he, hkey⟩ := List.mem_map.mp hin
        have hmiss := List.find?_eq_none.mp hfind e he
        exact hmiss (by simpa using hkey)
      have hnd' : ((kept ++ [x]).map TaskDependency.taskKey).Nodup := by
        rw [List.map_append]
        exact List.concat_eq_append ▸ hnd.concat hnew
      obtain ⟨hL, hmem⟩ := ih h hnd'
      refine ⟨hL, fun d => ?_⟩
      rw [hmem d, List.mem_append, List.mem_singleton, List.mem_cons, or_assoc]
    | some e =>
      rw [hfind] at h
      dsimp only at h
      by_cases ho : e.outcome = x.outcome
      · rw [if_pos ho] at h
        obtain ⟨hin, hkey⟩ := find_key hfind
        obtain ⟨hL, hmem⟩ := ih h hnd
        have hex : e = x := by
          obtain ⟨ek, eo⟩ := e
          obtain ⟨xk, xo⟩ := x
          cases hkey
          cases ho
          rfl
        refine ⟨hL, fun d => ?_⟩
        rw [hmem d, List.mem_cons]
        constructor
        · exact fun hd => hd.imp id .inr
        · rintro (hd | rfl | hd)
          · exact .inl hd
          · exact .inl (hex ▸ hin)
          · exact .inr hd
      · rw [if_neg ho] at h
        cases h

/-- **A conflict** is two dependencies on one task with different outcomes. -/
theorem collapse_error : ∀ {kept : List TaskDependency}, collapse target kept ds = .error e →
      ∃ d d', d ∈ kept ++ ds ∧ d' ∈ kept ++ ds ∧ d.taskKey = d'.taskKey ∧ d.outcome ≠ d'.outcome ∧
        e = .thrown (.conflictingOutcomes d.taskKey target d.outcome d'.outcome) := by
  induction ds with
  | nil =>
    intro kept h
    cases h
  | cons x ds ih =>
    intro kept h
    rw [collapse] at h
    cases hfind : kept.find? (fun e => e.taskKey = x.taskKey) with
    | none =>
      rw [hfind] at h
      obtain ⟨d, d', hd, hd', hrest⟩ := ih h
      refine ⟨d, d', ?_, ?_, hrest⟩
      · simpa using hd
      · simpa using hd'
    | some y =>
      rw [hfind] at h
      dsimp only at h
      obtain ⟨hin, hkey⟩ := find_key hfind
      by_cases ho : y.outcome = x.outcome
      · rw [if_pos ho] at h
        obtain ⟨d, d', hd, hd', hrest⟩ := ih h
        refine ⟨d, d', ?_, ?_, hrest⟩
        · rcases List.mem_append.mp hd with hd | hd
          · exact List.mem_append_left _ hd
          · exact List.mem_append_right _ (.tail _ hd)
        · rcases List.mem_append.mp hd' with hd | hd
          · exact List.mem_append_left _ hd
          · exact List.mem_append_right _ (.tail _ hd)
      · rw [if_neg ho] at h
        refine ⟨y, x, List.mem_append_left _ hin,
          List.mem_append_right _ (List.mem_cons_self ..), hkey, ho, ?_⟩
        rw [hkey]
        exact (Except.error.inj h).symm

end Rows

/-! ## The walk backwards -/

variable {target : String}

theorem mem_incoming {f : FlowElement} : f ∈ incoming elements target ↔
    f ∈ elements ∧ f.type = flowType ∧ f.targetRef = some target ∧ target ≠ "" := by
  rw [incoming, List.mem_filter, decide_eq_true_eq]

section Resolve

variable (huniq : (elements.filterMap FlowElement.id).Nodup)

include huniq

variable {seen : List String}

/-- What the flows into a node bring are sources of paths to it, where the recursive call
    finds such sources only. -/
theorem fromFlows_sound {rec : String → List String → Compile (List TaskDependency)}
    (hrec : ∀ g seen L, rec g seen = .ok L →
      ∀ d ∈ L, ∃ gs, FlowPath elements d.taskKey d.outcome gs g) {result : List TaskDependency}
    (h : fromFlows elements rec seen (incoming elements target) = .ok result) :
    ∀ d ∈ result, ∃ gs, FlowPath elements d.taskKey d.outcome gs target := by
  intro d hd
  obtain ⟨f, hf, es, hes, hdes⟩ := (fromFlows_ok h).2 d hd
  obtain ⟨hfe, htype, htarget, hne⟩ := mem_incoming.mp hf
  rcases fromFlow_cases huniq rec seen f with
    hnone | ⟨a, hsrc, htask, hone⟩ | ⟨g, hsrc, hgate, -, hfail | hcall⟩
  · rw [hes] at hnone
    cases hnone
    cases hdes
  · rw [hes] at hone
    cases hone
    rw [List.mem_singleton.mp hdes]
    exact ⟨[], .direct htask ⟨f, hfe, htype, hsrc, htarget, hne, rfl⟩⟩
  · rw [hes] at hfail
    cases hfail
  · rw [hes] at hcall
    obtain ⟨gs, hpath⟩ := hrec g _ es hcall.symm d hdes
    exact ⟨g :: gs, .through hpath hgate ⟨f, hfe, htype, hsrc, htarget, hne, rfl⟩⟩

/-- **Only sources of paths are found.** -/
theorem resolve_sound (fuel : Nat) : ∀ (target : String) (seen : List String)
    (L : List TaskDependency), resolve elements fuel target seen = .ok L →
      ∀ d ∈ L, ∃ gs, FlowPath elements d.taskKey d.outcome gs target := by
  induction fuel with
  | zero => intro target seen L h; cases h
  | succ fuel ih =>
    intro target seen L h d hd
    rw [resolve] at h
    obtain ⟨result, hresult, hcollapse⟩ := bind_ok.mp h
    rcases ((collapse_ok hcollapse List.nodup_nil).2 d).mp hd with hnil | hin
    · cases hnil
    · exact fromFlows_sound huniq ih hresult d hin

/-- **Every source of a path is found**: a path that meets a gateway again is cut there. -/
theorem resolve_complete (n : Nat) : ∀ {fuel : Nat} {target : String} {seen gs : List String}
    {L : List TaskDependency} {a : String} {o : Option String}, gs.length ≤ n →
      resolve elements fuel target seen = .ok L → FlowPath elements a o gs target →
      (∀ g ∈ gs, g ∉ seen) → ⟨a, o⟩ ∈ L := by
  induction n with
  | zero =>
    intro fuel target seen gs L a o hlen h hpath _
    cases fuel with
    | zero => cases h
    | succ fuel =>
      rw [resolve] at h
      obtain ⟨result, hresult, hcollapse⟩ := bind_ok.mp h
      refine ((collapse_ok hcollapse List.nodup_nil).2 _).mpr (.inr ?_)
      cases hpath with
      | direct htask hflow =>
        obtain ⟨f, hfe, htype, hsrc, htarget, hne, rfl⟩ := hflow
        obtain ⟨es, hes, hin⟩ :=
          (fromFlows_ok hresult).1 f (mem_incoming.mpr ⟨hfe, htype, htarget, hne⟩)
        rw [fromFlow_task huniq hsrc htask] at hes
        cases hes
        exact hin _ (List.mem_singleton.mpr rfl)
      | through _ _ _ => exact absurd hlen (by simp)
  | succ n ih =>
    intro fuel target seen gs L a o hlen h hpath hseen
    cases hpath with
    | direct htask hflow =>
      have hzero : ([] : List String).length ≤ n := Nat.zero_le n
      exact ih hzero h (.direct htask hflow) (fun g hg => absurd hg List.not_mem_nil)
    | through hrest hgate hflow =>
      rename_i gs g o'
      by_cases hagain : g ∈ gs
      · obtain ⟨pre, post, rfl⟩ := List.append_of_mem hagain
        have hshort : (g :: post).length ≤ n := by
          simp only [List.length_cons, List.length_append] at hlen ⊢
          omega
        refine ih hshort h (.through hrest.cut hgate hflow) ?_
        intro x hx
        refine hseen x ?_
        rcases List.mem_cons.mp hx with rfl | hx
        · exact .head _ ..
        · exact .tail _ (List.mem_append_right _ (.tail _ hx))
      · cases fuel with
        | zero => cases h
        | succ fuel =>
          rw [resolve] at h
          obtain ⟨result, hresult, hcollapse⟩ := bind_ok.mp h
          refine ((collapse_ok hcollapse List.nodup_nil).2 _).mpr (.inr ?_)
          obtain ⟨f, hfe, htype, hsrc, htarget, hne, -⟩ := hflow
          obtain ⟨es, hes, hin⟩ :=
            (fromFlows_ok hresult).1 f (mem_incoming.mpr ⟨hfe, htype, htarget, hne⟩)
          have hnew := hseen g (List.mem_cons_self ..)
          have hrec := fromFlow_gateway huniq hsrc hgate hnew hes
          refine hin _ (ih ?_ hrec hrest ?_)
          · exact Nat.le_of_succ_le_succ hlen
          · intro x hx hxs
            rcases List.mem_cons.mp hxs with rfl | hxs
            · exact hagain hx
            · exact hseen x (.tail _ hx) hxs

omit huniq in
theorem resolve_nodup {fuel : Nat}
    {L : List TaskDependency} (h : resolve elements fuel target seen = .ok L) :
    (L.map TaskDependency.taskKey).Nodup := by
  cases fuel with
  | zero => cases h
  | succ fuel =>
    rw [resolve] at h
    obtain ⟨result, -, hcollapse⟩ := bind_ok.mp h
    exact (collapse_ok hcollapse List.nodup_nil).1

/-- **Why a conflict is thrown**: two paths from one task carry different outcomes. -/
theorem resolve_conflict (fuel : Nat) : ∀ {target : String} {seen : List String}
    {key at_ : String} {o o' : Option String},
    resolve elements fuel target seen = fail (.conflictingOutcomes key at_ o o') →
      o ≠ o' ∧ ∃ gs gs', FlowPath elements key o gs target ∧ FlowPath elements key o' gs' target := by
  induction fuel with
  | zero => intro target seen key at_ o o' h; cases h
  | succ fuel ih =>
    intro target seen key at_ o o' h
    rw [resolve] at h
    rcases bind_error h with h | ⟨result, hresult, h⟩
    · obtain ⟨f, hf, herr⟩ := fromFlows_error h
      obtain ⟨hfe, htype, htarget, hne⟩ := mem_incoming.mp hf
      rcases fromFlow_cases huniq (resolve elements fuel) seen f with
        hnone | ⟨a, -, -, hone⟩ | ⟨g, hsrc, hgate, -, hfail | hrec⟩
      · rw [herr] at hnone
        cases hnone
      · rw [herr] at hone
        cases hone
      · rw [herr] at hfail
        cases hfail
      rw [herr] at hrec
      obtain ⟨hne', gs, gs', hpath, hpath'⟩ := ih hrec.symm
      have hflow : Flow elements g target f.outcome :=
        ⟨f, hfe, htype, hsrc, htarget, hne, rfl⟩
      exact ⟨hne', g :: gs, g :: gs', .through hpath hgate hflow, .through hpath' hgate hflow⟩
    · obtain ⟨d, d', hd, hd', hkey, hout, he⟩ := collapse_error h
      have hsource := fromFlows_sound huniq (resolve_sound huniq fuel) hresult
      rw [List.nil_append] at hd hd'
      obtain ⟨gs, hpath⟩ := hsource d hd
      obtain ⟨gs', hpath'⟩ := hsource d' hd'
      have hthrown := Failure.thrown.inj he
      obtain ⟨rfl, -, rfl, rfl⟩ := CompileError.conflictingOutcomes.inj hthrown
      rw [← hkey] at hpath'
      exact ⟨hout, gs, gs', hpath, hpath'⟩

end Resolve

theorem gateway_mem (hg : IsGateway elements g) : g ∈ gatewayIds elements := by
  obtain ⟨e, he, hid, -, htype⟩ := hg
  exact List.mem_filterMap.mpr ⟨e, List.mem_filter.mpr ⟨he, by simpa using htype⟩, hid⟩

theorem unseen_lt {seen : List String} (hg : g ∈ gatewayIds elements) (hseen : g ∉ seen) :
    ((gatewayIds elements).filter (fun x => x ∉ g :: seen)).length <
      ((gatewayIds elements).filter (fun x => x ∉ seen)).length := by
  have hsplit : (gatewayIds elements).filter (fun x => x ∉ g :: seen) =
      ((gatewayIds elements).filter (fun x => x ∉ seen)).filter (fun x => x ≠ g) := by
    rw [List.filter_filter]
    refine List.filter_congr (fun x _ => ?_)
    simp [List.mem_cons, not_or]
  rw [hsplit, List.length_filter_lt_length_iff_exists]
  exact ⟨g, List.mem_filter.mpr ⟨hg, by simpa using hseen⟩, by simp⟩

/-- **The walk ends** on every gateway graph: the fuel outlasts the gateways not met yet. -/
theorem resolve_ends (huniq : (elements.filterMap FlowElement.id).Nodup) (fuel : Nat) :
    ∀ {target : String} {seen : List String},
      ((gatewayIds elements).filter (fun x => x ∉ seen)).length < fuel →
      resolve elements fuel target seen ≠ .error .outOfFuel := by
  induction fuel with
  | zero => exact fun hlt => absurd hlt (Nat.not_lt_zero _)
  | succ fuel ih =>
    intro target seen hlt h
    rw [resolve] at h
    rcases bind_error h with h | ⟨result, -, h⟩
    · obtain ⟨f, -, herr⟩ := fromFlows_error h
      rcases fromFlow_cases huniq (resolve elements fuel) seen f with
        hnone | ⟨a, -, -, hone⟩ | ⟨g, -, hgate, hseen, hfail | hrec⟩
      · rw [herr] at hnone
        cases hnone
      · rw [herr] at hone
        cases hone
      · rw [herr] at hfail
        cases hfail
      · rw [herr] at hrec
        have hless := unseen_lt (gateway_mem hgate) hseen
        exact ih (by omega) hrec.symm
    · obtain ⟨d, d', -, -, -, -, he⟩ := collapse_error h
      cases he

theorem buildDependsOn_ends (huniq : (elements.filterMap FlowElement.id).Nodup) (taskId : String) :
    buildDependsOn elements taskId ≠ .error .outOfFuel := by
  refine resolve_ends huniq _ ?_
  have hle := List.length_filter_le (fun x => decide (x ∉ ([] : List String))) (gatewayIds elements)
  omega

/-! ## The other steps of a compilation -/

/-- A step that ends, and whose errors are no conflicts of outcomes. -/
def NoConflict {α : Type} (x : Compile α) : Prop :=
  x ≠ .error .outOfFuel ∧ ∀ key at_ o o', x ≠ fail (.conflictingOutcomes key at_ o o')

variable {α : Type}

theorem NoConflict.ok (a : α) : NoConflict (.ok a) := by
  refine ⟨?_, ?_⟩
  · intro h
    cases h
  · intro key at_ o o' h
    cases h

theorem NoConflict.fail {e : CompileError}
    (h : ∀ key at_ o o', e ≠ .conflictingOutcomes key at_ o o') :
    NoConflict (WfBpmn.fail e : Compile α) := by
  refine ⟨?_, ?_⟩
  · intro he
    cases he
  · intro key at_ o o' he
    exact h key at_ o o' (Failure.thrown.inj (Except.error.inj he))

theorem compileSchedule_noConflict (task : FlowElement) : NoConflict (compileSchedule task) := by
  unfold compileSchedule
  split
  · exact .ok _
  split
  · split
    · exact .fail nofun
    · exact .ok _
  · split
    · exact .ok _
    · exact .fail nofun
  · exact .fail nofun
  · exact .ok _

theorem compileForeach_noConflict (host : BpmnHost) (task : FlowElement) (core : Record) :
    NoConflict (compileForeach host task core) := by
  unfold compileForeach
  split
  · exact .ok _
  split
  · exact .ok _
  split
  · exact .ok _
  split
  · exact .ok _
  · exact .fail nofun

theorem compileCore_noConflict (host : BpmnHost) (task : FlowElement) (key title : String) :
    NoConflict (compileCore host task key title) := by
  unfold compileCore
  split
  · split
    · exact .fail nofun
    dsimp only
    split
    · exact .ok _
    split
    · exact .fail nofun
    · exact .ok _
  split
  · split
    · split
      · exact .fail nofun
      · exact .ok _
    · exact .ok _
    · exact .fail nofun
  split
  · exact .ok _
  split
  · exact .ok _
  · exact .fail nofun

theorem coerceDefault_noConflict (host : BpmnHost) (raw : Option String) (type name : String) :
    NoConflict (coerceDefault host raw type name) := by
  unfold coerceDefault
  split
  · exact .ok _
  split
  · split
    · exact .fail nofun
    · exact .ok _
  split
  · split
    · exact .fail nofun
    · exact .ok _
  · exact .ok _

theorem NoConflict.bind {β : Type} {x : Compile α} {f : α → Compile β} (hx : NoConflict x)
    (hf : ∀ a, NoConflict (f a)) : NoConflict (x >>= f) := by
  refine ⟨?_, ?_⟩
  · intro h
    rcases bind_error h with h | ⟨a, -, h⟩
    · exact hx.1 h
    · exact (hf a).1 h
  · intro key at_ o o' h
    rcases bind_error h with h | ⟨a, -, h⟩
    · exact hx.2 key at_ o o' h
    · exact (hf a).2 key at_ o o' h

theorem compilePlaceholder_noConflict (host : BpmnHost) (done : CompiledPlaceholders) (p : Json) :
    NoConflict (compilePlaceholder host done p) := by
  unfold compilePlaceholder
  split
  · exact .fail nofun
  split
  · exact .fail nofun
  · exact (coerceDefault_noConflict _ _ _ _).bind (fun _ => .ok _)

theorem compilePlaceholders_noConflict (host : BpmnHost) (process : RootElement) :
    NoConflict (compilePlaceholders host process) := by
  have hfold : ∀ (ps : List Json) (done : CompiledPlaceholders),
      NoConflict (ps.foldlM (compilePlaceholder host) done) := by
    intro ps
    induction ps with
    | nil => exact fun done => .ok done
    | cons p ps ih =>
      intro done
      rw [List.foldlM_cons]
      exact (compilePlaceholder_noConflict host done p).bind ih
  exact hfold _ _

/-! ## Tasks -/

section Tasks

variable {host : BpmnHost} {depsFor : String → Compile (List TaskDependency)}

theorem str_eq_some {v : Option String} {s : String} (h : str v = some s) : v = some s ∧ s ≠ "" := by
  rw [str, Option.filter_eq_some_iff] at h
  exact ⟨h.1, by simpa using h.2⟩

variable {task : FlowElement}

/-- A compiled task has its element's id for a key, and the dependencies found for it. -/
theorem compileTask_ok {t : TaskSpec} (h : compileTask host depsFor task = .ok t) :
    task.id = some t.key ∧ t.key ≠ "" ∧ depsFor t.key = .ok t.dependsOn := by
  unfold compileTask at h
  split at h
  · cases h
  · cases h
  rename_i key title hid htitle
  obtain ⟨schedule, -, h⟩ := bind_ok.mp h
  obtain ⟨deps, hdeps, h⟩ := bind_ok.mp h
  obtain ⟨core, -, h⟩ := bind_ok.mp h
  obtain ⟨foreach, -, h⟩ := bind_ok.mp h
  cases h
  exact ⟨(str_eq_some hid).1, (str_eq_some hid).2, hdeps⟩

variable {e : Failure}

/-- A task that is not compiled for its dependencies has an id. -/
theorem compileTask_error (h : compileTask host depsFor task = .error e)
    (he : e = .outOfFuel ∨ ∃ key at_ o o', e = .thrown (.conflictingOutcomes key at_ o o')) :
    ∃ id, task.id = some id ∧ id ≠ "" ∧ depsFor id = .error e := by
  have hother : ∀ {α : Type} {x : Compile α}, NoConflict x → x ≠ .error e := by
    intro α x hx
    rcases he with rfl | ⟨key, at_, o, o', rfl⟩
    · exact hx.1
    · exact hx.2 key at_ o o'
  unfold compileTask at h
  split at h
  · exact absurd h (hother (.fail nofun))
  · exact absurd h (hother (.fail nofun))
  rename_i key title hid htitle
  rcases bind_error h with h | ⟨schedule, -, h⟩
  · exact absurd h (hother (compileSchedule_noConflict task))
  rcases bind_error h with h | ⟨deps, -, h⟩
  · exact ⟨key, (str_eq_some hid).1, (str_eq_some hid).2, h⟩
  rcases bind_error h with h | ⟨core, -, h⟩
  · exact absurd h (hother (compileCore_noConflict host task key title))
  rcases bind_error h with h | ⟨foreach, -, h⟩
  · exact absurd h (hother (compileForeach_noConflict host task core))
  · cases h

variable {tasks : List FlowElement}

theorem compileTasks_ok {ts : List TaskSpec} (h : compileTasks host depsFor tasks = .ok ts) :
    ts.map (fun t => some t.key) = tasks.map FlowElement.id ∧
      ∀ t ∈ ts, depsFor t.key = .ok t.dependsOn := by
  induction tasks generalizing ts with
  | nil =>
    cases h
    exact ⟨rfl, fun t ht => absurd ht List.not_mem_nil⟩
  | cons task tasks ih =>
    rw [compileTasks] at h
    obtain ⟨t, ht, h⟩ := bind_ok.mp h
    obtain ⟨rest, hrest, h⟩ := bind_ok.mp h
    cases h
    obtain ⟨hid, -, hdeps⟩ := compileTask_ok ht
    obtain ⟨hkeys, hall⟩ := ih hrest
    refine ⟨?_, ?_⟩
    · rw [List.map_cons, List.map_cons, hkeys, hid]
    · intro x hx
      rcases List.mem_cons.mp hx with rfl | hx
      · exact hdeps
      · exact hall x hx

theorem compileTasks_error (h : compileTasks host depsFor tasks = .error e) :
    ∃ task ∈ tasks, compileTask host depsFor task = .error e := by
  induction tasks with
  | nil => cases h
  | cons task tasks ih =>
    rw [compileTasks] at h
    rcases bind_error h with h | ⟨t, -, h⟩
    · exact ⟨task, List.mem_cons_self .., h⟩
    · rcases bind_error h with h | ⟨rest, -, h⟩
      · obtain ⟨x, hx, he⟩ := ih h
        exact ⟨x, .tail _ hx, he⟩
      · cases h

end Tasks

variable {definitions : Definitions}

/-- A validated document has one process, which the compiler takes. -/
theorem processOf_of_valid (h : validateBpmnAgainstProfile definitions = none) :
    ∃ process ∈ definitions.rootElements, processOf definitions = .ok process := by
  unfold validateBpmnAgainstProfile at h
  dsimp only at h
  split at h
  · cases h
  rename_i process others hfilter
  have hone : others = [] := by
    by_contra hne
    rw [if_neg hne, List.append_assoc, if_neg] at h
    · cases h
    · rintro ⟨-, hstructure⟩
      cases hstructure
  refine ⟨process, ?_, ?_⟩
  · have hmem : process ∈ definitions.rootElements.filter (fun e => e.type = processType) := by
      rw [hfilter]
      exact .head _ ..
    exact (List.mem_filter.mp hmem).1
  · rw [processOf, hfilter, hone]

/-- An error of a compilation that is a conflict, or would be an endless walk, is one of the
    walk from some task. -/
theorem compile_error {host : BpmnHost} {safeParse : WorkflowSpec → Option String}
    {process : RootElement} {e : Failure} (hprocess : processOf definitions = .ok process)
    (h : compileBpmnToWorkflowSpec host safeParse definitions = .error e)
    (he : e = .outOfFuel ∨ ∃ key at_ o o', e = .thrown (.conflictingOutcomes key at_ o o')) :
    ∃ b, IsTask process.flowElements b ∧ buildDependsOn process.flowElements b = .error e := by
  have hother : ∀ {α : Type} {x : Compile α}, NoConflict x → x ≠ .error e := by
    intro α x hx
    rcases he with rfl | ⟨key, at_, o, o', rfl⟩
    · exact hx.1
    · exact hx.2 key at_ o o'
  rw [compileBpmnToWorkflowSpec] at h
  rcases bind_error h with h | ⟨process', hp, h⟩
  · rw [hprocess] at h
    cases h
  rw [hprocess] at hp
  cases hp
  rcases bind_error h with h | ⟨spec, -, h⟩
  · rw [compileProcess] at h
    rcases bind_error h with h | ⟨placeholders, -, h⟩
    · exact absurd h (hother (compilePlaceholders_noConflict host process))
    rcases bind_error h with h | ⟨tasks, -, h⟩
    · obtain ⟨task, htask, herr⟩ := compileTasks_error h
      obtain ⟨id, hid, hne, hdeps⟩ := compileTask_error herr he
      obtain ⟨hin, htype⟩ := List.mem_filter.mp htask
      exact ⟨id, ⟨task, hin, hid, hne, htype⟩, hdeps⟩
    · cases h
  · split at h
    · cases h
    · exact absurd h (hother (.fail nofun))

/-- **The flow graph compiles to the right dependencies.**  A validated document with
    unique ids has one process.  Where it compiles, the tasks are the process's, and each
    depends, once, on exactly the tasks with a path to it through parallel gateways, with
    the outcome on their own outbound flow; a conflict is thrown only where two such paths
    differ in their outcomes; and the compilation ends. -/
theorem compile_depends_on (host : BpmnHost) (safeParse : WorkflowSpec → Option String)
    (definitions : Definitions) (hvalid : validateBpmnAgainstProfile definitions = none)
    (huniq : ∀ process ∈ definitions.rootElements,
      (process.flowElements.filterMap FlowElement.id).Nodup) :
    ∃ process, processOf definitions = .ok process ∧
      (∀ spec, compileBpmnToWorkflowSpec host safeParse definitions = .ok spec →
        spec.tasks.map (fun t => some t.key) =
          (process.flowElements.filter FlowElement.isTask).map FlowElement.id ∧
        ∀ t ∈ spec.tasks, (t.dependsOn.map TaskDependency.taskKey).Nodup ∧
          ∀ a o, ⟨a, o⟩ ∈ t.dependsOn ↔ ∃ gs, FlowPath process.flowElements a o gs t.key) ∧
      (∀ a at_ o o', compileBpmnToWorkflowSpec host safeParse definitions =
          fail (.conflictingOutcomes a at_ o o') →
        o ≠ o' ∧ ∃ b, IsTask process.flowElements b ∧ ∃ gs gs',
          FlowPath process.flowElements a o gs b ∧ FlowPath process.flowElements a o' gs' b) ∧
      compileBpmnToWorkflowSpec host safeParse definitions ≠ .error .outOfFuel := by
  obtain ⟨process, hroot, hprocess⟩ := processOf_of_valid hvalid
  have hids := huniq process hroot
  refine ⟨process, hprocess, ?_, ?_, ?_⟩
  · intro spec h
    rw [compileBpmnToWorkflowSpec, hprocess] at h
    obtain ⟨process', hp, h⟩ := bind_ok.mp h
    cases hp
    obtain ⟨spec', hspec, h⟩ := bind_ok.mp h
    split at h
    · cases h
      rw [compileProcess] at hspec
      obtain ⟨placeholders, -, hspec⟩ := bind_ok.mp hspec
      obtain ⟨tasks, htasks, hspec⟩ := bind_ok.mp hspec
      cases hspec
      obtain ⟨hkeys, hdeps⟩ := compileTasks_ok htasks
      refine ⟨hkeys, fun t ht => ⟨resolve_nodup (hdeps t ht), fun a o => ⟨?_, ?_⟩⟩⟩
      · intro hin
        exact resolve_sound hids _ _ _ _ (hdeps t ht) _ hin
      · rintro ⟨gs, hpath⟩
        exact resolve_complete hids gs.length (Nat.le_refl _) (hdeps t ht) hpath
          (fun g _ => List.not_mem_nil)
    · cases h
  · intro a at_ o o' h
    obtain ⟨b, hb, herr⟩ := compile_error hprocess h (.inr ⟨a, at_, o, o', rfl⟩)
    obtain ⟨hne, gs, gs', hpath, hpath'⟩ := resolve_conflict hids _ herr
    exact ⟨hne, b, hb, gs, gs', hpath, hpath'⟩
  · intro h
    obtain ⟨b, -, herr⟩ := compile_error hprocess h (.inl rfl)
    exact buildDependsOn_ends hids b herr

/-- Two gateways that lead to each other between a draft and its review. -/
def launchProcess : Definitions where
  rootElements := [{
    type := processType
    id := some "launch"
    flowElements := [
      { type := "bpmn:StartEvent", id := some "start" },
      { type := "bpmn:ManualTask", id := some "draft", name := some "Draft" },
      { type := gatewayType, id := some "split" },
      { type := gatewayType, id := some "join" },
      { type := "bpmn:ManualTask", id := some "review", name := some "Review" },
      { type := "bpmn:EndEvent", id := some "end" },
      { type := flowType, id := some "f1", sourceRef := some "start", targetRef := some "draft" },
      { type := flowType, id := some "f2", sourceRef := some "draft", targetRef := some "split" },
      { type := flowType, id := some "f3", sourceRef := some "split", targetRef := some "join" },
      { type := flowType, id := some "f4", sourceRef := some "join", targetRef := some "split" },
      { type := flowType, id := some "f5", sourceRef := some "join", targetRef := some "review" },
      { type := flowType, id := some "f6", sourceRef := some "review", targetRef := some "end" }] }]

def plainHost : BpmnHost where
  jsonParse := fun _ => none
  number := fun _ => none

theorem compile_depends_on_launch : ∃ process spec, processOf launchProcess = .ok process ∧
    compileBpmnToWorkflowSpec plainHost (fun _ => none) launchProcess = .ok spec ∧
      ∀ t ∈ spec.tasks, ∀ a o,
        ⟨a, o⟩ ∈ t.dependsOn ↔ ∃ gs, FlowPath process.flowElements a o gs t.key := by
  have hvalid : validateBpmnAgainstProfile launchProcess = none := by decide +kernel
  have huniq : ∀ process ∈ launchProcess.rootElements,
      (process.flowElements.filterMap FlowElement.id).Nodup := by decide +kernel
  have hok : (compileBpmnToWorkflowSpec plainHost (fun _ => none) launchProcess).toBool = true := by
    decide +kernel
  obtain ⟨process, hprocess, hdeps, -, -⟩ :=
    compile_depends_on plainHost (fun _ => none) launchProcess hvalid huniq
  cases h : compileBpmnToWorkflowSpec plainHost (fun _ => none) launchProcess with
  | ok spec => exact ⟨process, spec, hprocess, rfl, fun t ht => ((hdeps spec h).2 t ht).2⟩
  | error e =>
    rw [h] at hok
    cases hok

end WfBpmn
