import Cinatra.AgentRuns.RunStore

/-! # StatusMoves — the status of a run moves along the table

    Transitions, setup approvals and bulk stops take turns, a statement at a time.
    A compare-and-swap moves along an edge.  The second write of a transition and
    the write of a bulk stop ask nothing of the status they find, so they move
    along an edge exactly when the run has not been taken elsewhere in between
    (`status_moves`). -/

namespace AgentRuns

open Process Machine RowTable

/-- An edge of the table, or the setup approval's own. -/
def Edge (a b : AgentRunStatus) : Prop :=
  (a, b) ∈ legalTransitions ∨ a = .pendingApproval ∧ b = .queued

instance (a b : AgentRunStatus) : Decidable (Edge a b) := inferInstanceAs (Decidable (_ ∨ _))

/-- Nothing leaves `completed`, only a reset leaves `failed`, and only a resumption
    leaves `stopped`. -/
theorem edge_terminal {a b : AgentRunStatus} (h : Edge a b) (ha : a ∈ terminalRunStatuses) :
    a = .failed ∧ b = .pendingInput ∨ a = .stopped ∧ b = .queued := by
  revert h ha
  cases a <;> cases b <;> decide

/-! ## The requests -/

inductive StatusJob where
  | transition (now : Int) (runId : String) (source target : AgentRunStatus)
      (runMeta : Option RunMeta)
  | approve (runId : String) (values : Option JsonValue.Json) (fieldName : Option String)
  | bulkStop (now : Int) (runIds : List String)
  | bulkStopByTemplate (now : Int) (templateId : String)

/-- How a statement ends: answered, failed, or carried out with the answer lost. -/
inductive Fault where
  | answered | failed | lost
deriving DecidableEq

abbrev RunTask := Task RunCall RunCall.Reply RunError Unit

def StatusJob.task : StatusJob → RunTask
  | .transition now runId source target runMeta =>
    Task.of (transitionRunStatus now runId source target runMeta) ()
  | .approve runId values fieldName => Task.of (approveSetupTask runId values fieldName) ()
  | .bulkStop now runIds => Task.of (bulkStopAgentRuns now runIds) ()
  | .bulkStopByTemplate now templateId => Task.of (bulkStopAgentRunsByTemplate now templateId) ()

def database : Host RunCall RunCall.Reply RunError World Fault where
  ready _ _ _ := true
  answer fault _ c w :=
    match fault with
    | .answered => (.ok (serve w c).1, (serve w c).2)
    | .failed => (.error (.thrown "query failed"), w)
    | .lost => (.error (.thrown "connection lost"), (serve w c).2)
  leave _ w := w

abbrev RunPool := Pool RunCall RunCall.Reply RunError Unit World

def seeNothing : Unit → (c : RunCall) → Except RunError c.Reply → Unit := fun _ _ _ => ()

def statusStep : RunPool → Event StatusJob Fault → RunPool :=
  step database seeNothing StatusJob.task

/-- The tables, and no request under way. -/
def idle (w : World) : RunPool := ⟨w, fun _ => none⟩

/-! ## The statements a request makes -/

/-- A compare-and-swap is along the table; no run is inserted. -/
def StatusCall : RunCall → Prop
  | .casStatus _ source target => (source, target) ∈ legalTransitions
  | .insertRun _ => False
  | _ => True

theorem transition_calls (now : Int) (runId : String) (source target : AgentRunStatus)
    (runMeta : Option RunMeta) :
    Only StatusCall (transitionRunStatus now runId source target runMeta) :=
  transition_only (fun hlegal => only_perform hlegal) (only_perform trivial)

theorem setupTemplate_calls (run : AgentRun) (values : Option JsonValue.Json)
    (fieldName : Option String) : Only StatusCall (readSetupTemplate run values fieldName) := by
  unfold readSetupTemplate
  split
  · rename_i fields
    by_cases hform : fieldName = none
    · rw [if_pos hform]
      exact only_perform trivial
    · rw [if_neg hform]
      exact only_pure _
  · exact only_pure _

theorem approve_calls (runId : String) (values : Option JsonValue.Json)
    (fieldName : Option String) : Only StatusCall (approveSetupTask runId values fieldName) := by
  refine Only.bind (only_perform trivial) fun found => ?_
  cases found with
  | none => exact only_throwErr _
  | some run =>
    dsimp only
    split
    · exact only_throwErr _
    refine Only.bind ?_ fun template => Only.bind (only_lift _) fun merge => ?_
    · exact setupTemplate_calls run values fieldName
    · refine Only.bind (only_perform trivial) fun updated => ?_
      split
      · exact only_throwErr _
      · exact only_perform trivial

theorem bulkStop_calls (now : Int) (runIds : List String) :
    Only StatusCall (bulkStopAgentRuns now runIds) := by
  rw [bulkStopAgentRuns]
  split
  · exact only_pure _
  · refine Only.bind (only_perform trivial) fun rows => ?_
    split
    · exact only_pure _
    · exact Only.bind (only_perform trivial) fun _ => only_pure _

theorem bulkStopByTemplate_calls (now : Int) (templateId : String) :
    Only StatusCall (bulkStopAgentRunsByTemplate now templateId) := by
  refine Only.bind (only_perform trivial) fun rows => ?_
  split
  · exact only_pure _
  · exact Only.bind (only_perform trivial) fun _ => only_pure _

/-- **A request makes only such statements**, whatever the database replies. -/
theorem statusJob_keeps (job : StatusJob) :
    job.task.Keeps seeNothing (fun _ c => StatusCall c) := by
  cases job with
  | transition now runId source target runMeta =>
    exact Task.keeps_of_only (transition_calls now runId source target runMeta) ()
  | approve runId values fieldName =>
    exact Task.keeps_of_only (approve_calls runId values fieldName) ()
  | bulkStop now runIds => exact Task.keeps_of_only (bulkStop_calls now runIds) ()
  | bulkStopByTemplate now templateId =>
    exact Task.keeps_of_only (bulkStopByTemplate_calls now templateId) ()

/-! ## One statement -/

variable {w : World} {f : AgentRun → AgentRun} {p : AgentRun → Bool} {id : String}

theorem status_updateRuns (hid : ∀ r, (f r).id = r.id) : (w.updateRuns p f).status id =
      (w.runs.find? (fun r => r.id = id)).map (fun r => (if p r then f r else r).status) := by
  rw [World.status, World.updateRuns, find?_updateWhere, Option.map_map]
  · rfl
  · intro r _
    rw [hid]

theorem status_written
    {r : AgentRun} (hid : ∀ r, (f r).id = r.id) (hr : w.runs.find? (fun r => r.id = id) = some r)
    (hp : p r = true) : (w.updateRuns p f).status id = some (f r).status := by
  rw [status_updateRuns hid, hr, Option.map_some, if_pos hp]

theorem status_eq_some {a : AgentRunStatus} (h : w.status id = some a) :
    ∃ r, w.runs.find? (fun r => r.id = id) = some r ∧ r.id = id ∧ r.status = a := by
  obtain ⟨r, hr, ha⟩ := Option.map_eq_some_iff.mp h
  exact ⟨r, hr, by simpa using List.find?_some hr, ha⟩

/-- Every run's status is kept, or goes along an edge. -/
def Moves (w w' : World) : Prop :=
  ∀ id a b, w.status id = some a → w'.status id = some b → a ≠ b → Edge a b

theorem Moves.refl (w : World) : Moves w w := by
  intro id a b ha hb hne
  exact absurd (Option.some.inj (ha.symm.trans hb)) hne

/-- The write asks nothing of the status it finds: that has to be the one it writes,
    or one with an edge to it. -/
def Unclobbered (w : World) : RunCall → Prop
  | .writeStatus id status _ _ => ∀ a, w.status id = some a → a = status ∨ Edge a status
  | .stopByIds ids _ => ∀ id ∈ ids, ∀ a, w.status id = some a → a = .stopped ∨ Edge a .stopped
  | _ => True

theorem moves_updateRuns (hid : ∀ r, (f r).id = r.id)
    (h : ∀ r, w.runs.find? (fun r' => r'.id = r.id) = some r → p r = true →
      r.status ≠ (f r).status → Edge r.status (f r).status) : Moves w (w.updateRuns p f) := by
  intro id a b ha hb hne
  obtain ⟨r, hr, hrid, rfl⟩ := status_eq_some ha
  rw [status_updateRuns hid, hr, Option.map_some] at hb
  have hb' : (if p r then f r else r).status = b := Option.some.inj hb
  subst hrid
  split at hb'
  · rename_i hp
    rw [← hb'] at hne ⊢
    exact h r hr hp hne
  · exact absurd hb' hne

variable {c : RunCall}

/-- **One statement moves every run along the table exactly when it clobbers none.** -/
theorem serve_moves (hc : StatusCall c) : Moves w (serve w c).2 ↔ Unclobbered w c := by
  cases c with
  | casStatus id expected next =>
    refine iff_of_true (moves_updateRuns (fun _ => rfl) fun r _ hp _ => ?_) trivial
    have hexpected : r.status = expected := by
      simp only [Bool.and_eq_true, decide_eq_true_eq] at hp
      exact hp.2
    rw [hexpected]
    exact .inl hc
  | approveSetup id merge =>
    refine iff_of_true (moves_updateRuns (fun _ => rfl) fun r _ hp _ => ?_) trivial
    simp only [Bool.and_eq_true, decide_eq_true_eq] at hp
    exact .inr ⟨hp.2, rfl⟩
  | writeStatus id status completedAt patch =>
    constructor
    · intro h a ha
      by_cases heq : a = status
      · exact .inl heq
      · refine .inr (h id a status ha ?_ heq)
        obtain ⟨r, hr, hrid, _⟩ := status_eq_some ha
        exact status_written (fun _ => rfl) hr (decide_eq_true hrid)
    · intro h
      refine moves_updateRuns (fun _ => rfl) fun r hr hp hne => ?_
      have hrid : r.id = id := by simpa using hp
      rw [hrid] at hr
      exact (h r.status (congrArg (Option.map AgentRun.status) hr)).resolve_left hne
  | stopByIds ids now =>
    constructor
    · intro h id hmem a ha
      by_cases heq : a = .stopped
      · exact .inl heq
      · refine .inr (h id a .stopped ha ?_ heq)
        obtain ⟨r, hr, hrid, _⟩ := status_eq_some ha
        have hp : ids.contains r.id = true := by simpa [hrid] using hmem
        exact status_written (fun _ => rfl) hr hp
    · intro h
      refine moves_updateRuns (fun _ => rfl) fun r hr hp hne => ?_
      have hmem : r.id ∈ ids := by simpa using hp
      exact (h r.id hmem r.status (congrArg (Option.map AgentRun.status) hr)).resolve_left hne
  | insertRun run => exact absurd hc id
  | readAgentRunById | readAgentTemplateById | readLatestAgentVersionId | selectByIds
  | selectByTemplate | readRunTriggerByRunId | upsertRunTrigger | removeJobScheduler
  | setReleasedFlag | markTriggerReleasedInDb | addJob => exact iff_of_true (Moves.refl w) trivial

/-! ## The count of a bulk stop -/

/-- `alreadyTerminal` counts the selected rows with a terminal status, and no others. -/
def CountsTerminal (rows : List (String × AgentRunStatus)) : Prop :=
  (bulkStopResult rows).alreadyTerminal =
    (rows.filter (fun r => terminalRunStatuses.contains r.2)).length

/-- Active or terminal. -/
def Counted (status : AgentRunStatus) : Prop :=
  status ≠ .armed ∧ status ≠ .pendingTrigger ∧ status ≠ .waitingTrigger

instance (status : AgentRunStatus) : Decidable (Counted status) :=
  inferInstanceAs (Decidable (_ ∧ _))

variable {status : AgentRunStatus}

theorem not_active_of_terminal
    (h : terminalRunStatuses.contains status = true) : activeStatuses.contains status = false := by
  cases status <;> first | rfl | cases h

theorem counted_iff : Counted status ↔ (activeStatuses.contains status = false →
      terminalRunStatuses.contains status = true) := by
  cases status <;> decide

theorem countsTerminal_iff (rows : List (String × AgentRunStatus)) :
    CountsTerminal rows ↔ ∀ r ∈ rows, Counted r.2 := by
  -- the rows that are not stopped, and the terminal ones among them
  have hrest : (bulkStopResult rows).alreadyTerminal =
      (rows.filter (fun r => !activeStatuses.contains r.2)).length := by
    have hsplit := List.length_eq_length_filter_add (l := rows)
      (fun r => activeStatuses.contains r.2)
    show rows.length - (toStop rows).length = _
    rw [toStop, List.length_map]
    omega
  have hterminal : rows.filter (fun r => terminalRunStatuses.contains r.2) =
      (rows.filter (fun r => !activeStatuses.contains r.2)).filter
        (fun r => terminalRunStatuses.contains r.2) := by
    rw [List.filter_filter]
    refine List.filter_congr fun r _ => ?_
    cases hr : terminalRunStatuses.contains r.2 with
    | false => rfl
    | true => rw [not_active_of_terminal hr]; rfl
  rw [CountsTerminal, hrest, hterminal, eq_comm, List.length_filter_eq_length_iff]
  constructor
  · intro h r hr
    refine counted_iff.mpr fun hactive => h r (List.mem_filter.mpr ⟨hr, ?_⟩)
    rw [hactive]
    rfl
  · intro h r hr
    obtain ⟨hmem, hactive⟩ := List.mem_filter.mp hr
    rw [Bool.not_eq_true'] at hactive
    exact counted_iff.mp (h r hmem) hactive

/-! ## Runs -/

/-- **The law of a step**: statuses move along the table, `completed` for good, and a
    bulk stop counts as terminal what is terminal. -/
structure Lawful (s : RunPool) (e : Event StatusJob Fault) : Prop where
  moves : Moves s.world (statusStep s e).world
  completed : ∀ id b, s.world.status id = some .completed →
    (statusStep s e).world.status id = some b → b = .completed
  failed : ∀ id b, s.world.status id = some .failed →
    (statusStep s e).world.status id = some b → b = .failed ∨ b = .pendingInput
  stopped : ∀ id b, s.world.status id = some .stopped →
    (statusStep s e).world.status id = some b → b = .stopped ∨ b = .queued
  counts : ∀ i ids v, e = .turn i .answered → NextCall s i (.selectByIds ids) v →
    CountsTerminal (serve s.world (.selectByIds ids)).1

/-- Where a write by id alone lands, the run is in the status written or in one with an
    edge to it; and no bulk stop selects a run that waits for its trigger. -/
def Unovertaken (s : RunPool) : Event StatusJob Fault → Prop
  | .turn i fault => ∀ c v, NextCall s i c v →
      (fault ≠ .failed → Unclobbered s.world c) ∧
      (fault = .answered → ∀ ids, c = .selectByIds ids →
        ∀ r ∈ s.world.runs, r.id ∈ ids → Counted r.status)
  | _ => True

variable {e : Event StatusJob Fault} {s : RunPool}

theorem lawful_of_moves (h : Moves s.world (statusStep s e).world)
    (hcounts : ∀ i ids v, e = .turn i .answered → NextCall s i (.selectByIds ids) v →
      CountsTerminal (serve s.world (.selectByIds ids)).1) : Lawful s e := by
  have hleave : ∀ id a b, s.world.status id = some a → (statusStep s e).world.status id = some b →
      a ∈ terminalRunStatuses → b = a ∨ a = .failed ∧ b = .pendingInput ∨
        a = .stopped ∧ b = .queued := by
    intro id a b ha hb hterminal
    by_cases heq : a = b
    · exact .inl heq.symm
    · exact .inr (edge_terminal (h id a b ha hb heq) hterminal)
  refine ⟨h, ?_, ?_, ?_, hcounts⟩
  · intro id b ha hb
    rcases hleave id _ b ha hb (by decide) with h | ⟨h, _⟩ | ⟨h, _⟩
    · exact h
    · cases h
    · cases h
  · intro id b ha hb
    rcases hleave id _ b ha hb (by decide) with h | ⟨_, h⟩ | ⟨h, _⟩
    · exact .inl h
    · exact .inr h
    · cases h
  · intro id b ha hb
    rcases hleave id _ b ha hb (by decide) with h | ⟨h, _⟩ | ⟨_, h⟩
    · exact .inl h
    · cases h
    · exact .inr h

theorem counts_select {ids : List String} : CountsTerminal (serve w (.selectByIds ids)).1 ↔
      ∀ r ∈ w.runs, r.id ∈ ids → Counted r.status := by
  rw [countsTerminal_iff]
  show (∀ r ∈ (w.runs.filter (fun r => ids.contains r.id)).map (fun r => (r.id, r.status)), _) ↔ _
  rw [List.forall_mem_map]
  constructor
  · intro h r hr hid
    exact h r (List.mem_filter.mpr ⟨hr, by simpa using hid⟩)
  · intro h r hr
    obtain ⟨hmem, hid⟩ := List.mem_filter.mp hr
    exact h r hmem (by simpa using hid)

theorem answer_world {fault : Fault} (hfault : fault ≠ .failed) {i : Nat} :
    (database.answer fault i c w).2 = (serve w c).2 := by
  cases fault with
  | answered => rfl
  | failed => exact absurd rfl hfault
  | lost => rfl

/-- **One step keeps the law exactly when it overtakes nobody.** -/
theorem lawful_iff
    (hkept : s.Kept seeNothing (fun _ c => StatusCall c)) : Lawful s e ↔ Unovertaken s e := by
  constructor
  · intro h
    cases e with
    | start | kill => trivial
    | turn i fault =>
      intro c v hcall
      refine ⟨fun hfault => ?_, ?_⟩
      · have hmoves := h.moves
        rw [show (statusStep s (.turn i fault)).world = _ from
          turn_world (fun _ _ => rfl) hcall rfl, answer_world hfault] at hmoves
        exact (serve_moves (hcall.allowed hkept)).mp hmoves
      · rintro rfl ids rfl
        exact counts_select.mp (h.counts i ids v rfl hcall)
  · intro h
    refine lawful_of_moves ?_ ?_
    · by_cases hsame : (statusStep s e).world = s.world
      · rw [hsame]
        exact Moves.refl s.world
      obtain ⟨i, fault, c, v, rfl, hcall, _, hworld⟩ := step_world (fun _ _ => rfl) hsame
      have hfault : fault ≠ .failed := by
        rintro rfl
        exact hsame hworld
      rw [show (statusStep s (.turn i fault)).world = _ from hworld, answer_world hfault]
      exact (serve_moves (hcall.allowed hkept)).mpr ((h c v hcall).1 hfault)
    · rintro i ids v rfl hcall
      exact counts_select.mpr ((h _ v hcall).2 rfl ids rfl)

/-- **The status of every run moves along the table, in every interleaving, exactly when
    no write by id alone overtakes one**, and no bulk stop selects a run that waits for
    its trigger. -/
theorem status_moves (w : World) (events : List (Event StatusJob Fault)) :
    Admits statusStep Lawful (idle w) events ↔ Admits statusStep Unovertaken (idle w) events := by
  refine Admits.congr (I := Pool.Kept seeNothing (fun _ c => StatusCall c))
    (fun s e h => step_kept statusJob_keeps e h) (fun s e h => lawful_iff h) ?_
  intro i t ht
  cases ht

def agentRun (id : String) (status : AgentRunStatus) : AgentRun where
  id := id
  templateId := "t1"
  orgId := "org-1"
  status := status

/-- A bulk stop selects a running run, the run completes, and the stop is written. -/
def overtaken : List (Event StatusJob Fault) :=
  [.start 0 (.bulkStop 5 ["r1"]), .turn 0 .answered,
    .start 1 (.transition 6 "r1" .running .completed none), .turn 1 .answered, .turn 0 .answered]

theorem completed_run_stopped :
    ((overtaken.take 4).foldl statusStep (idle { runs := [agentRun "r1" .running] })
      ).world.status "r1" = some .completed ∧
    (overtaken.foldl statusStep (idle { runs := [agentRun "r1" .running] })
      ).world.status "r1" = some .stopped ∧
    ¬ Admits statusStep Lawful (idle { runs := [agentRun "r1" .running] }) overtaken := by
  refine ⟨rfl, rfl, ?_⟩
  rintro ⟨_, _, _, _, hlast, _⟩
  have hstays := hlast.completed "r1" .stopped rfl rfl
  cases hstays

end AgentRuns
