import Cinatra.AgentRuns.TriggerService

/-! # TriggerGate — what the gate says of the trigger

    The gate of a run is open where the flag is in Redis or the row has a
    `released_at`.  Neither is cleared when a trigger is set anew, the flag
    survives the row, and a release job opens the gate of whatever configuration
    it finds.  Here sets, deletions, release jobs, reads of the gate and the end of
    the flag's time to live take turns on one run, call by call, any call may fail
    and any operation may be cut off. -/

namespace AgentRuns.Triggers

open Process Machine

variable {runId : String}

/-! ## The gate -/

/-- All that the gate of a run depends on, and whose configuration its row holds. -/
structure Gate where
  row : Option TriggerRecord
  flag : Bool
  current : Option Configured

def TriggerWorld.gate (w : TriggerWorld) (runId : String) : Gate where
  row := w.row runId
  flag := w.base.released.contains runId
  current := w.current runId

/-- The column of the row. -/
def Gate.marked (g : Gate) : Bool := g.row.any (fun t => t.releasedAt.isSome)

def Gate.isOpen (g : Gate) : Bool := g.flag || g.marked

/-- The configuration of the row is released: it is immediate, or a release job of its own
    has opened the gate. -/
def Gate.Released (g : Gate) : Prop :=
  ∃ t, g.row = some t ∧ (t.triggerType = .immediate ∨ ∃ c, g.current = some c ∧ c.released = true)

/-- The row holds the configuration of an operation. -/
def Gate.SetBy (g : Gate) (i : Nat) : Prop := ∃ c, g.current = some c ∧ c.setBy = i

def Gate.Immediate (g : Gate) : Prop := ∃ t, g.row = some t ∧ t.triggerType = .immediate

/-- An immediate trigger that the operation has yet to release. -/
def Gate.OwedBy (g : Gate) (i : Nat) : Prop := g.Immediate ∧ g.SetBy i ∧ g.isOpen = false

/-- What a statement on the run's tables does to the gate. -/
def Gate.afterRun (runId : String) (i : Nat) (scheduledBy : Option Nat) (g : Gate) : RunCall → Gate
  | .upsertRunTrigger t =>
    if t.runId = runId then
      { g with
        row := some { t with releasedAt := g.row.bind TriggerRecord.releasedAt }
        current := if t.jobSchedulerId = none then some { setBy := i } else g.current }
    else g
  | .setReleasedFlag id =>
    if id = runId then
      { g with flag := true, current := g.current.map (Configured.openedBy scheduledBy) }
    else g
  | .markTriggerReleasedInDb id now =>
    if id = runId then
      { g with
        row := g.row.map (fun t => { t with releasedAt := some now })
        current := g.current.map (Configured.openedBy scheduledBy) }
    else g
  | _ => g

def Gate.after (runId : String) (i : Nat) (g : Gate) : TriggerCall → Gate
  | .run c => g.afterRun runId i none c
  | .ofRelease scheduledBy c => g.afterRun runId i (some scheduledBy) c
  | .deleteRunTriggerByRunId id => if id = runId then { g with row := none, current := none } else g
  | .expireFlag id => if id = runId then { g with flag := false } else g
  | _ => g

theorem gate_writeRun (w : TriggerWorld) (i : Nat) (scheduledBy : Option Nat) (c : RunCall) :
    (w.writeRun i scheduledBy c).gate runId = (w.gate runId).afterRun runId i scheduledBy c := by
  cases c with
  | upsertRunTrigger t =>
    have hrow := find_upsertTrigger runId t w.base.triggers
    have hcurrent : noted i scheduledBy w.current (.upsertRunTrigger t) runId =
        if t.runId = runId ∧ t.jobSchedulerId = none then some { setBy := i }
        else w.current runId := by
      rw [noted]
      by_cases hid : t.jobSchedulerId = none
      · rw [if_pos hid, Function.update_apply]
        simp [hid, eq_comm]
      · rw [if_neg hid]
        simp [hid]
    simp only [TriggerWorld.gate, TriggerWorld.writeRun, TriggerWorld.row, serve, hrow, hcurrent,
      Gate.afterRun]
    by_cases hrun : t.runId = runId
    · simp [hrun]
    · simp [hrun]
  | setReleasedFlag id =>
    simp only [TriggerWorld.gate, TriggerWorld.writeRun, TriggerWorld.row, serve, noted,
      Gate.afterRun, Function.update_apply]
    by_cases hid : id = runId
    · simp [hid]
    · simp [hid, Ne.symm hid]
  | markTriggerReleasedInDb id now =>
    have hrow := find_markReleased runId id now w.base.triggers
    simp only [TriggerWorld.gate, TriggerWorld.writeRun, TriggerWorld.row, serve, hrow, noted,
      Gate.afterRun, Function.update_apply]
    by_cases hid : id = runId
    · simp [hid]
    · simp [hid, Ne.symm hid]
  | _ => rfl

theorem gate_write (w : TriggerWorld) (i : Nat) (c : TriggerCall) :
    (w.write i c).gate runId = (w.gate runId).after runId i c := by
  cases c with
  | run c => exact gate_writeRun w i none c
  | ofRelease scheduledBy c => exact gate_writeRun w i (some scheduledBy) c
  | deleteRunTriggerByRunId id =>
    have hrow := find_filter_ne runId id w.base.triggers
    simp only [TriggerWorld.gate, TriggerWorld.write, TriggerWorld.row, hrow, Gate.after,
      Function.update_apply]
    by_cases hid : id = runId
    · simp [hid]
    · simp [hid, Ne.symm hid]
  | expireFlag id =>
    simp only [TriggerWorld.gate, TriggerWorld.write, TriggerWorld.row, Gate.after]
    by_cases hid : id = runId
    · simp [hid]
    · simp [hid, Ne.symm hid]
  | _ => rfl

/-- Every call is answered. -/
def answering : Environment TriggerCall TriggerCall.Reply RunError TriggerWorld Unit where
  answer _ c w := (.ok (w.reply c), w.write 0 c)

/-- `isTriggerReleased`, asked while nothing else goes on. -/
def Shows (w : TriggerWorld) (runId : String) : Prop :=
  (exec answering w (isTriggerReleased runId)).1 = .ok true

variable {c : TriggerCall} {α : Type} {w : TriggerWorld}

@[simp] theorem exec_answering {f : c.Reply → TriggerProg α} :
    exec answering w (perform c >>= f) = exec answering (w.write 0 c) (f (w.reply c)) := rfl

theorem shows_iff (w : TriggerWorld) : Shows w runId ↔ (w.gate runId).isOpen = true := by
  rw [Shows, isTriggerReleased, exec_answering]
  show (exec answering w (if w.base.released.contains runId then _ else _)).1 = .ok true ↔ _
  have hopen : (w.gate runId).isOpen = (w.base.released.contains runId || (w.gate runId).marked) :=
    rfl
  rw [hopen]
  cases w.base.released.contains runId with
  | true => simp
  | false =>
    rw [if_neg Bool.false_ne_true, exec_answering, Bool.false_or]
    show (exec answering w (if (w.gate runId).marked then _ else _)).1 = .ok true ↔ _
    cases (w.gate runId).marked with
    | true => exact iff_of_true rfl rfl
    | false => simp

/-! ## Operations that take turns -/

/-- How far a set has come: whether it has yet to release an immediate trigger. -/
inductive Phase where
  | fresh | owed | settled
deriving DecidableEq

def seen (runId : String) (v : Phase) : (c : TriggerCall) → Except RunError c.Reply → Phase
  | .run (.upsertRunTrigger t), .ok _ =>
    if t.runId = runId ∧ t.triggerType = .immediate ∧ v = .fresh then .owed else v
  | .run (.setReleasedFlag id), .ok _ => if id = runId then .settled else v
  | .deleteRunTriggerByRunId id, _ => if id = runId then .settled else v
  | _, _ => v

/-- What goes on about one run; `newId` is what a tick of a recurring trigger mints. -/
inductive TriggerJob where
  | set (now later : Int) (actor : TriggerActorContext) (args : SetTriggerForActorArgs)
  | delete (now : Int) (actor : TriggerActorContext)
  | release (scheduledBy : Nat) (now : Int) (newId : String)
  | check
  | expire

def TriggerJob.task (host : TriggerHost) (runId : String) :
    TriggerJob → Task TriggerCall TriggerCall.Reply RunError Phase
  | .set now later actor args =>
    Task.of (setRunTriggerForActor host now later actor { args with runId := runId }) .fresh
  | .delete now actor => Task.of (deleteRunTriggerForActor now actor runId) .fresh
  | .release scheduledBy now newId =>
    Task.of ((runAgentRunTriggerReleaseJob now newId runId).hoist
      (TriggerCall.ofRelease scheduledBy) (fun _ r => r)) .fresh
  | .check => Task.of (isTriggerReleased runId) .fresh
  | .expire => Task.of (perform (TriggerCall.expireFlag runId)) .fresh

abbrev TriggerPool := Pool TriggerCall TriggerCall.Reply RunError Phase TriggerWorld

def triggerStep (host : TriggerHost) (runId : String) :
    TriggerPool → Event TriggerJob Fault → TriggerPool :=
  step triggerHost (seen runId) (TriggerJob.task host runId)

/-- Nothing goes on, and the run has no trigger and no schedule. -/
structure Untriggered (runId : String) (s : TriggerPool) : Prop where
  idle : ∀ i, s.tasks i = none
  row : s.world.row runId = none
  current : s.world.current runId = none
  flag : s.world.base.released.contains runId = false
  jobs : ∀ j ∈ s.world.releaseJobs, j.runId ≠ runId
  schedulers : ∀ j ∈ s.world.schedulers, j.runId ≠ runId

/-- A release job writes the rows of the runs that its ticks make, not the row of this run. -/
def Elsewhere (runId : String) : TriggerCall → Prop
  | .ofRelease _ (.upsertRunTrigger t) => t.runId ≠ runId
  | _ => True

/-- An operation is started once, a release job is one that the queue holds, and the run that a
    tick makes is another. -/
def Queued (runId : String) (s : TriggerPool) : Event TriggerJob Fault → Prop
  | .start i (.release scheduledBy _ _) => i ∉ s.world.ended ∧
      ((∃ j ∈ s.world.releaseJobs, j.runId = runId ∧ j.addedBy = scheduledBy) ∨
        ∃ j ∈ s.world.schedulers, j.runId = runId ∧ j.addedBy = scheduledBy)
  | .start i _ => i ∉ s.world.ended
  | .turn i _ => ∀ c v, NextCall s i c v → Elsewhere runId c
  | .kill _ => True

/-- The gate is open only where the current configuration is released, and where no operation is
    at work, wherever it is released. -/
def TellsTruth (runId : String) (s : TriggerPool) : Prop :=
  (Shows s.world runId → (s.world.gate runId).Released) ∧
    ((∀ i, s.tasks i = none) → (s.world.gate runId).Released → Shows s.world runId)

/-- A call that is answered, or whose answer is lost, meets the gate like this. -/
def Gate.Fits (runId : String) (i : Nat) (g : Gate) (v : Phase) (answered : Prop) :
    TriggerCall → Prop
  | .run (.upsertRunTrigger t) =>
    if t.jobSchedulerId.isSome then
      -- the row that is completed is still of this configuration's type
      ∃ r, g.row = some r ∧ r.triggerType = t.triggerType
    else if t.triggerType = .immediate then
      -- the release follows, or has been made
      (v = .fresh ∧ answered) ∨ g.isOpen = true ∨ (g.Immediate ∧ g.SetBy i)
    else g.isOpen = false
  | .run (.setReleasedFlag _) => g.Released
  | .run (.markTriggerReleasedInDb _ _) => g.Released ∨ g.row = none
  | .ofRelease scheduledBy (.setReleasedFlag id) => id = runId → g.Released ∨ g.SetBy scheduledBy
  | .ofRelease scheduledBy (.markTriggerReleasedInDb id _) =>
    id = runId → g.Released ∨ g.SetBy scheduledBy ∨ g.row = none
  | .deleteRunTriggerByRunId _ => g.flag = false
  | .expireFlag _ => g.flag = true → g.marked = true
  | _ => True

/-- How a call is answered, in the state it is made in. -/
def Gate.Admits (runId : String) (i : Nat) (g : Gate) (v : Phase) (c : TriggerCall) : Fault → Prop
  | .answered => g.Fits runId i v True c
  | .lost _ => g.Fits runId i v False c
  | .failed _ => c = .deleteRunTriggerByRunId runId → ¬ g.OwedBy i

/-- The steps at which the gate stays true to the configuration. -/
def Coherent (runId : String) (s : TriggerPool) : Event TriggerJob Fault → Prop
  | .start _ _ => True
  | .turn i fault => ∀ c v, NextCall s i c v → (s.world.gate runId).Admits runId i v c fault
  | .kill i => ¬ (s.world.gate runId).OwedBy i

/-! ### The invariant -/

structure Gate.Kept (g : Gate) (vs : Nat → Option Phase) : Prop where
  current_row : g.current.isSome = true → g.row.isSome = true
  open_released : g.isOpen = true → g.Released
  released_open : g.Released → g.isOpen = true ∨ ∃ i, vs i = some .owed ∧ g.OwedBy i

section Facts

variable {g : Gate} {t : TriggerRecord} {i : Nat}

theorem Gate.Released.row (h : g.Released) : ∃ t, g.row = some t := by
  obtain ⟨t, ht, _⟩ := h
  exact ⟨t, ht⟩

theorem Gate.Immediate.released (h : g.Immediate) : g.Released := by
  obtain ⟨t, ht, htype⟩ := h
  exact ⟨t, ht, .inl htype⟩

theorem Gate.SetBy.unique {j : Nat} (h : g.SetBy i) (h' : g.SetBy j) : i = j := by
  obtain ⟨c, hc, rfl⟩ := h
  obtain ⟨c', hc', rfl⟩ := h'
  rw [hc] at hc'
  cases hc'
  rfl

variable {vs : Nat → Option Phase} {v : Phase} {c : TriggerCall} {r : Except RunError c.Reply}

theorem Gate.Kept.same (h : g.Kept vs) (hv : vs i = some v) (hseen : seen runId v c r = v)
    (hg : g.after runId i c = g) :
    (g.after runId i c).Kept (Function.update vs i (some (seen runId v c r))) := by
  rw [hg, hseen, ← hv, Function.update_eq_self]
  exact h

variable {vs' : Nat → Option Phase} {g' : Gate}

theorem Gate.Kept.of_open
    (hrow : g'.current.isSome = true → g'.row.isSome = true) (hopen : g'.isOpen = true)
    (hreleased : g'.Released) : g'.Kept vs' :=
  ⟨hrow, fun _ => hreleased, fun _ => .inl hopen⟩

/-! ### The row is written -/

theorem owed_update {j : Nat} {v' : Phase} (hv : vs i = some v) (hkeeps : v = .owed → v' = .owed)
    (hj : vs j = some .owed) : Function.update vs i (some v') j = some .owed := by
  by_cases hji : j = i
  · rw [hji, hv] at hj
    rw [hji, Function.update_self, hkeeps (Option.some.inj hj)]
  · rw [Function.update_of_ne hji]
    exact hj

theorem seen_upsert {r : Except RunError (TriggerCall.run (.upsertRunTrigger t)).Reply}
    (hv : v = .owed) : seen runId v (.run (.upsertRunTrigger t)) r = .owed := by
  cases r with
  | ok a =>
    rw [seen, if_neg, hv]
    rintro ⟨_, _, hfresh⟩
    rw [hfresh] at hv
    cases hv
  | error err => exact hv

/-- The row after a write, and whose configuration it is. -/
def Gate.write (g : Gate) (t : TriggerRecord) (current : Option Configured) : Gate :=
  { g with
    row := some { t with releasedAt := g.row.bind TriggerRecord.releasedAt }
    current := current }

theorem write_isOpen (t : TriggerRecord) (current : Option Configured) :
    (g.write t current).isOpen = g.isOpen := by
  rw [Gate.isOpen, Gate.isOpen, Gate.marked, Gate.marked, Gate.write]
  cases g.row with
  | none | some => rfl

theorem write_released (t : TriggerRecord) (current : Option Configured) :
    (g.write t current).Released ↔
      t.triggerType = .immediate ∨ ∃ c, current = some c ∧ c.released = true := by
  constructor
  · rintro ⟨t', ht', h⟩
    cases ht'
    exact h
  · intro h
    exact ⟨_, rfl, h⟩

theorem Gate.Kept.completed (h : g.Kept vs) {r : TriggerRecord} (hr : g.row = some r)
    (htype : r.triggerType = t.triggerType)
    (hvs : ∀ j, vs j = some .owed → vs' j = some .owed) : (g.write t g.current).Kept vs' := by
  have hreleased : (g.write t g.current).Released ↔ g.Released := by
    rw [write_released, ← htype]
    constructor
    · intro h
      exact ⟨r, hr, h⟩
    · rintro ⟨r', hr', h⟩
      rw [hr] at hr'
      cases hr'
      exact h
  refine ⟨fun _ => rfl, fun hopen => ?_, fun hrel => ?_⟩
  · rw [write_isOpen] at hopen
    exact hreleased.mpr (h.open_released hopen)
  · rw [write_isOpen]
    rcases h.released_open (hreleased.mp hrel) with hopen | ⟨j, hj, himm, hset, hclosed⟩
    · exact .inl hopen
    refine .inr ⟨j, hvs j hj, ?_, hset, (write_isOpen t g.current).trans hclosed⟩
    obtain ⟨r', hr', himm⟩ := himm
    rw [hr] at hr'
    cases hr'
    exact ⟨_, rfl, htype.symm.trans himm⟩

theorem Gate.Kept.rearmed (hclosed : g.isOpen = false) (htype : t.triggerType ≠ .immediate) :
    (g.write t (some { setBy := i })).Kept vs' := by
  refine ⟨fun _ => rfl, fun hopen => ?_, fun hrel => ?_⟩
  · rw [write_isOpen, hclosed] at hopen
    cases hopen
  · rw [write_released] at hrel
    rcases hrel with htype' | ⟨c, hc, hrel⟩
    · exact absurd htype' htype
    · cases hc
      cases hrel

/-- A new configuration that is immediate is released next, or the gate is open. -/
theorem Gate.Kept.immediate (htype : t.triggerType = .immediate)
    (howed : g.isOpen = true ∨ vs' i = some .owed) : (g.write t (some { setBy := i })).Kept vs' := by
  have himm : (g.write t (some { setBy := i })).Immediate := ⟨_, rfl, htype⟩
  refine ⟨fun _ => rfl, fun _ => himm.released, fun _ => ?_⟩
  rw [write_isOpen]
  cases hopen : g.isOpen with
  | true => exact .inl rfl
  | false =>
    rcases howed with howed | howed
    · rw [hopen] at howed
      cases howed
    · exact .inr ⟨i, howed, himm, ⟨_, rfl, rfl⟩, (write_isOpen t _).trans hopen⟩

variable {answered : Prop}

theorem Gate.Kept.written (h : g.Kept vs) (hv : vs i = some v)
    {r : Except RunError (TriggerCall.run (.upsertRunTrigger t)).Reply}
    (hr : answered → ∃ a, r = .ok a)
    (hfits : g.Fits runId i v answered (.run (.upsertRunTrigger t))) :
    (g.after runId i (.run (.upsertRunTrigger t))).Kept
      (Function.update vs i (some (seen runId v (.run (.upsertRunTrigger t)) r))) := by
  by_cases hrun : t.runId = runId
  swap
  · refine h.same hv ?_ (if_neg hrun)
    cases r with
    | ok a => exact if_neg (fun h => hrun h.1)
    | error err => rfl
  rw [Gate.after, Gate.afterRun, if_pos hrun]
  rw [Gate.Fits] at hfits
  by_cases hid : t.jobSchedulerId.isSome = true
  · rw [if_pos hid] at hfits
    obtain ⟨r₀, hr₀, htype⟩ := hfits
    rw [if_neg (Option.isSome_iff_ne_none.mp hid)]
    exact h.completed hr₀ htype fun j hj => owed_update hv seen_upsert hj
  · rw [if_neg hid] at hfits
    rw [if_pos (Option.not_isSome_iff_eq_none.mp hid)]
    by_cases himm : t.triggerType = .immediate
    · rw [if_pos himm] at hfits
      refine Gate.Kept.immediate himm ?_
      rcases hfits with ⟨hfresh, hanswered⟩ | hopen | ⟨himm', hset⟩
      · -- the release follows
        obtain ⟨a, rfl⟩ := hr hanswered
        rw [Function.update_self, seen, if_pos ⟨hrun, himm, hfresh⟩]
        exact .inr rfl
      · exact .inl hopen
      · -- the row is completed, and its release has been made or is still owed
        rcases h.released_open himm'.released with hopen | ⟨j, hj, _, hset', _⟩
        · exact .inl hopen
        · rw [hset.unique hset']
          exact .inr (owed_update (hset.unique hset' ▸ hv) seen_upsert hj)
    · rw [if_neg himm] at hfits
      exact Gate.Kept.rearmed hfits himm

/-! ### The gate is opened, or loses its row or its flag -/

theorem Gate.Kept.opened (h : g.Kept vs) {s : Option Nat} (hrow : ∀ t, g.row = some t →
      ∃ t', g'.row = some t' ∧ t'.triggerType = t.triggerType)
    (hcurrent : g'.current = g.current.map (Configured.openedBy s)) (hopen : g'.isOpen = true)
    (hreleased : g.Released ∨ ∃ i, s = some i ∧ g.SetBy i) : g'.Kept vs' := by
  have hrows : g'.current.isSome = true → g'.row.isSome = true := by
    rw [hcurrent, Option.isSome_map]
    intro hsome
    obtain ⟨t, ht⟩ := Option.isSome_iff_exists.mp (h.current_row hsome)
    obtain ⟨t', ht', _⟩ := hrow t ht
    rw [ht']
    rfl
  refine Gate.Kept.of_open hrows hopen ?_
  rcases hreleased with ⟨t, ht, hreleased⟩ | ⟨j, rfl, c, hc, hset⟩
  · obtain ⟨t', ht', htype⟩ := hrow t ht
    refine ⟨t', ht', ?_⟩
    rw [htype, hcurrent]
    refine hreleased.imp_right ?_
    rintro ⟨c, hc, hrel⟩
    refine ⟨_, by rw [hc]; rfl, ?_⟩
    rw [Configured.openedBy]
    split
    · rfl
    · exact hrel
  · obtain ⟨t, ht⟩ := Option.isSome_iff_exists.mp (h.current_row (by rw [hc]; rfl))
    obtain ⟨t', ht', _⟩ := hrow t ht
    refine ⟨t', ht', .inr ⟨_, by rw [hcurrent, hc]; rfl, ?_⟩⟩
    rw [Configured.openedBy, if_pos (congrArg some hset.symm)]

variable {scheduledBy : Option Nat}

theorem Gate.Kept.flagged (h : g.Kept vs)
    (hreleased : g.Released ∨ ∃ i, scheduledBy = some i ∧ g.SetBy i) :
    (g.afterRun runId i scheduledBy (.setReleasedFlag runId)).Kept vs' := by
  rw [Gate.afterRun, if_pos rfl]
  exact h.opened (fun t ht => ⟨t, ht, rfl⟩) rfl rfl hreleased

theorem Gate.Kept.marked (h : g.Kept vs) {now : Int}
    (hreleased : g.Released ∨ (∃ i, scheduledBy = some i ∧ g.SetBy i) ∨ g.row = none) :
    (g.afterRun runId i scheduledBy (.markTriggerReleasedInDb runId now)).Kept vs := by
  rw [Gate.afterRun, if_pos rfl]
  cases hrow : g.row with
  | none =>
    -- no row is marked
    have hcurrent : g.current = none := by
      rw [← Option.not_isSome_iff_eq_none]
      intro hsome
      have hsome' := h.current_row hsome
      rw [hrow] at hsome'
      cases hsome'
    have hsame : ({ g with
        row := (none : Option TriggerRecord).map (fun t => { t with releasedAt := some now })
        current := g.current.map (Configured.openedBy scheduledBy) } : Gate) = g := by
      rw [hcurrent, Option.map_none, Option.map_none, ← hcurrent, ← hrow]
    rw [hsame]
    exact h
  | some t =>
    refine Gate.Kept.opened (s := scheduledBy) h (fun t' ht' => ?_) rfl ?_ ?_
    · rw [hrow] at ht'
      cases ht'
      exact ⟨_, rfl, rfl⟩
    · show (g.flag || true) = true
      exact Bool.or_true _
    · rcases hreleased with hreleased | hset | hnone
      · exact .inl hreleased
      · exact .inr hset
      · rw [hrow] at hnone
        cases hnone

theorem Gate.Kept.deleted (hflag : g.flag = false) :
    (g.after runId i (.deleteRunTriggerByRunId runId)).Kept vs' := by
  rw [Gate.after, if_pos rfl]
  refine ⟨fun h => h, fun hopen => ?_, fun hrel => ?_⟩
  · rw [Gate.isOpen, hflag] at hopen
    cases hopen
  · obtain ⟨t, ht⟩ := hrel.row
    cases ht

theorem Gate.Kept.expired (h : g.Kept vs) (hmark : g.flag = true → g.marked = true) :
    (g.after runId i (.expireFlag runId)).Kept vs := by
  rw [Gate.after, if_pos rfl]
  have hopen : Gate.isOpen { g with flag := false } = g.isOpen := by
    show (false || g.marked) = (g.flag || g.marked)
    cases hflag : g.flag with
    | false => rfl
    | true => rw [hmark hflag]; rfl
  refine ⟨h.current_row, fun h' => h.open_released (hopen ▸ h'), fun hrel => ?_⟩
  rcases h.released_open hrel with hg | ⟨j, hj, himm, hset, hclosed⟩
  · exact .inl (hopen.trans hg)
  · exact .inr ⟨j, hj, himm, hset, hopen.trans hclosed⟩

/-- **A call that meets the gate as it should keeps it true.** -/
theorem Gate.Kept.effect (h : g.Kept vs) (hv : vs i = some v) (hc : Elsewhere runId c)
    (hr : answered → ∃ a, r = .ok a) (hfits : g.Fits runId i v answered c) :
    (g.after runId i c).Kept (Function.update vs i (some (seen runId v c r))) := by
  cases c with
  | run c =>
    cases c with
    | upsertRunTrigger t => exact h.written hv hr hfits
    | setReleasedFlag id =>
      by_cases hid : id = runId
      · subst hid
        exact h.flagged (i := i) (.inl hfits)
      · refine h.same hv ?_ (if_neg hid)
        cases r with
        | ok a => exact if_neg hid
        | error err => rfl
    | markTriggerReleasedInDb id now =>
      by_cases hid : id = runId
      · subst hid
        have hseen : seen id v (.run (.markTriggerReleasedInDb id now)) r = v := rfl
        rw [hseen, ← hv, Function.update_eq_self]
        exact h.marked (i := i) (hfits.imp_right .inr)
      · exact h.same hv rfl (if_neg hid)
    | _ => exact h.same hv rfl rfl
  | ofRelease scheduledBy c =>
    cases c with
    | upsertRunTrigger t => exact h.same hv rfl (if_neg hc)
    | setReleasedFlag id =>
      by_cases hid : id = runId
      · subst hid
        refine h.flagged (i := i) ((hfits rfl).imp_right fun hset => ?_)
        exact ⟨scheduledBy, rfl, hset⟩
      · exact h.same hv rfl (if_neg hid)
    | markTriggerReleasedInDb id now =>
      by_cases hid : id = runId
      · subst hid
        have hseen : seen id v (.ofRelease scheduledBy (.markTriggerReleasedInDb id now)) r = v :=
          rfl
        rw [hseen, ← hv, Function.update_eq_self]
        refine h.marked (i := i) ((hfits rfl).imp_right fun hset => hset.imp_left fun hset => ?_)
        exact ⟨scheduledBy, rfl, hset⟩
      · exact h.same hv rfl (if_neg hid)
    | _ => exact h.same hv rfl rfl
  | deleteRunTriggerByRunId id =>
    by_cases hid : id = runId
    · subst hid
      exact Gate.Kept.deleted hfits
    · exact h.same hv (if_neg hid) (if_neg hid)
  | expireFlag id =>
    by_cases hid : id = runId
    · subst hid
      have hseen : seen id v (.expireFlag id) r = v := rfl
      rw [hseen, ← hv, Function.update_eq_self]
      exact h.expired hfits
    · exact h.same hv rfl (if_neg hid)
  | _ => exact h.same hv rfl rfl

/-- A call that fails leaves the gate; a set that could not delete its row owes nothing. -/
theorem Gate.Kept.failed (h : g.Kept vs) (hv : vs i = some v) {err : RunError}
    (howes : c = .deleteRunTriggerByRunId runId → ¬ g.OwedBy i) :
    g.Kept (Function.update vs i (some (seen runId v c (.error err)))) := by
  by_cases hc : c = .deleteRunTriggerByRunId runId
  · refine ⟨h.current_row, h.open_released, fun hrel => ?_⟩
    refine (h.released_open hrel).imp_right ?_
    rintro ⟨j, hj, howed⟩
    refine ⟨j, ?_, howed⟩
    have hji : j ≠ i := fun hji => howes hc (hji ▸ howed)
    rw [Function.update_of_ne hji]
    exact hj
  · have hseen : seen runId v c (.error err) = v := by
      cases c with
      | run c =>
        cases c with
        | _ => rfl
      | deleteRunTriggerByRunId id =>
        rw [seen, if_neg]
        intro hid
        exact hc (congrArg TriggerCall.deleteRunTriggerByRunId hid)
      | _ => rfl
    rw [hseen, ← hv, Function.update_eq_self]
    exact h

theorem Gate.Kept.drop (h : g.Kept vs) (hi : vs i = some .owed → ¬ g.OwedBy i) :
    g.Kept (Function.update vs i none) := by
  refine ⟨h.current_row, h.open_released, fun hrel => ?_⟩
  refine (h.released_open hrel).imp_right ?_
  rintro ⟨j, hj, howed⟩
  have hji : j ≠ i := by
    rintro rfl
    exact hi hj howed
  refine ⟨j, ?_, howed⟩
  rw [Function.update_of_ne hji]
  exact hj

end Facts

/-! ## The programs -/

section Programs

/-- A call that no set learns anything from. -/
def Quiet : TriggerCall → Prop
  | .run (.upsertRunTrigger _) | .run (.setReleasedFlag _) => False
  | .deleteRunTriggerByRunId _ => False
  | _ => True

/-- The statements of such a kind on the run's tables. -/
def QuietRun : RunCall → Prop
  | .upsertRunTrigger _ | .setReleasedFlag _ => False
  | _ => True

variable {v : Phase}

theorem Quiet.seen (h : Quiet c) (r : Except RunError c.Reply) : seen runId v c r = v := by
  cases c with
  | run c =>
    cases c with
    | upsertRunTrigger | setReleasedFlag => exact h.elim
    | _ => rfl
  | deleteRunTriggerByRunId id => exact h.elim
  | _ => rfl

variable {p : TriggerProg α}

theorem quiet_spec (h : Only Quiet p) :
    Spec (observed (seen runId)) (fun _ _ => True) p (fun _ v' => v' = v) v := by
  refine h.observed (I := fun v' => v' = v) (fun _ _ _ _ => trivial) ?_ rfl
  intro v' c r hv hc
  rw [hc.seen, hv]

theorem quiet_onRun {p : RunProg α} (h : Only QuietRun p) : Only Quiet (onRun p) := by
  refine h.hoist fun c hc => ?_
  cases c with
  | upsertRunTrigger | setReleasedFlag => exact hc.elim
  | _ => trivial

theorem authorize_quiet (actor : TriggerActorContext) (runId : String) :
    Only Quiet (authorize actor runId) := by
  rw [authorize]
  split
  · exact only_pure _
  refine Only.bind (only_perform trivial) fun run => ?_
  split
  · exact only_pure _
  · split
    · exact only_pure _
    · exact only_pure _

theorem cancel_quiet (jobSchedulerId : Option String) (triggerType : TriggerType) :
    Only Quiet (cancelTriggerSchedule jobSchedulerId triggerType) := by
  rw [cancelTriggerSchedule]
  split
  · exact only_pure _
  split
  · exact only_pure _
  · exact only_perform trivial
  · refine Only.bind (only_perform trivial) fun job => ?_
    split
    · exact only_perform trivial
    · exact only_pure _

theorem tryTransition_quiet (now : Int) (runId : String) (source target : AgentRunStatus) :
    Only Quiet (onRun (tryTransition now runId source target)) := by
  refine quiet_onRun (Only.tryCatch ?_ fun err => only_lift _)
  exact Only.bind (transition_only (fun _ => only_perform trivial) (only_perform trivial))
    fun _ => only_pure _

theorem flipStatus_quiet (now : Int) (args : SetTriggerForActorArgs) :
    Only Quiet (flipStatus now args) := by
  rw [flipStatus]
  split
  · exact Only.bind (tryTransition_quiet _ _ _ _) fun _ => only_pure _
  · refine Only.bind (tryTransition_quiet _ _ _ _) fun moved => ?_
    split
    · exact only_pure _
    · exact Only.bind (tryTransition_quiet _ _ _ _) fun _ => only_pure _

/-! ### A set releases what it writes, or deletes it -/

/-- How far a set has come between its two writes of the row. -/
def Written (args : SetTriggerForActorArgs) (v : Phase) : Prop :=
  v = if args.triggerType = .immediate then .owed else .fresh

/-- How far it has come when its schedule is made. -/
def Scheduled (args : SetTriggerForActorArgs) (v : Phase) : Prop :=
  v = if args.triggerType = .immediate then .settled else .fresh

variable {args : SetTriggerForActorArgs}

theorem Written.scheduled (h : Written args v)
    (hne : args.triggerType ≠ .immediate) : Scheduled args v := by
  rw [Scheduled, if_neg hne]
  rw [Written, if_neg hne] at h
  exact h

theorem complete_spec (now : Int) (scheduledAt : Option Int) (id : Option String)
    (hv : Scheduled args v) :
    Spec (observed (seen runId)) (fun _ _ => True) (complete now args scheduledAt id)
      (Post (fun _ v => v ≠ .owed) (fun _ v => v ≠ .owed)) v := by
  have hne : v ≠ .owed := by
    rw [hv]
    split
    · exact Phase.noConfusion
    · exact Phase.noConfusion
  rw [complete]
  refine observe_call trivial (fun _ => ?_) fun _ => hne
  have hsame : seen runId v (.run (.upsertRunTrigger (args.record scheduledAt id))) (.ok ()) = v := by
    refine if_neg ?_
    rintro ⟨_, himm, hfresh⟩
    rw [hv, if_pos (show args.triggerType = .immediate from himm)] at hfresh
    cases hfresh
  rw [hsame]
  refine Spec.post_bind (M := fun _ v => v ≠ Phase.owed) ?_ fun _ v' hv' => ?_
  swap
  · exact hv'
  refine Spec.mono (quiet_spec (flipStatus_quiet now args)) ?_
  rintro r v' rfl
  cases r with
  | ok | error => exact hne

section Set

variable {args : SetTriggerForActorArgs} (hrun : args.runId = runId) {v : Phase}

include hrun

theorem scheduleTrigger_spec (now : Int) (scheduledAt : Option Int) (hv : Written args v) :
    Spec (observed (seen runId)) (fun _ _ => True) (scheduleTrigger now args scheduledAt)
      (Post (fun _ v => Scheduled args v) (fun _ _ => True)) v := by
  rw [scheduleTrigger.eq_def]
  cases htype : args.triggerType with
  | immediate =>
    dsimp only
    rw [markTriggerReleased, onRun_bind, onRun_perform, onRun_perform, bind_assoc]
    refine observe_call trivial (fun _ => ?_) fun _ => trivial
    refine observe_call trivial (fun _ => ?_) fun _ => trivial
    show Scheduled args (if args.runId = runId then .settled else v)
    rw [if_pos hrun, Scheduled, if_pos htype]
  | scheduled =>
    have hfresh := hv.scheduled (by rw [htype]; exact TriggerType.noConfusion)
    dsimp only
    split
    · trivial
    · split
      · trivial
      · exact observe_call trivial (fun _ => hfresh) fun _ => trivial
  | recurring =>
    have hfresh := hv.scheduled (by rw [htype]; exact TriggerType.noConfusion)
    dsimp only
    split
    · trivial
    · exact observe_call trivial (fun _ => hfresh) fun _ => trivial

/-- A schedule that is not made is followed by the deletion of the row. -/
theorem scheduleOrDelete_spec (now : Int) (scheduledAt : Option Int) (hv : Written args v) :
    Spec (observed (seen runId)) (fun _ _ => True) (scheduleOrDelete now args scheduledAt)
      (Post (fun r v => if r.isOk then Scheduled args v else v ≠ .owed) (fun _ v => v ≠ .owed)) v := by
  rw [scheduleOrDelete]
  refine Spec.tryCatch (Spec.bind (Spec.mono (scheduleTrigger_spec hrun now scheduledAt hv) ?_))
  intro r v' hr
  cases r with
  | ok id => exact hr
  | error err =>
    refine Spec.bind (Spec.swallow (observe_spec trivial fun r => ?_))
    show (if args.runId = runId then Phase.settled else v') ≠ .owed
    rw [if_pos hrun]
    exact Phase.noConfusion

theorem configure_spec (host : TriggerHost) (now : Int) :
    Spec (observed (seen runId)) (fun _ _ => True) (configure host now args)
      (Post (fun _ v => v ≠ .owed) (fun _ v => v ≠ .owed)) .fresh := by
  rw [configure]
  refine observe_call trivial (fun existing => ?_) fun _ => Phase.noConfusion
  refine Spec.bind (Spec.swallow (Spec.mono (quiet_spec (cancel_quiet _ _)) ?_))
  rintro r v' rfl
  show Spec _ _ (Prog.bind (lift (args.date host)) _) _ _
  cases args.date host with
  | error err => exact Phase.noConfusion
  | ok scheduledAt =>
    refine observe_call trivial (fun _ => ?_) fun _ => Phase.noConfusion
    have hwritten : Written args (seen runId .fresh
        (.run (.upsertRunTrigger (args.record scheduledAt none))) (.ok ())) := by
      show (if args.runId = runId ∧ args.triggerType = .immediate ∧ Phase.fresh = .fresh
        then Phase.owed else .fresh) = _
      simp [hrun]
    refine Spec.post_bind (scheduleOrDelete_spec hrun now scheduledAt hwritten) ?_
    intro scheduled v hv
    cases scheduled with
    | error message => exact hv
    | ok id =>
      refine Spec.post_bind (complete_spec now scheduledAt id hv) ?_
      exact fun _ _ h => h

theorem set_spec (host : TriggerHost) (now later : Int) (actor : TriggerActorContext) :
    Spec (observed (seen runId)) (fun _ _ => True)
      (setRunTriggerForActor host now later actor args) (fun _ v => v ≠ .owed) .fresh := by
  have hpost : ∀ (r : Except RunError (Except String (Option String))) (v : Phase),
      Post (fun _ v => v ≠ .owed) (fun _ v => v ≠ .owed) r v → v ≠ .owed := by
    intro r v h
    cases r with
    | ok | error => exact h
  rw [setRunTriggerForActor]
  refine Spec.bind (Spec.mono (quiet_spec (authorize_quiet actor args.runId)) ?_)
  rintro r v rfl
  cases r with
  | error err => exact Phase.noConfusion
  | ok refused =>
    cases refused with
    | some message => exact Phase.noConfusion
    | none =>
      show Spec _ _ (Prog.bind (lift (validate host now args)) _) _ _
      cases validate host now args with
      | error err => exact Phase.noConfusion
      | ok invalid =>
        cases invalid with
        | some message => exact Phase.noConfusion
        | none => exact Spec.mono (configure_spec hrun host later) hpost

end Set

/-! ### The other operations owe nothing -/

/-- A call that leaves no release to be made. -/
def Unowing : TriggerCall → Prop
  | .run (.upsertRunTrigger _) => False
  | _ => True

theorem Unowing.seen (hc : Unowing c) (hv : v ≠ .owed)
    (r : Except RunError c.Reply) : seen runId v c r ≠ .owed := by
  cases c with
  | run c =>
    cases c with
    | upsertRunTrigger t => exact hc.elim
    | setReleasedFlag id =>
      cases r with
      | ok a =>
        show (if id = runId then Phase.settled else v) ≠ .owed
        split
        · exact Phase.noConfusion
        · exact hv
      | error err => exact hv
    | _ => exact hv
  | deleteRunTriggerByRunId id =>
    show (if id = runId then Phase.settled else v) ≠ .owed
    split
    · exact Phase.noConfusion
    · exact hv
  | _ => exact hv

theorem unowing_ends (h : Only Unowing p) :
    (Task.of p Phase.fresh).Ends (seen runId) (fun _ _ => True) (· ≠ .owed) := by
  refine Task.ends_of (h.observed (I := fun v => v ≠ Phase.owed) (fun _ _ _ _ => trivial) ?_
    Phase.noConfusion)
  exact fun v c r hv hc => hc.seen hv r

theorem Quiet.unowing (h : Quiet c) : Unowing c := by
  cases c with
  | run c =>
    cases c with
    | upsertRunTrigger t => exact h.elim
    | _ => trivial
  | _ => trivial

theorem delete_unowing (now : Int) (actor : TriggerActorContext) (runId : String) :
    Only Unowing (deleteRunTriggerForActor now actor runId) := by
  have hquiet {α : Type} {p : TriggerProg α} (h : Only Quiet p) : Only Unowing p :=
    h.mono fun _ => Quiet.unowing
  rw [deleteRunTriggerForActor]
  refine Only.bind (hquiet (authorize_quiet actor runId)) fun refused => ?_
  split
  · exact only_pure _
  refine Only.bind (only_perform trivial) fun trigger => ?_
  split
  · exact only_pure _
  refine Only.bind (hquiet (cancel_quiet _ _)).swallow fun _ => ?_
  refine Only.bind (only_perform trivial) fun _ => ?_
  refine Only.bind ?_ fun _ => only_pure _
  rw [disarm.eq_def]
  split
  · exact only_pure _
  · exact Only.bind (hquiet (tryTransition_quiet _ _ _ _)) fun _ => only_pure _

theorem check_unowing (runId : String) : Only Unowing (isTriggerReleased runId) := by
  refine Only.bind (only_perform trivial) fun flag => ?_
  split
  · exact only_pure _
  · refine Only.bind (only_perform trivial) fun row => ?_
    split
    · exact Only.bind (only_perform trivial).swallow fun _ => only_pure _
    · exact only_pure _

theorem only_any {C : Type} {R : C → Type} {ε : Type} (p : Prog C R ε α) :
    Only (fun _ => True) p := by
  induction p with
  | done r => trivial
  | call c k ih => exact ⟨trivial, ih⟩

theorem job_ends (host : TriggerHost) (j : TriggerJob) :
    (j.task host runId).Ends (seen runId) (fun _ _ => True) (· ≠ .owed) := by
  cases j with
  | set now later actor args =>
    let own : SetTriggerForActorArgs := { args with runId := runId }
    have hown : own.runId = runId := rfl
    exact Task.ends_of (set_spec hown host now later actor)
  | delete now actor => exact unowing_ends (delete_unowing now actor runId)
  | release scheduledBy now newId =>
    exact unowing_ends ((only_any _).hoist fun _ _ => trivial)
  | check => exact unowing_ends (check_unowing runId)
  | expire => exact unowing_ends (only_perform trivial)

end Programs

/-! ## The gate tells the truth -/

section Runs

variable {host : TriggerHost} {s : TriggerPool} {vs : Nat → Option Phase} {v : Phase}

theorem Gate.Kept.turn {i : Nat} {f : Fault} (h : (w.gate runId).Kept vs) (hv : vs i = some v)
    (hc : Elsewhere runId c) (hadmits : (w.gate runId).Admits runId i v c f) :
    ((triggerHost.answer f i c w).2.gate runId).Kept
      (Function.update vs i (some (seen runId v c (triggerHost.answer f i c w).1))) := by
  cases f with
  | answered =>
    show ((w.write i c).gate runId).Kept _
    rw [gate_write]
    exact h.effect hv hc (fun _ => ⟨_, rfl⟩) hadmits
  | lost err =>
    show ((w.write i c).gate runId).Kept _
    rw [gate_write]
    exact h.effect hv hc (fun h => h.elim) hadmits
  | failed err => exact h.failed hv hadmits

theorem Gate.Kept.start {g : Gate} {i : Nat}
    (h : g.Kept vs) (hnew : vs i = none) : g.Kept (Function.update vs i (some v)) := by
  refine ⟨h.current_row, h.open_released, fun hrel => ?_⟩
  refine (h.released_open hrel).imp_right ?_
  rintro ⟨j, hj, howed⟩
  refine ⟨j, ?_, howed⟩
  have hji : j ≠ i := by
    rintro rfl
    rw [hnew] at hj
    cases hj
  rw [Function.update_of_ne hji]
  exact hj

/-- What holds in every state of such a run. -/
structure GateKept (runId : String) (s : TriggerPool) : Prop where
  tasks : s.Every (Task.Ends (seen runId) (fun _ _ => True) (· ≠ .owed))
  gate : (s.world.gate runId).Kept s.views

theorem GateKept.step (h : GateKept runId s) {e : Event TriggerJob Fault}
    (hqueued : Queued runId s e) (hcoherent : Coherent runId s e) :
    GateKept runId (triggerStep host runId s e) := by
  refine ⟨step_every (job_ends host) (fun c k v r hcall => (Task.Ends.call hcall).2 r) e h.tasks, ?_⟩
  have hstepped : Stepped triggerHost (seen runId) (TriggerJob.task host runId) (fun _ _ => True)
      (· ≠ .owed) s e (triggerStep host runId s e).world (triggerStep host runId s e).views :=
    step_stepped h.tasks e
  generalize (triggerStep host runId s e).world = w at hstepped ⊢
  generalize (triggerStep host runId s e).views = vs at hstepped ⊢
  cases hstepped with
  | idle => exact h.gate
  | started hnew => exact h.gate.start hnew
  | killed hview => exact h.gate.drop fun _ => hcoherent
  | @answered i f c v hcall hallowed hready =>
    exact h.gate.turn hcall.view (hqueued c v hcall) (hcoherent c v hcall)
  | @ended i f c v hcall hallowed hready hend =>
    have hturn := h.gate.turn hcall.view (hqueued c v hcall) (hcoherent c v hcall)
    have hgone := hturn.drop (i := i) ?_
    · rw [Function.update_idem] at hgone
      exact hgone
    · rw [Function.update_self]
      intro howed
      exact absurd (Option.some.inj howed) hend

theorem gateKept_untriggered (h : Untriggered runId s) : GateKept runId s := by
  have hgate : s.world.gate runId = { row := none, flag := false, current := none } := by
    rw [TriggerWorld.gate, h.row, h.flag, h.current]
  refine ⟨fun i t ht => ?_, ?_⟩
  · rw [h.idle i] at ht
    cases ht
  · rw [hgate]
    refine ⟨fun h => h, fun h => ?_, fun h => ?_⟩
    · cases h
    · obtain ⟨t, ht⟩ := h.row
      cases ht

theorem GateKept.tellsTruth (h : GateKept runId s) : TellsTruth runId s := by
  rw [TellsTruth, shows_iff]
  refine ⟨h.gate.open_released, fun hidle hrel => ?_⟩
  rcases h.gate.released_open hrel with hopen | ⟨i, hi, _⟩
  · exact hopen
  · rw [Pool.views, hidle i] at hi
    cases hi

/-- **The gate tells the truth in every run whose steps meet the condition.** -/
theorem gate_tells_truth (host : TriggerHost) {s : TriggerPool}
    (h : Reaches (Untriggered runId) (triggerStep host runId)
      (fun s e => Queued runId s e ∧ Coherent runId s e) s) : TellsTruth runId s := by
  have hkept : GateKept runId s := h.invariant (fun _ => gateKept_untriggered)
    fun s e hs hok => hs.step hok.1 hok.2
  exact hkept.tellsTruth

end Runs

/-! ## A trigger that is set twice -/

/-- A run that waits for its input, and nothing goes on. -/
def waiting : TriggerPool where
  world := oneRun
  tasks _ := none

theorem untriggered_waiting : Untriggered "run" waiting where
  idle _ := rfl
  row := rfl
  current := rfl
  flag := rfl
  jobs := by
    intro j hj
    cases hj
  schedulers := by
    intro j hj
    cases hj

def atTime (now : Int) (scheduledAt : String) : TriggerJob :=
  .set now now { userId := "ada" }
    { runId := "run", triggerType := .scheduled, scheduledAt := some scheduledAt }

/-- So many answers to an operation. -/
def answered (i n : Nat) : List (Event TriggerJob Fault) := List.replicate n (.turn i .answered)

/-- The run is set to start at once, and the flag's time is over. -/
def setAtOnce : List (Event TriggerJob Fault) :=
  [.start 0 (.set 0 0 { userId := "ada" } { runId := "run", triggerType := .immediate }),
    .turn 0 .answered, .turn 0 .answered, .turn 0 .answered, .turn 0 .answered, .turn 0 .answered,
    .turn 0 .answered, .turn 0 .answered, .start 1 .expire, .turn 1 .answered]

theorem gate_tells_truth_atOnce :
    TellsTruth "run" (setAtOnce.foldl (triggerStep plainHost "run") waiting) := by
  refine gate_tells_truth plainHost ⟨waiting, untriggered_waiting, Admits.leads ?_⟩
  refine ⟨⟨List.not_mem_nil, trivial⟩, ⟨?_, ?_⟩, ⟨?_, ?_⟩, ⟨?_, ?_⟩, ⟨?_, ?_⟩, ⟨?_, ?_⟩, ⟨?_, ?_⟩,
    ⟨?_, ?_⟩, ⟨?_, trivial⟩, ⟨?_, ?_⟩, trivial⟩
  all_goals try
    rintro c v ⟨k, hk⟩
    cases hk
  all_goals try trivial
  · exact .inl ⟨rfl, trivial⟩
  · exact ⟨_, rfl, .inl rfl⟩
  · exact .inl ⟨_, rfl, .inl rfl⟩
  · exact .inr (.inl rfl)
  · show 1 ∉ [0]
    decide
  · exact fun _ => rfl

/-- A trigger is set for five seconds past and its job is run; then it is set for nine. -/
def setTwice : List (Event TriggerJob Fault) :=
  .start 0 (atTime 0 "1970-01-01T00:00:05") :: answered 0 6 ++
    .start 1 (.release 0 5000 "tick") :: answered 1 5 ++
    .start 2 (atTime 6000 "1970-01-01T00:00:09") :: answered 2 9

/-- The run that has the trigger. -/
def afterSetTwice : TriggerPool := setTwice.foldl (triggerStep plainHost "run") waiting

theorem gate_left_open : ¬ ∀ s,
    Reaches (Untriggered "run") (triggerStep plainHost "run") (Queued "run") s →
      TellsTruth "run" s := by
  intro hall
  have hreached : Reaches (Untriggered "run") (triggerStep plainHost "run") (Queued "run")
      afterSetTwice := by
    refine ⟨waiting, untriggered_waiting, Admits.leads ?_⟩
    refine ⟨List.not_mem_nil, ?_, ?_, ?_, ?_, ?_, ?_, ?_, ?_, ?_, ?_, ?_, ?_, ?_, ?_, ?_, ?_, ?_, ?_,
      ?_, ?_, ?_, ?_, trivial⟩
    all_goals try
      rintro c v ⟨k, hk⟩
      cases hk
      trivial
    · -- the queue holds the job of the first set
      refine ⟨?_, .inl ⟨{ id := "trigger-release-run", runId := "run", due := 5000, addedBy := 0 },
        ?_, rfl, rfl⟩⟩
      · show 1 ∉ [0]
        decide
      · decide +kernel
    · show 2 ∉ [1, 0]
      decide
  have hopen : (afterSetTwice.world.gate "run").isOpen = true := by decide +kernel
  obtain ⟨t, ht, hreleased⟩ := (hall _ hreached).1 ((shows_iff _).mpr hopen)
  have hrow : (afterSetTwice.world.gate "run").row.map TriggerRecord.triggerType =
      some .scheduled := by decide +kernel
  have hcurrent : (afterSetTwice.world.gate "run").current = some { setBy := 2 } := by
    decide +kernel
  rw [ht, Option.map_some, Option.some_inj] at hrow
  rw [hrow, hcurrent] at hreleased
  rcases hreleased with himm | ⟨c, hc, hrel⟩
  · cases himm
  · cases hc
    cases hrel

end AgentRuns.Triggers
