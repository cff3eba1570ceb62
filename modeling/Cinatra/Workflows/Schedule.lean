import Cinatra.Workflows.Host

/-! # Schedule — the server-side schedule resolver

    Every task's planned window from its schedule.  A relative schedule anchors
    to the due instant of another task, so the resolver memoises by key and
    carries the keys it is resolving; a frozen task resolves to the window it is
    given.  A task other tasks name as `parent` has its window overwritten by the
    hull of its children's.  Warnings are left out: no operation reads them. -/

namespace WfSchedule

open WfSpec WfRows WfHost

/-- A window in milliseconds; `none` is `NaN`. -/
structure Bar where
  startMs : Option Instant
  endMs : Option Instant
  dueMs : Option Instant

structure ResolvedTask where
  plannedStartUtc : Instant
  plannedEndUtc : Instant
  dueAtUtc : Instant
deriving DecidableEq

/-- The window a frozen task is held at. -/
abbrev FrozenTaskTuple := ResolvedTask

def ResolvedTask.bar (r : ResolvedTask) : Bar :=
  ⟨some r.plannedStartUtc, some r.plannedEndUtc, some r.dueAtUtc⟩

/-- A record keyed by task key. -/
abbrev Record (α : Type) := List (String × α)

def lookup {α : Type} (record : Record α) (key : String) : Option α :=
  (record.find? (fun e => e.1 = key)).map Prod.snd

def tzOf (spec : WorkflowSpec) (schedule : Option ScheduleSpec) : String :=
  match schedule.bind ScheduleSpec.tz with
  | some tz => tz
  | none => (spec.target.map Target.tz).getD "UTC"

/-- The bar around an anchor instant; the due is what other tasks anchor to. -/
def applyBar (host : Host) (anchorInstantMs : Option Instant)
    (schedule : Option ScheduleSpec) (tz : String) : Bar :=
  let barDur := (schedule.bind ScheduleSpec.durationIso8601).bind parseIsoDuration
  match (schedule.bind ScheduleSpec.anchorPoint).getD .due with
  | .start =>
    let endMs := match barDur with
      | some dur => anchorInstantMs.bind (fun ms => host.add (some tz) ms dur)
      | none => anchorInstantMs
    ⟨anchorInstantMs, endMs, endMs⟩
  | _ =>
    let startMs := match barDur with
      | some dur => anchorInstantMs.bind (fun ms => host.sub (some tz) ms dur)
      | none => anchorInstantMs
    ⟨startMs, anchorInstantMs, anchorInstantMs⟩

/-- `HH:mm`. -/
def parseLocalTime (lt : String) : Option (Nat × Nat) := do
  let (h, cs) ← twoDigits lt.toList
  let (mi, _) ← twoDigits (← literal ':' cs)
  return (h, mi)

/-- A relative schedule's instant, from the instant it is anchored to. -/
def relativeInstant (host : Host) (anchorMs : Option Instant) (offsetIso8601 : String)
    (direction : Direction) (localTime : Option String) (tz : String) : Option Instant :=
  let dur := (parseIsoDuration offsetIso8601).getD {}
  let ms := anchorMs.bind (fun base =>
    match direction with
    | .before => host.sub (some tz) base dur
    | .after => host.add (some tz) base dur)
  match localTime with
  | none => ms
  | some lt =>
    match parseLocalTime lt with
    | none => none
    | some (h, mi) => ms.bind (fun m => host.setHours m h mi tz)

section Resolve

variable (host : Host) (spec : WorkflowSpec) (frozen : Record FrozenTaskTuple)
  (targetMs : Option Instant)

/-- The task a key names; a repeated key names the last one. -/
def specTask (key : String) : Option TaskSpec :=
  (spec.tasks.filter (fun t => t.key = key)).getLast?

/-- `resolveDueMs`: a task's due instant, and the memo it leaves.  `stack` holds
    the keys being resolved, which bounds the depth by `fuel`. -/
def resolveDueMs : Nat → String → List String → Record Bar → Option Instant × Record Bar
  | 0, _, _, memo => (targetMs, memo)
  | fuel + 1, key, stack, memo =>
    match lookup memo key with
    | some bar => (bar.dueMs, memo)
    | none =>
      match lookup frozen key with
      | some f => (some f.dueAtUtc, (key, f.bar) :: memo)
      | none =>
        if stack.contains key then (targetMs, memo)
        else
          let sch := (specTask spec key).bind TaskSpec.schedule
          let tz := tzOf spec sch
          match sch with
          | none =>
            let bar := applyBar host targetMs sch tz
            (bar.dueMs, (key, bar) :: memo)
          | some (.absolute at_ _ _ _) =>
            let bar := applyBar host (parseInstantMs host at_ tz) sch tz
            (bar.dueMs, (key, bar) :: memo)
          | some (.relative anchor offset dir lt _ _ _) =>
            let (anchorMs, memo) :=
              if anchor = targetAnchor then (targetMs, memo)
              else resolveDueMs fuel anchor (key :: stack) memo
            let bar := applyBar host (relativeInstant host anchorMs offset dir lt tz) sch tz
            (bar.dueMs, (key, bar) :: memo)

/-- Resolve the tasks in order, each from an empty stack. -/
def resolveAll : List TaskSpec → Record Bar → Record Bar
  | [], memo => memo
  | t :: ts, memo =>
    resolveAll ts
      (resolveDueMs host spec frozen targetMs (spec.tasks.length + 2) t.key [] memo).2

end Resolve

/-! ## Summary parents -/

/-- The keys of the tasks that name `key` as their parent, in order. -/
def childrenOf (spec : WorkflowSpec) (key : String) : List String :=
  (spec.tasks.filter (fun t => t.parent = some key)).map TaskSpec.key

/-- The smaller of two instants; the second may be `NaN`. -/
def minMs (acc x : Option Instant) : Option Instant :=
  match acc, x with
  | acc, none => acc
  | none, some v => some v
  | some a, some v => if v < a then some v else some a

def maxMs (acc x : Option Instant) : Option Instant :=
  match acc, x with
  | acc, none => acc
  | none, some v => some v
  | some a, some v => if v > a then some v else some a

/-- The hull of the windows of some tasks. -/
def hull (memo : Record Bar) : List String → Bar
  | [] => ⟨none, none, none⟩
  | c :: cs =>
    let rest := hull memo cs
    match lookup memo c with
    | none => rest
    | some b => ⟨minMs rest.startMs b.startMs, maxMs rest.endMs b.endMs,
        maxMs rest.dueMs b.dueMs⟩

/-- `recomputeParent`: children first, then the parent's own window.  `done`
    holds the keys already visited. -/
def recomputeParent (spec : WorkflowSpec) :
    Nat → List String → List String × Record Bar → List String × Record Bar
  | 0, _, st => st
  | _ + 1, [], st => st
  | fuel + 1, key :: keys, (done, memo) =>
    if done.contains key then recomputeParent spec fuel keys (done, memo)
    else
      let children := childrenOf spec key
      let (done, memo) := recomputeParent spec fuel children (key :: done, memo)
      let bar := hull memo children
      let memo := if bar.startMs.isSome then (key, bar) :: memo else memo
      recomputeParent spec fuel keys (done, memo)

/-- `new Date(ms).toISOString()` on each bound: it throws on `NaN`. -/
def Bar.resolved (bar : Bar) : Option ResolvedTask := do
  return ⟨← bar.startMs, ← bar.endMs, ← bar.dueMs⟩

/-- The final record; an instant that is no date aborts it. -/
def collect (memo : Record Bar) : List TaskSpec → Option (Record ResolvedTask)
  | [] => some []
  | t :: ts => do
    let bar ← lookup memo t.key
    let r ← bar.resolved
    let rest ← collect memo ts
    return (t.key, r) :: rest

theorem Bar.resolved_eq_some {bar : Bar} {r : ResolvedTask} :
    bar.resolved = some r ↔ bar = r.bar := by
  obtain ⟨s, f, d⟩ := bar
  constructor
  · intro h
    simp only [Bar.resolved, Option.bind_eq_bind, Option.bind_eq_some_iff] at h
    obtain ⟨s', hs, f', hf, d', hd, heq⟩ := h
    rw [← Option.some.inj heq]
    exact congr (congr (congrArg Bar.mk hs) hf) hd
  · intro h
    rw [h]
    rfl

theorem lookup_collect {memo : Record Bar} {tasks : List TaskSpec} {resolved : Record ResolvedTask}
    (h : collect memo tasks = some resolved) {t : TaskSpec} (ht : t ∈ tasks) :
    ∃ r, lookup resolved t.key = some r ∧ lookup memo t.key = some r.bar := by
  induction tasks generalizing resolved with
  | nil => cases ht
  | cons s tasks ih =>
    rw [collect] at h
    simp only [Option.bind_eq_bind, Option.bind_eq_some_iff] at h
    obtain ⟨bar, hbar, r, hr, rest, hrest, heq⟩ := h
    rw [Bar.resolved_eq_some] at hr
    rw [← Option.some.inj heq, lookup, List.find?_cons]
    by_cases hk : s.key = t.key
    · rw [decide_eq_true hk, ← hk]
      rw [hr] at hbar
      exact ⟨r, rfl, hbar⟩
    · rw [decide_eq_false hk]
      rcases List.mem_cons.mp ht with rfl | ht
      · exact absurd rfl hk
      · exact ih hrest ht

/-- Resolve every task's window.  `nowMs` stands in for a missing target. -/
def resolveSchedule (host : Host) (spec : WorkflowSpec) (frozenDueAt : Record FrozenTaskTuple)
    (nowMs : Instant) : Option (Record ResolvedTask) :=
  let targetTz := (spec.target.map Target.tz).getD "UTC"
  let targetMs := match spec.target.bind Target.at_ with
    | some iso => parseInstantMs host iso targetTz
    | none => some nowMs
  let memo := resolveAll host spec frozenDueAt targetMs spec.tasks []
  let fuel := (spec.tasks.length + 1) * (spec.tasks.length + 2)
  let memo := (recomputeParent spec fuel spec.keys ([], memo)).2
  collect memo spec.tasks

end WfSchedule
