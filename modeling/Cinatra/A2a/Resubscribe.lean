import Cinatra.A2a.EventTail
import Cinatra.A2a.TaskPoller
import Cinatra.Lib.Records

/-! # Resubscribe — replaying the log of a run

    The events of a run are appended to a stream under the id of the run, with a
    `type` each.  A client that comes back names its task: the handler shows the
    stored task, and then reads a stream under the id of the task, and passes on
    what has a `kind` that it knows. -/

namespace A2a

open JsonValue

variable {Id : Type}

def textField (name value : String) : String × Json := (name, .str value)

def Part.toJson : Part → Json
  | .text s => .obj [textField "kind" "text", textField "text" s]
  | .data v => .obj [textField "kind" "data", ("data", v)]

/-- The payload of an event; a field that is undefined is not serialised. -/
def RunStreamEvent.toJson : RunStreamEvent → Json
  | .status state => .obj [textField "type" "status", textField "state" state]
  | .artifact name parts => .obj [textField "type" "artifact",
      ("artifact", .obj ((name.map (textField "name")).toList ++
        [("parts", .arr (parts.map Part.toJson))]))]
  | .error reason detail => .obj ([textField "type" "error", textField "reason" reason] ++
      (detail.map (textField "detail")).toList)
  | .done => .obj [textField "type" "done"]

/-- `JSON.stringify(event)`. -/
def stringify (payload : Json) : String := String.ofList (print payload)

def streamKey (runId : String) : String := "cinatra:a2a:events:" ++ runId

/-- What has been published, under the key of each stream. -/
abbrev RunLogs (Id : Type) := String → List (Id × RunStreamEvent)

/-- `publishRunEvent`, where the stream takes the entry. -/
def publishRunEvent (logs : RunLogs Id) (runId : String) (id : Id) (event : RunStreamEvent) :
    RunLogs Id :=
  Function.update logs (streamKey runId) (logs (streamKey runId) ++ [(id, event)])

/-- The entry that `xaddRunEvent` writes. -/
def logEntry (appended : Id × RunStreamEvent) : StreamEntry Id :=
  ⟨appended.1, ["data", stringify appended.2.toJson]⟩

/-! ## The loop of a replay -/

/-- A yield after the task: an event of the stream, and the id its metadata are given. -/
structure Replayed (Id : Type) where
  kind : String
  eventId : Id
  event : Json

/-- How a replay goes on: it has returned, or it has thrown, or it waits for the next event. -/
inductive ReplayEnd where
  | returned | threw | tailing
deriving DecidableEq

/-- `event.kind`; reading it of a null throws. -/
def kindOf : Json → Except Unit (Option String)
  | .null => .error ()
  | event => .ok ((event.field? "kind").bind Json.str?)

/-- The texts of the terminal states. -/
def terminalTexts : List String := ["completed", "failed", "canceled", "rejected"]

/-- `taskEvent.status.state`; reading it of no status throws. -/
def stateOf (event : Json) : Except Unit (Option String) :=
  match event.field? "status" with
  | none => .error ()
  | some .null => .error ()
  | some status => .ok ((status.field? "state").bind Json.str?)

/-- The loop over what `readRunEvents` yields. -/
def replay : List (Id × Json) → List (Replayed Id) × ReplayEnd
  | [] => ([], .tailing)
  | (eventId, event) :: rest =>
    match kindOf event with
    | .error _ => ([], .threw)
    | .ok kind =>
      if kind = some "status-update" then
        if jsTruthy ((event.field? "final").getD .null) then
          ([⟨"status-update", eventId, event⟩], .returned)
        else (⟨"status-update", eventId, event⟩ :: (replay rest).1, (replay rest).2)
      else if kind = some "artifact-update" then
        (⟨"artifact-update", eventId, event⟩ :: (replay rest).1, (replay rest).2)
      else if kind = some "task" then
        match stateOf event with
        | .error _ => ([⟨"task", eventId, event⟩], .threw)
        | .ok state =>
          if (state.any (· ∈ terminalTexts)) = true then
            ([⟨"task", eventId, event⟩], .returned)
          else (⟨"task", eventId, event⟩ :: (replay rest).1, (replay rest).2)
      -- unknown kinds are skipped
      else replay rest

theorem kindOf_toJson (event : RunStreamEvent) : kindOf event.toJson = .ok none := by
  cases event with
  | status | artifact => rfl
  | error reason detail =>
    cases detail with
    | none | some => rfl
  | done => rfl

variable {host : TailHost Id Json}

theorem wellFormed_logEntry {appended : Id × RunStreamEvent}
    (hparse : host.parse (stringify appended.2.toJson) = some appended.2.toJson) :
    wellFormed host (logEntry appended) = some (appended.1, appended.2.toJson) := by
  show (host.parse (stringify appended.2.toJson)).map _ = _
  rw [hparse]
  rfl

theorem replay_skips {yields : List (Id × Json)} (h : ∀ y ∈ yields, kindOf y.2 = .ok none) :
    replay yields = ([], .tailing) := by
  induction yields with
  | nil => rfl
  | cons y rest ih =>
    obtain ⟨eventId, event⟩ := y
    have hkind : kindOf event = .ok none := h _ (.head _)
    have hrest := ih (fun y hy => h y (.tail _ hy))
    simp [replay, hkind, hrest]

variable [LinearOrder Id]

/-- What a reader of the stream yields until it comes to rest. -/
def readRunEvents (host : TailHost Id Json) (fromId : Option String)
    (entries : List (StreamEntry Id)) : List (Id × Json) :=
  (xrange host (startCursor fromId) entries).filterMap (wellFormed host)

/-- **A tail at rest** has yielded exactly that: nothing of its last read is left, and it has
    fetched every entry behind its cursor. -/
theorem yielded_at_rest {s : Tail Id Json} {fromId : Option String}
    (h : Tailed host (startCursor fromId) s) (hrest : s.reader.phase.batch = [])
    (hlog : s.stream.log = s.stream.entries) (hids : s.stream.entries.Pairwise (·.id < ·.id))
    (hall : ∀ entry ∈ xrange host (startCursor fromId) s.stream.entries,
      entry ∈ s.reader.fetched) :
    s.reader.yielded = readRunEvents host fromId s.stream.entries := by
  have hfetched : s.reader.fetched = xrange host (startCursor fromId) s.stream.entries := by
    refine List.Perm.eq_of_pairwise (fun a b _ _ hab hba => absurd hab (lt_asymm hba)) h.ordered
      (hids.filter _) ?_
    refine (List.perm_ext_iff_of_nodup (h.ordered.imp fun hlt heq => ?_)
      ((hids.filter _).imp fun hlt heq => ?_)).mpr fun entry => ⟨fun hmem => ?_, hall entry⟩
    · exact lt_irrefl _ (heq ▸ hlt)
    · exact lt_irrefl _ (heq ▸ hlt)
    · obtain ⟨hlogged, hadmits⟩ := h.logged entry hmem
      exact List.mem_filter.mpr ⟨hlog ▸ hlogged, hadmits⟩
  have hyields := h.yields
  rw [hrest, List.filterMap_nil, List.append_nil, hfetched] at hyields
  exact hyields

/-- What a request is refused with. -/
inductive ResubscribeError where
  | unsupportedOperation (message : String)
  | taskNotFound (id : String)

/-- What a client sees: the stored task first, then the replay. -/
structure Resubscription (Id : Type) where
  task : Option StoredTask
  updates : List (Replayed Id)
  ended : ReplayEnd
  error : Option ResubscribeError := none

/-- `CinatraResubscribeHandler.resubscribe`. -/
def resubscribe (host : TailHost Id Json) (streaming : Bool) (load : String → Option StoredTask)
    (streams : String → List (StreamEntry Id)) (id : String) (lastEventId : Option String) :
    Resubscription Id :=
  if streaming then
    match load id with
    | none => ⟨none, [], .threw, some (.taskNotFound id)⟩
    | some task =>
      if task.state ∈ terminalA2aStates then ⟨some task, [], .returned, none⟩
      else
        let replayed := replay (readRunEvents host lastEventId (streams (streamKey id)))
        ⟨some task, replayed.1, replayed.2, none⟩
  else ⟨none, [], .threw,
    some (.unsupportedOperation "Streaming (and thus resubscription) is not supported.")⟩

/-- The update that an event of a run calls for. -/
def RunStreamEvent.update : RunStreamEvent → Option String
  | .status _ => some "status-update"
  | .artifact _ _ => some "artifact-update"
  | .error _ _ => none
  | .done => none

/-- The events of a run after a cursor. -/
def afterCursor (host : TailHost Id Json) (lastEventId : Option String)
    (events : List (Id × RunStreamEvent)) : List (Id × RunStreamEvent) :=
  events.filter (fun appended => (startCursor lastEventId).admits host appended.1)

/-- **The replay of a run**: an update for every status and artifact event after the cursor, in
    the order of the log and with its id, and an end after the event that closes the run. -/
structure ReplaysRun (host : TailHost Id Json) (events : List (Id × RunStreamEvent))
    (lastEventId : Option String) (out : Resubscription Id) : Prop where
  updates : out.updates.map (fun update => (update.eventId, update.kind)) =
    (afterCursor host lastEventId events).filterMap (fun appended =>
      appended.2.update.map (fun kind => (appended.1, kind)))
  closed : .done ∈ (afterCursor host lastEventId events).map Prod.snd → out.ended = .returned

/-- Whatever runs have published, under whatever key: nothing is replayed. -/
theorem replay_logs {events : List (Id × RunStreamEvent)} (hparse : ∀ appended ∈ events,
      host.parse (stringify appended.2.toJson) = some appended.2.toJson)
    (lastEventId : Option String) :
    replay (readRunEvents host lastEventId (events.map logEntry)) = ([], .tailing) := by
  refine replay_skips ?_
  rintro y hy
  obtain ⟨entry, hentry, hwell⟩ := List.mem_filterMap.mp hy
  obtain ⟨appended, happended, rfl⟩ := List.mem_map.mp (List.mem_filter.mp hentry).1
  rw [wellFormed_logEntry (hparse appended happended)] at hwell
  cases hwell
  exact kindOf_toJson _

theorem resubscribe_logs {load : String → Option StoredTask}
    {logs : RunLogs Id} {taskId : String} {task : StoredTask}
    (hparse : ∀ key, ∀ appended ∈ logs key,
      host.parse (stringify appended.2.toJson) = some appended.2.toJson)
    (hload : load taskId = some task) (hopen : task.state ∉ terminalA2aStates)
    (lastEventId : Option String) :
    resubscribe host true load (fun key => (logs key).map logEntry) taskId lastEventId =
      ⟨some task, [], .tailing, none⟩ := by
  have hreplay := replay_logs (hparse (streamKey taskId)) lastEventId
  simp [resubscribe, hload, hopen, hreplay]

/-- **Resubscribing replays a run exactly when nothing but errors is left to replay.** -/
theorem resubscribe_replays (host : TailHost Id Json) (load : String → Option StoredTask)
    (logs : RunLogs Id) (runId taskId : String) (lastEventId : Option String) (task : StoredTask)
    (hparse : ∀ key, ∀ appended ∈ logs key,
      host.parse (stringify appended.2.toJson) = some appended.2.toJson)
    (hload : load taskId = some task) (hopen : task.state ∉ terminalA2aStates) :
    ReplaysRun host (logs (streamKey runId)) lastEventId
        (resubscribe host true load (fun key => (logs key).map logEntry) taskId lastEventId) ↔
      ∀ appended ∈ afterCursor host lastEventId (logs (streamKey runId)),
        appended.2.update = none ∧ appended.2 ≠ .done := by
  rw [resubscribe_logs hparse hload hopen]
  constructor
  · rintro ⟨hupdates, hclosed⟩ appended hmem
    constructor
    · -- an update that is missing
      have hnone := List.filterMap_eq_nil_iff.mp hupdates.symm appended hmem
      exact Option.map_eq_none_iff.mp hnone
    · intro hdone
      have hret := hclosed (List.mem_map.mpr ⟨appended, hmem, hdone⟩)
      cases hret
  · intro hall
    constructor
    · refine (List.filterMap_eq_nil_iff.mpr ?_).symm
      intro appended hmem
      rw [(hall appended hmem).1]
      rfl
    · intro hdone
      obtain ⟨appended, hmem, hd⟩ := List.mem_map.mp hdone
      exact absurd hd (hall appended hmem).2

/-! ### Two runs -/

/-- Texts that are the payloads of some events. -/
def textsOf (events : List RunStreamEvent) : TailHost (ℕ ×ₗ ℕ) Json :=
  ⟨fun _ => none, fun text =>
    (events.find? (fun event => stringify event.toJson = text)).map RunStreamEvent.toJson⟩

/-- Nothing but an error was published for the run. -/
def failedLogs : RunLogs (ℕ ×ₗ ℕ) :=
  publishRunEvent (fun _ => []) "run" (toLex (5, 0)) (.error "timeout" none)

theorem resubscribe_replays_failed :
    ReplaysRun (textsOf [.error "timeout" none]) (failedLogs (streamKey "run")) none
      (resubscribe (textsOf [.error "timeout" none]) true (fun _ => some { state := .working })
        (fun key => (failedLogs key).map logEntry) "task" none) := by
  have hlog : failedLogs (streamKey "run") = [(toLex (5, 0), .error "timeout" none)] := by
    simp [failedLogs, publishRunEvent]
  refine (resubscribe_replays _ _ failedLogs "run" "task" none { state := .working } ?_ rfl
    (by decide)).mpr ?_
  · intro key appended hmem
    have happended : appended = (toLex (5, 0), .error "timeout" none) := by
      by_cases hkey : key = streamKey "run"
      · rw [hkey, hlog] at hmem
        exact List.mem_singleton.mp hmem
      · rw [failedLogs, publishRunEvent, Function.update_of_ne hkey] at hmem
        cases hmem
    rw [happended]
    simp [textsOf]
  · rw [hlog]
    intro appended hmem
    rw [List.mem_singleton.mp (List.mem_filter.mp hmem).1]
    exact ⟨rfl, by decide⟩

/-- The executor published that the run is working, and its poller that it is done. -/
def closedLogs : RunLogs (ℕ ×ₗ ℕ) :=
  publishRunEvent (publishRunEvent (fun _ => []) "run" (toLex (5, 0)) (.status "working")) "run"
    (toLex (6, 0)) .done

theorem closed_run_not_replayed :
    ¬ ReplaysRun (textsOf [.status "working", .done]) (closedLogs (streamKey "run")) none
      (resubscribe (textsOf [.status "working", .done]) true (fun _ => some { state := .working })
        (fun key => (closedLogs key).map logEntry) "task" none) := by
  have hlog : closedLogs (streamKey "run") =
      [(toLex (5, 0), .status "working"), (toLex (6, 0), .done)] := by
    simp [closedLogs, publishRunEvent]
  have hother : closedLogs (streamKey "task") = [] := by
    have hkey : streamKey "task" ≠ streamKey "run" := by decide
    simp [closedLogs, publishRunEvent, hkey]
  rintro ⟨hupdates, -⟩
  rw [hlog] at hupdates
  simp [resubscribe, hother, readRunEvents, xrange, replay, terminalA2aStates, afterCursor,
    startCursor, StreamCursor.admits, RunStreamEvent.update] at hupdates

end A2a
