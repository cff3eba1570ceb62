import Cinatra.A2a.EventTail
import Cinatra.Lib.Records

/-! # OpenInterrupt — the interrupt that a snapshot of a run shows

    The newest entries of the log are read backwards: an interrupt with a renderer is
    shown, unless the end of the run is met before it.  A resumption is not looked
    at, and what stands before the three hundred newest entries is not read. -/

namespace A2a

open JsonValue

variable {Id : Type} {host : TailHost Id Record}

/-- `XREVRANGE … COUNT`, where a malformed entry is passed over. -/
def readRecentRunEventsReverse (host : TailHost Id Record) (stream : List (StreamEntry Id))
    (count : Nat) : List (Id × Record) :=
  (stream.reverse.take count).filterMap (wellFormed host)

structure LatestAgUiInterrupt where
  xRenderer : String
  schema : Json
  values : Json
  reviewTaskId : String
  fieldName : Option String

def stringField (event : Record) (name : String) : Option String := (event.get? name).bind Json.str?

def objectField (event : Record) (name : String) : Json :=
  (container? (event.get? name)).getD (.obj [])

/-- The type of an event of the AG-UI channel. -/
def agUiType (event : Record) : Option String :=
  if stringField event "channel" = some "ag-ui" then stringField event "type" else none

def rendererOf (event : Record) : String := (stringField event "xRenderer").getD ""

def interruptOf (event : Record) : LatestAgUiInterrupt where
  xRenderer := rendererOf event
  schema := objectField event "schema"
  values := objectField event "values"
  reviewTaskId := (stringField event "reviewTaskId").getD ""
  fieldName := stringField event "fieldName"

/-- The loop over the events, newest first. -/
def latestInterrupt : List Record → Option LatestAgUiInterrupt
  | [] => none
  | event :: older =>
    if agUiType event = some "RUN_FINISHED" ∨ agUiType event = some "RUN_ERROR" then none
    else if agUiType event = some "INTERRUPT" ∧ rendererOf event ≠ "" then some (interruptOf event)
    else latestInterrupt older

def readLatestAgUiInterrupt (host : TailHost Id Record) (stream : List (StreamEntry Id)) :
    Option LatestAgUiInterrupt :=
  latestInterrupt ((readRecentRunEventsReverse host stream 300).map Prod.snd)

/-! ## The open interrupt -/

/-- An interrupt that carries a renderer. -/
def Renders (event : Record) : Prop := agUiType event = some "INTERRUPT" ∧ rendererOf event ≠ ""

/-- An event after which no interrupt is open. -/
def Disposes (event : Record) : Prop :=
  agUiType event = some "RESUME" ∨ agUiType event = some "RUN_FINISHED" ∨
    agUiType event = some "RUN_ERROR"

/-- The last rendered interrupt of a log, and nothing behind it disposes of it. -/
def OpenIn (log : List Record) (interrupt : LatestAgUiInterrupt) : Prop :=
  ∃ before event after, log = before ++ event :: after ∧ Renders event ∧
    interruptOf event = interrupt ∧ ∀ e ∈ after, ¬ Renders e ∧ ¬ Disposes e

/-- The events of the newest entries, in the order of the log. -/
def recent (host : TailHost Id Record) (stream : List (StreamEntry Id)) : List Record :=
  ((stream.drop (stream.length - 300)).filterMap (wellFormed host)).map Prod.snd

/-- No resumption behind the last rendered interrupt. -/
def Unresumed (log : List Record) : Prop :=
  ∀ before event after, log = before ++ event :: after → Renders event →
    (∀ e ∈ after, ¬ Renders e) → ∀ e ∈ after, agUiType e ≠ some "RESUME"

theorem read_eq_recent (stream : List (StreamEntry Id)) :
    (readRecentRunEventsReverse host stream 300).map Prod.snd = (recent host stream).reverse := by
  rw [readRecentRunEventsReverse, recent, List.take_reverse, List.filterMap_reverse, List.map_reverse]

theorem latestInterrupt_eq_some {events : List Record} {interrupt : LatestAgUiInterrupt} :
    latestInterrupt events = some interrupt ↔ ∃ newer event older,
      events = newer ++ event :: older ∧ Renders event ∧ interruptOf event = interrupt ∧
      ∀ e ∈ newer, ¬ Renders e ∧ agUiType e ≠ some "RUN_FINISHED" ∧
        agUiType e ≠ some "RUN_ERROR" := by
  constructor
  · intro h
    induction events with
    | nil => cases h
    | cons e events ih =>
      rw [latestInterrupt] at h
      split at h
      · cases h
      next hlive =>
      rw [not_or] at hlive
      split at h
      next hrenders => exact ⟨[], e, events, rfl, hrenders, Option.some.inj h, by simp⟩
      next hrenders =>
        obtain ⟨newer, event, older, rfl, hevent, heq, hall⟩ := ih h
        exact ⟨e :: newer, event, older, rfl, hevent, heq,
          List.forall_mem_cons.mpr ⟨⟨hrenders, hlive⟩, hall⟩⟩
  · rintro ⟨newer, event, older, rfl, hevent, rfl, hall⟩
    induction newer with
    | nil =>
      rw [List.nil_append, latestInterrupt, if_neg (by simp [hevent.1])]
      exact if_pos hevent
    | cons e newer ih =>
      obtain ⟨⟨hrenders, hlive⟩, hall⟩ := List.forall_mem_cons.mp hall
      rw [List.cons_append, latestInterrupt, if_neg (not_or.mpr hlive)]
      exact (if_neg hrenders).trans (ih hall)

/-- **Where no resumption is read behind it, the snapshot is the open interrupt** of the three
    hundred newest entries. -/
theorem readLatestAgUiInterrupt_open (stream : List (StreamEntry Id))
    (hresumed : Unresumed (recent host stream)) (interrupt : LatestAgUiInterrupt) :
    readLatestAgUiInterrupt host stream = some interrupt ↔
      OpenIn (recent host stream) interrupt := by
  rw [readLatestAgUiInterrupt, read_eq_recent, latestInterrupt_eq_some]
  constructor
  · rintro ⟨newer, event, older, heq, hevent, hsame, hall⟩
    have hlog : recent host stream = older.reverse ++ event :: newer.reverse := by
      rw [← List.reverse_reverse (recent host stream), heq]
      simp
    refine ⟨_, event, _, hlog, hevent, hsame, fun e he => ?_⟩
    have hquiet := hresumed _ event _ hlog hevent (fun e he => (hall e (List.mem_reverse.mp he)).1) e he
    obtain ⟨hrenders, hlive⟩ := hall e (List.mem_reverse.mp he)
    exact ⟨hrenders, not_or.mpr ⟨hquiet, not_or.mpr hlive⟩⟩
  · rintro ⟨before, event, after, heq, hevent, hsame, hall⟩
    refine ⟨after.reverse, event, before.reverse, by simp [heq], hevent, hsame, fun e he => ?_⟩
    obtain ⟨hrenders, hdisposes⟩ := hall e (List.mem_reverse.mp he)
    exact ⟨hrenders, not_or.mp (not_or.mp hdisposes).2⟩

def rendered : Record :=
  [("channel", .str "ag-ui"), ("type", .str "INTERRUPT"), ("xRenderer", .str "form")]

def renderedText : String :=
  "\x7b\"channel\":\"ag-ui\",\"type\":\"INTERRUPT\",\"xRenderer\":\"form\"\x7d"

def agUi (type : String) : Record := [("channel", .str "ag-ui"), ("type", .str type)]

/-- `JSON.parse` of the texts below. -/
def snapshotHost : TailHost Nat Record where
  readId := String.toNat?
  parse := fun data => List.lookup data [("\x7b\x7d", []), (renderedText, rendered),
    ("\x7b\"channel\":\"ag-ui\",\"type\":\"RESUME\"\x7d", agUi "RESUME"),
    ("\x7b\"channel\":\"ag-ui\",\"type\":\"INTERRUPT\"\x7d", agUi "INTERRUPT"),
    ("\x7b\"channel\":\"a2a\",\"type\":\"RUN_FINISHED\"\x7d",
      [("channel", .str "a2a"), ("type", .str "RUN_FINISHED")])]

def askedEntry : StreamEntry Nat := ⟨0, ["data", renderedText]⟩

/-- A resumption, the interrupt of the next gate, and behind it an interrupt without a
    renderer, a malformed entry and the end of a run on another channel. -/
def askedLog : List (StreamEntry Nat) :=
  [⟨0, ["data", "\x7b\"channel\":\"ag-ui\",\"type\":\"RESUME\"\x7d"]⟩, ⟨1, ["data", renderedText]⟩,
    ⟨2, ["data", "\x7b\"channel\":\"ag-ui\",\"type\":\"INTERRUPT\"\x7d"]⟩, ⟨3, ["data", "[DONE]"]⟩,
    ⟨4, ["data", "\x7b\"channel\":\"a2a\",\"type\":\"RUN_FINISHED\"\x7d"]⟩]

theorem asked_open : OpenIn (recent snapshotHost askedLog) (interruptOf rendered) ∧
    readLatestAgUiInterrupt snapshotHost askedLog = some (interruptOf rendered) := by
  have hread : readLatestAgUiInterrupt snapshotHost askedLog = some (interruptOf rendered) := rfl
  refine ⟨(readLatestAgUiInterrupt_open askedLog ?_ _).mp hread, hread⟩
  -- the only resumption stands first, so no event has it behind itself
  intro before event after heq _ _ e he
  have htail : e ∈ (recent snapshotHost askedLog).tail := by
    rw [heq]
    cases before <;> simp [he]
  exact (by decide +kernel : ∀ e ∈ (recent snapshotHost askedLog).tail, agUiType e ≠ some "RESUME") e htail

/-- Three hundred entries push an open interrupt out of the window. -/
theorem asked_missed :
    let log := askedEntry :: (List.range 300).map (fun i => ⟨i + 1, ["data", "\x7b\x7d"]⟩)
    OpenIn ((log.filterMap (wellFormed snapshotHost)).map Prod.snd) (interruptOf rendered) ∧
      readLatestAgUiInterrupt snapshotHost log = none := by
  refine ⟨⟨[], rendered, List.replicate 300 [], by decide +kernel, ⟨rfl, by decide⟩, rfl, ?_⟩,
    by decide +kernel⟩
  intro e he
  rw [List.eq_of_mem_replicate he, Renders, Disposes]
  decide

end A2a
