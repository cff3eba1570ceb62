import Cinatra.Lib.Machine
import Mathlib.Data.List.Basic
import Mathlib.Data.Prod.Lex

/-! # EventTail — the live tail of a run's event log

    Writers append an entry to the stream of a run and publish its id; a reader
    subscribes, reads the stream from its cursor, yields, and waits to be woken.
    A message wakes it only while it waits: the slot it is woken through is empty
    at all other times.  The state is the stream, the messages under way and the
    place of the reader in its loop; `log`, `fetched` and `heard` are kept for
    what is said about a run, and nothing reads them. -/

namespace A2a

open Machine

variable {Id E : Type} [LinearOrder Id]

/-- An entry: its id, and its fields in turn with their values. -/
structure StreamEntry (Id : Type) where
  id : Id
  fields : List String
deriving DecidableEq

/-- What Redis and the language do with texts. -/
structure TailHost (Id E : Type) where
  /-- the id a text stands for, in the bound of a range -/
  readId : String → Option Id
  /-- `JSON.parse` -/
  parse : String → Option E

/-- The value after the first field called `data`. -/
def dataField : List String → Option String
  | key :: value :: rest => if key = "data" then some value else dataField rest
  | _ => none

/-- What is yielded of an entry; a malformed one is passed over. -/
def wellFormed (host : TailHost Id E) (entry : StreamEntry Id) : Option (Id × E) :=
  (dataField entry.fields).bind (fun data => (host.parse data).map (fun event => (entry.id, event)))

/-- `STREAM_MAXLEN`: where the stream is longer, the oldest entries may be evicted. -/
def streamMaxlen : Nat := 1000

structure RunStream (Id : Type) where
  entries : List (StreamEntry Id) := []
  /-- all that was ever appended -/
  log : List (StreamEntry Id) := []
  /-- appended, and not published yet -/
  unpublished : List Id := []
  /-- published, and on the way to the subscriber -/
  inFlight : List Id := []

/-! ## The reader -/

/-- The lower bound of the next range read, which excludes it. -/
inductive StreamCursor (Id : Type) where
  | beginning
  | given (fromId : String)
  | after (id : Id)

/-- `opts.fromId && opts.fromId !== "0" ? opts.fromId : null`. -/
def startCursor : Option String → StreamCursor Id
  | none => .beginning
  | some fromId => if fromId = "" ∨ fromId = "0" then .beginning else .given fromId

/-- Redis takes the bound. -/
def StreamCursor.valid (host : TailHost Id E) : StreamCursor Id → Bool
  | .given fromId => (host.readId fromId).isSome
  | _ => true

def StreamCursor.admits (host : TailHost Id E) : StreamCursor Id → Id → Bool
  | .beginning, _ => true
  | .given fromId, id => (host.readId fromId).any (· < id)
  | .after bound, id => bound < id

/-- `XRANGE (cursor +`. -/
def xrange (host : TailHost Id E) (cursor : StreamCursor Id) (entries : List (StreamEntry Id)) :
    List (StreamEntry Id) :=
  entries.filter (fun entry => cursor.admits host entry.id)

inductive TailEnd where
  | closed | returned | threw | inactive
deriving DecidableEq

/-- Where the reader is; `batch` is what it has not got to of its last read. -/
inductive TailPhase (Id : Type) where
  | connecting
  | looping
  | reading
  | received (batch : List (StreamEntry Id))
  | yielding (entry : StreamEntry Id) (batch : List (StreamEntry Id))
  | waiting
  | woken
  | ended (reason : TailEnd) (batch : List (StreamEntry Id))

structure TailReader (Id E : Type) where
  phase : TailPhase Id := .connecting
  cursor : StreamCursor Id
  closed : Bool := false
  yielded : List (Id × E) := []
  /-- all that range reads have returned -/
  fetched : List (StreamEntry Id) := []
  /-- the ids that messages have brought to the subscribed reader -/
  heard : List Id := []

/-- Redis has the subscription of the reader. -/
def TailPhase.subscribed : TailPhase Id → Bool
  | .connecting => false
  | .ended _ _ => false
  | _ => true

/-- The slot is filled while the reader waits, and whoever wakes it empties the slot. -/
def TailPhase.wake : TailPhase Id → TailPhase Id
  | .waiting => .woken
  | phase => phase

/-- The next step of the reader: up to its next `await` or `yield`. -/
def TailReader.advance (host : TailHost Id E) (entries : List (StreamEntry Id))
    (r : TailReader Id E) : TailReader Id E :=
  match r.phase with
  | .connecting => { r with phase := .looping }
  | .looping => { r with phase := if r.closed then .ended .closed [] else .reading }
  | .reading =>
    if r.cursor.valid host then
      { r with
        phase := .received (xrange host r.cursor entries)
        fetched := r.fetched ++ xrange host r.cursor entries }
    else { r with phase := .ended .threw [] }
  | .received [] => { r with phase := if r.closed then .ended .closed [] else .waiting }
  | .received (entry :: batch) =>
    if r.closed then { r with phase := .ended .closed (entry :: batch) }
    else match wellFormed host entry with
      | none => { r with cursor := .after entry.id, phase := .received batch }
      | some event =>
        { r with yielded := r.yielded ++ [event], phase := .yielding entry batch }
  | .woken => { r with phase := if r.closed then .ended .closed [] else .looping }
  | .yielding _ _ => r
  | .waiting => r
  | .ended _ _ => r

/-- The consumer asks for the next event. -/
def TailReader.next (r : TailReader Id E) : TailReader Id E :=
  match r.phase with
  | .yielding entry batch => { r with cursor := .after entry.id, phase := .received batch }
  | _ => r

/-- The consumer returns. -/
def TailReader.stop (r : TailReader Id E) : TailReader Id E :=
  match r.phase with
  | .yielding _ batch => { r with phase := .ended .returned batch }
  | _ => r

/-- The timer of a wait fires. -/
def TailReader.timeout (r : TailReader Id E) : TailReader Id E :=
  match r.phase with
  | .waiting => { r with phase := .ended .inactive [] }
  | _ => r

/-- Redis fails the subscription or the range read. -/
def TailReader.reject (r : TailReader Id E) : TailReader Id E :=
  match r.phase with
  | .connecting => { r with phase := .ended .threw [] }
  | .reading => { r with phase := .ended .threw [] }
  | _ => r

/-- A message for the channel of the run. -/
def TailReader.hear (r : TailReader Id E) (id : Id) : TailReader Id E :=
  if r.phase.subscribed then { r with phase := r.phase.wake, heard := id :: r.heard } else r

/-! ## Runs -/

structure Tail (Id E : Type) where
  stream : RunStream Id
  reader : TailReader Id E

inductive TailEvent (Id : Type) where
  /-- `XADD`, and how many of the oldest entries it evicts -/
  | append (entry : StreamEntry Id) (evicted : Nat)
  /-- the lifetime of the stream is over -/
  | expire
  /-- `PUBLISH` -/
  | publish (id : Id)
  /-- a `PUBLISH` that fails; its error is swallowed -/
  | unpublish (id : Id)
  | deliver
  | advance
  | next
  | stop
  | timeout
  | reject
  | abort

/-- An id is above all that were given before. -/
def RunStream.fresh (s : RunStream Id) (id : Id) : Bool := s.log.all (fun entry => entry.id < id)

def RunStream.append (s : RunStream Id) (entry : StreamEntry Id) (evicted : Nat) : RunStream Id :=
  if s.fresh entry.id ∧ (evicted = 0 ∨ streamMaxlen + evicted ≤ s.entries.length + 1) then
    { s with
      entries := (s.entries ++ [entry]).drop evicted
      log := s.log ++ [entry]
      unpublished := entry.id :: s.unpublished }
  else s

def RunStream.publish (s : RunStream Id) (id : Id) (subscribed : Bool) : RunStream Id :=
  if id ∈ s.unpublished then
    { s with
      unpublished := s.unpublished.erase id
      inFlight := if subscribed then s.inFlight ++ [id] else s.inFlight }
  else s

def tailStep (host : TailHost Id E) (s : Tail Id E) : TailEvent Id → Tail Id E
  | .append entry evicted => { s with stream := s.stream.append entry evicted }
  | .expire => { s with stream := { s.stream with entries := [] } }
  | .publish id => { s with stream := s.stream.publish id s.reader.phase.subscribed }
  | .unpublish id =>
    { s with stream := { s.stream with unpublished := s.stream.unpublished.erase id } }
  | .deliver =>
    match s.stream.inFlight with
    | [] => s
    | id :: rest => ⟨{ s.stream with inFlight := rest }, s.reader.hear id⟩
  | .advance => { s with reader := s.reader.advance host s.stream.entries }
  | .next => { s with reader := s.reader.next }
  | .stop => { s with reader := s.reader.stop }
  | .timeout => { s with reader := s.reader.timeout }
  | .reject => { s with reader := s.reader.reject }
  | .abort => { s with reader := { s.reader with closed := true, phase := s.reader.phase.wake } }

/-- `readRunEvents` has been called, and nothing has been appended yet. -/
def opened (fromId : Option String) : Tail Id E := ⟨{}, { cursor := startCursor fromId }⟩

/-- The entries of the last read that have not been yielded or passed over. -/
def TailPhase.batch : TailPhase Id → List (StreamEntry Id)
  | .received batch => batch
  | .yielding _ batch => batch
  | .ended _ batch => batch
  | _ => []

/-- **The tail loses nothing**: what is fetched is what the stream holds after the start
    cursor, in order, without repeats and without gaps; what is yielded is the well-formed of
    it, up to the rest of the last read; and when the reader ends for inactivity, it has
    yielded all, and fetched every entry whose message has reached it. -/
structure Tailed (host : TailHost Id E) (start : StreamCursor Id) (s : Tail Id E) : Prop where
  logged : ∀ entry ∈ s.reader.fetched, entry ∈ s.stream.log ∧ start.admits host entry.id = true
  ordered : s.reader.fetched.Pairwise (·.id < ·.id)
  gapless : ∀ entry ∈ s.stream.entries, start.admits host entry.id = true →
    entry ∈ s.reader.fetched ∨ ∀ fetched ∈ s.reader.fetched, fetched.id < entry.id
  yields : s.reader.yielded ++ s.reader.phase.batch.filterMap (wellFormed host) =
    s.reader.fetched.filterMap (wellFormed host)
  awake : ∀ batch, s.reader.phase = .ended .inactive batch → batch = [] ∧
    ∀ entry ∈ s.stream.entries, start.admits host entry.id = true →
      entry.id ∈ s.reader.heard → entry ∈ s.reader.fetched

/-- The last range read has been executed, and no other is to come before the wait. -/
def TailPhase.pastRead : TailPhase Id → Bool
  | .received _ => true
  | .yielding _ _ => true
  | _ => false

/-- No message reaches the reader past its range read for an entry that the read has missed. -/
def Heeded (host : TailHost Id E) (start : StreamCursor Id) (s : Tail Id E) : TailEvent Id → Prop
  | .deliver => s.reader.phase.pastRead = true → ∀ entry ∈ s.stream.entries,
      s.stream.inFlight.head? = some entry.id → start.admits host entry.id = true →
        entry ∈ s.reader.fetched
  | _ => True

/-! ## The stream grows in order -/

/-- The log is in order, the stream is an end of it, and messages are for entries of it. -/
structure RunStream.Kept (s : RunStream Id) (heard : List Id) : Prop where
  ordered : s.log.Pairwise (·.id < ·.id)
  recent : s.entries <:+ s.log
  noted : ∀ id, id ∈ s.unpublished ∨ id ∈ s.inFlight ∨ id ∈ heard → ∃ entry ∈ s.log, entry.id = id

variable {s : RunStream Id}

theorem RunStream.fresh_iff {id : Id} : s.fresh id = true ↔ ∀ entry ∈ s.log, entry.id < id := by
  simp [RunStream.fresh]

theorem RunStream.Kept.append {heard : List Id} (h : s.Kept heard)
    (entry : StreamEntry Id) (evicted : Nat) : (s.append entry evicted).Kept heard := by
  rw [RunStream.append]
  split
  · rename_i hguard
    have hfresh := RunStream.fresh_iff.mp hguard.1
    constructor
    · refine List.pairwise_append.mpr ⟨h.ordered, List.pairwise_singleton _ _, ?_⟩
      intro a ha b hb
      rw [List.mem_singleton.mp hb]
      exact hfresh a ha
    · obtain ⟨old, hold⟩ := h.recent
      refine (List.drop_suffix _ _).trans ⟨old, ?_⟩
      rw [← List.append_assoc, hold]
    · intro id hid
      by_cases hnew : id = entry.id
      · exact ⟨entry, by simp, hnew.symm⟩
      · have hold : id ∈ s.unpublished ∨ id ∈ s.inFlight ∨ id ∈ heard := by simpa [hnew] using hid
        obtain ⟨noted, hnoted, hid⟩ := h.noted id hold
        exact ⟨noted, by simp [hnoted], hid⟩
  · exact h

theorem RunStream.Kept.publish {heard : List Id} (h : s.Kept heard)
    (id : Id) (subscribed : Bool) : (s.publish id subscribed).Kept heard := by
  rw [RunStream.publish]
  split
  · rename_i hid
    refine ⟨h.ordered, h.recent, ?_⟩
    rintro id' (hun | hfly | hheard)
    · exact h.noted id' (.inl (List.mem_of_mem_erase hun))
    · -- published to the subscriber, or to nobody
      cases subscribed with
      | false => exact h.noted id' (.inr (.inl hfly))
      | true =>
        rcases List.mem_append.mp hfly with hfly | hnew
        · exact h.noted id' (.inr (.inl hfly))
        · rw [List.mem_singleton.mp hnew]
          exact h.noted id (.inl hid)
    · exact h.noted id' (.inr (.inr hheard))
  · exact h

variable {evicted : Nat}

theorem mem_append_entries {entry e : StreamEntry Id} (he : e ∈ (s.append entry evicted).entries) :
    e ∈ s.entries ∨ e = entry ∧ ∀ old ∈ s.log, old.id < e.id := by
  rw [RunStream.append] at he
  split at he
  · rename_i hguard
    rcases List.mem_append.mp (List.mem_of_mem_drop he) with hold | hnew
    · exact .inl hold
    · cases List.mem_singleton.mp hnew
      exact .inr ⟨rfl, RunStream.fresh_iff.mp hguard.1⟩
  · exact .inl he

variable {entry : StreamEntry Id}

theorem log_append : s.log ⊆ (s.append entry evicted).log := by
  rw [RunStream.append]
  split
  · exact List.subset_append_left _ _
  · exact List.Subset.refl _

@[simp] theorem publish_log (s : RunStream Id) (id : Id) (subscribed : Bool) :
    (s.publish id subscribed).log = s.log := by
  rw [RunStream.publish]
  split <;> rfl

@[simp] theorem publish_entries (s : RunStream Id) (id : Id) (subscribed : Bool) :
    (s.publish id subscribed).entries = s.entries := by
  rw [RunStream.publish]
  split <;> rfl

/-! ## The reader reads in order -/

/-- What the reader is about to read again from, its cursor excluded. -/
def TailPhase.todo : TailPhase Id → Option (List (StreamEntry Id))
  | .received batch => some batch
  | .yielding entry batch => some (entry :: batch)
  | .ended _ _ => none
  | _ => some []

/-- What the reader has fetched, yielded and left, against the stream. -/
structure TailReader.Sound (r : TailReader Id E) (host : TailHost Id E) (start : StreamCursor Id)
    (s : RunStream Id) : Prop where
  logged : ∀ entry ∈ r.fetched, entry ∈ s.log ∧ start.admits host entry.id = true
  ordered : r.fetched.Pairwise (·.id < ·.id)
  gapless : ∀ entry ∈ s.entries, start.admits host entry.id = true →
    entry ∈ r.fetched ∨ ∀ fetched ∈ r.fetched, fetched.id < entry.id
  yields : r.yielded ++ r.phase.batch.filterMap (wellFormed host) =
    r.fetched.filterMap (wellFormed host)
  cursor : ∀ todo, r.phase.todo = some todo → ∃ seen, r.fetched = seen ++ todo ∧
    ∀ id, r.cursor.admits host id = true ↔
      start.admits host id = true ∧ ∀ entry ∈ seen, entry.id < id
  idle : ∀ batch, r.phase = .ended .inactive batch → batch = []

variable {start : StreamCursor Id} {host : TailHost Id E}

theorem TailReader.Sound.rephase {r r' : TailReader Id E} (h : r.Sound host start s)
    (hfetched : r'.fetched = r.fetched) (hyielded : r'.yielded = r.yielded)
    (hcursor : r'.cursor = r.cursor) (hbatch : r'.phase.batch = r.phase.batch)
    (htodo : r'.phase.todo = none ∨ r'.phase.todo = r.phase.todo)
    (hidle : ∀ batch, r'.phase = .ended .inactive batch → batch = []) : r'.Sound host start s := by
  constructor
  · rw [hfetched]
    exact h.logged
  · rw [hfetched]
    exact h.ordered
  · rw [hfetched]
    exact h.gapless
  · rw [hfetched, hyielded, hbatch]
    exact h.yields
  · intro todo ht
    rcases htodo with hnone | hsame
    · rw [hnone] at ht
      cases ht
    · rw [hfetched, hcursor]
      exact h.cursor todo (hsame.symm.trans ht)
  · exact hidle

variable {r : TailReader Id E}

theorem TailReader.Sound.grow {s s' : RunStream Id} (h : r.Sound host start s)
    (hlog : s.log ⊆ s'.log)
    (hentries : ∀ entry ∈ s'.entries, entry ∈ s.entries ∨ ∀ old ∈ s.log, old.id < entry.id) :
    r.Sound host start s' := by
  refine ⟨fun entry he => ⟨hlog (h.logged entry he).1, (h.logged entry he).2⟩, h.ordered, ?_,
    h.yields, h.cursor, h.idle⟩
  intro entry he hstart
  rcases hentries entry he with hold | hnew
  · exact h.gapless entry hold hstart
  · exact .inr (fun fetched hf => hnew fetched (h.logged fetched hf).1)

theorem admits_trans {cursor : StreamCursor Id} {i j : Id}
    (h : cursor.admits host i = true) (hij : i < j) : cursor.admits host j = true := by
  cases cursor with
  | beginning => rfl
  | given fromId =>
    simp only [StreamCursor.admits, Option.any_eq_true, decide_eq_true_eq] at h ⊢
    obtain ⟨bound, hbound, hlt⟩ := h
    exact ⟨bound, hbound, lt_trans hlt hij⟩
  | after bound =>
    simp only [StreamCursor.admits, decide_eq_true_eq] at h ⊢
    exact lt_trans h hij

theorem cursor_after {seen todo : List (StreamEntry Id)}
    (hstart : start.admits host entry.id = true)
    (hordered : (seen ++ entry :: todo).Pairwise (·.id < ·.id)) (id : Id) :
    (StreamCursor.after entry.id).admits host id = true ↔
      start.admits host id = true ∧ ∀ e ∈ seen ++ [entry], e.id < id := by
  simp only [StreamCursor.admits, decide_eq_true_eq]
  constructor
  · intro hlt
    refine ⟨admits_trans hstart hlt, ?_⟩
    intro e he
    rcases List.mem_append.mp he with hseen | hlast
    · have hbelow := (List.pairwise_append.mp hordered).2.2 e hseen entry (.head _)
      exact lt_trans hbelow hlt
    · rw [List.mem_singleton.mp hlast]
      exact hlt
  · rintro ⟨_, hall⟩
    exact hall entry (by simp)

theorem mem_xrange (h : r.Sound host start s) (htodo : r.phase.todo = some []) : entry ∈ xrange
    host r.cursor s.entries ↔ entry ∈ s.entries ∧
      start.admits host entry.id = true ∧ ∀ fetched ∈ r.fetched, fetched.id < entry.id := by
  obtain ⟨seen, hseen, hcursor⟩ := h.cursor [] htodo
  rw [List.append_nil] at hseen
  rw [xrange, List.mem_filter, hcursor entry.id, hseen]

theorem fetched_range (h : r.Sound host start s) (htodo : r.phase.todo = some [])
    (he : entry ∈ s.entries) (hstart : start.admits host entry.id = true) :
    entry ∈ r.fetched ++ xrange host r.cursor s.entries := by
  rcases h.gapless entry he hstart with hold | hnew
  · exact List.mem_append_left _ hold
  · exact List.mem_append_right _ ((mem_xrange h htodo).mpr ⟨he, hstart, hnew⟩)

theorem sound_range {heard : List Id} (h : r.Sound host start s) (hs : s.Kept heard)
    (htodo : r.phase.todo = some []) (hbatch : r.phase.batch = []) :
    TailReader.Sound { r with
      phase := .received (xrange host r.cursor s.entries)
      fetched := r.fetched ++ xrange host r.cursor s.entries } host start s := by
  constructor
  · intro entry he
    rcases List.mem_append.mp he with hold | hnew
    · exact h.logged entry hold
    · obtain ⟨hin, hstart, _⟩ := (mem_xrange h htodo).mp hnew
      exact ⟨hs.recent.subset hin, hstart⟩
  · refine List.pairwise_append.mpr ⟨h.ordered, ?_, ?_⟩
    · exact (hs.ordered.sublist hs.recent.sublist).filter _
    · intro a ha b hb
      exact ((mem_xrange h htodo).mp hb).2.2 a ha
  · exact fun entry he hstart => .inl (fetched_range h htodo he hstart)
  · have hyields := h.yields
    rw [hbatch, List.filterMap_nil, List.append_nil] at hyields
    show r.yielded ++ _ = _
    rw [List.filterMap_append, hyields]
    rfl
  · rintro todo ⟨⟩
    obtain ⟨seen, hseen, hcursor⟩ := h.cursor [] htodo
    rw [List.append_nil] at hseen
    refine ⟨r.fetched, rfl, ?_⟩
    rw [hseen]
    exact hcursor
  · rintro batch ⟨⟩

/-- The reader is done with an entry: its cursor goes past it. -/
theorem TailReader.Sound.pass {batch : List (StreamEntry Id)} (h : r.Sound host start s)
    (htodo : r.phase.todo = some (entry :: batch))
    (hbatch : r.phase.batch.filterMap (wellFormed host) = batch.filterMap (wellFormed host)) :
    TailReader.Sound { r with cursor := .after entry.id, phase := .received batch } host start
      s := by
  obtain ⟨seen, hseen, _⟩ := h.cursor _ htodo
  have hordered := h.ordered
  rw [hseen] at hordered
  have hstart := (h.logged entry (by rw [hseen]; simp)).2
  refine ⟨h.logged, h.ordered, h.gapless, ?_, ?_, ?_⟩
  · show r.yielded ++ batch.filterMap (wellFormed host) = _
    rw [← hbatch]
    exact h.yields
  · rintro todo ⟨⟩
    refine ⟨seen ++ [entry], ?_, cursor_after hstart hordered⟩
    show r.fetched = _
    rw [hseen]
    simp
  · rintro batch' ⟨⟩

/-- A phase with nothing left, reached unless the reader has been closed. -/
theorem TailReader.Sound.goOn {phase : TailPhase Id} (h : r.Sound host start s)
    (hbatch : r.phase.batch = []) (htodo : r.phase.todo = some []) (hbatch' : phase.batch = [])
    (htodo' : phase.todo = some []) :
    TailReader.Sound { r with phase := if r.closed then .ended .closed [] else phase } host start
      s := by
  cases hclosed : r.closed with
  | true =>
    refine h.rephase rfl rfl rfl hbatch.symm (.inl rfl) ?_
    rintro batch ⟨⟩
  | false =>
    refine h.rephase rfl rfl rfl (hbatch'.trans hbatch.symm) (.inr (htodo'.trans htodo.symm)) ?_
    intro batch hend
    rw [show phase = _ from hend] at htodo'
    cases htodo'

/-- **A step of the reader keeps it sound.** -/
theorem sound_advance {heard : List Id} (h : r.Sound host start s) (hs : s.Kept heard) :
    (r.advance host s.entries).Sound host start s := by
  unfold TailReader.advance
  split
  · -- connecting
    rename_i hphase
    refine h.rephase rfl rfl rfl (by simp [hphase, TailPhase.batch])
      (.inr (by simp [hphase, TailPhase.todo])) ?_
    rintro batch ⟨⟩
  · -- looping
    rename_i hphase
    exact h.goOn (by rw [hphase]; rfl) (by rw [hphase]; rfl) rfl rfl
  · -- reading
    rename_i hphase
    split
    · exact sound_range h hs (by rw [hphase]; rfl) (by rw [hphase]; rfl)
    · refine h.rephase rfl rfl rfl (by simp [hphase, TailPhase.batch]) (.inl rfl) ?_
      rintro batch ⟨⟩
  · -- received, and nothing left
    rename_i hphase
    exact h.goOn (by rw [hphase]; rfl) (by rw [hphase]; rfl) rfl rfl
  · -- received, and an entry left
    rename_i entry batch hphase
    split
    · refine h.rephase rfl rfl rfl (by simp [hphase, TailPhase.batch]) (.inl rfl) ?_
      rintro batch ⟨⟩
    split
    · rename_i hbad
      exact h.pass (by rw [hphase]; rfl) (by simp [hphase, TailPhase.batch, hbad])
    rename_i event hgood
    have hyields := h.yields
    have hcursor := h.cursor (entry :: batch) (by rw [hphase]; rfl)
    rw [hphase] at hyields
    refine ⟨h.logged, h.ordered, h.gapless, ?_, ?_, ?_⟩
    · rw [← hyields]
      simp [TailPhase.batch, hgood]
    · rintro todo ⟨⟩
      exact hcursor
    · rintro batch' ⟨⟩
  · -- woken
    rename_i hphase
    exact h.goOn (by rw [hphase]; rfl) (by rw [hphase]; rfl) rfl rfl
  · exact h
  · exact h
  · exact h

theorem sound_next (h : r.Sound host start s) : r.next.Sound host start s := by
  unfold TailReader.next
  split
  · rename_i entry batch hphase
    exact h.pass (by rw [hphase]; rfl) (by rw [hphase]; rfl)
  · exact h

theorem TailReader.Sound.stop {r r' : TailReader Id E} {reason : TailEnd} (h : r.Sound host start s)
    (hr' : r' = { r with phase := .ended reason r.phase.batch })
    (hidle : reason = .inactive → r.phase.batch = []) : r'.Sound host start s := by
  subst hr'
  refine h.rephase rfl rfl rfl rfl (.inl rfl) ?_
  rintro batch ⟨⟩
  exact hidle rfl

theorem sound_stop (h : r.Sound host start s) : r.stop.Sound host start s := by
  unfold TailReader.stop
  split
  · rename_i hphase
    exact h.stop (by rw [hphase]; rfl) (by rintro ⟨⟩)
  · exact h

theorem sound_timeout (h : r.Sound host start s) : r.timeout.Sound host start s := by
  unfold TailReader.timeout
  split
  · rename_i hphase
    exact h.stop (by rw [hphase]; rfl) (fun _ => by rw [hphase]; rfl)
  · exact h

theorem sound_reject (h : r.Sound host start s) : r.reject.Sound host start s := by
  unfold TailReader.reject
  split
  · rename_i hphase
    exact h.stop (by rw [hphase]; rfl) (by rintro ⟨⟩)
  · rename_i hphase
    exact h.stop (by rw [hphase]; rfl) (by rintro ⟨⟩)
  · exact h

theorem sound_wake {r r' : TailReader Id E} (h : r.Sound host start s)
    (hphase : r'.phase = r.phase.wake)
    (hfetched : r'.fetched = r.fetched) (hyielded : r'.yielded = r.yielded)
    (hcursor : r'.cursor = r.cursor) : r'.Sound host start s := by
  refine h.rephase hfetched hyielded hcursor ?_ (.inr ?_) ?_
  · rw [hphase]
    cases r.phase <;> rfl
  · rw [hphase]
    cases r.phase <;> rfl
  · intro batch hend
    rw [hphase] at hend
    refine h.idle batch ?_
    cases hp : r.phase with
    | waiting =>
      rw [hp] at hend
      cases hend
    | _ =>
      rw [hp] at hend
      exact hend

theorem sound_hear (h : r.Sound host start s) (id : Id) : (r.hear id).Sound host start s := by
  unfold TailReader.hear
  split
  · exact sound_wake h rfl rfl rfl rfl
  · exact h

/-! ## Every run -/

structure Tail.Sound (s : Tail Id E) (host : TailHost Id E) (start : StreamCursor Id) : Prop where
  stream : s.stream.Kept s.reader.heard
  reader : s.reader.Sound host start s.stream

theorem sound_opened (host : TailHost Id E) (fromId : Option String) :
    (opened fromId : Tail Id E).Sound host (startCursor fromId) := by
  refine ⟨⟨List.Pairwise.nil, List.suffix_refl _, ?_⟩, ⟨?_, List.Pairwise.nil, ?_, rfl, ?_, ?_⟩⟩
  · rintro id (hnil | hnil | hnil) <;> cases hnil
  · rintro entry ⟨⟩
  · rintro entry ⟨⟩
  · rintro todo ⟨⟩
    refine ⟨[], rfl, fun id => ?_⟩
    simp [opened]
  · rintro batch ⟨⟩

theorem advance_heard (host : TailHost Id E) (entries : List (StreamEntry Id))
    (r : TailReader Id E) : (r.advance host entries).heard = r.heard := by
  unfold TailReader.advance
  repeat' split
  all_goals rfl

theorem Kept.deliver {id : Id} {rest : List Id}
    (h : s.Kept r.heard) (hfly : s.inFlight = id :: rest) :
    RunStream.Kept { s with inFlight := rest } (r.hear id).heard := by
  refine ⟨h.ordered, h.recent, ?_⟩
  rintro id' (hun | hrest | hheard)
  · exact h.noted id' (.inl hun)
  · exact h.noted id' (.inr (.inl (by rw [hfly]; exact .tail _ hrest)))
  · unfold TailReader.hear at hheard
    split at hheard
    · rcases List.mem_cons.mp hheard with rfl | hold
      · exact h.noted id' (.inr (.inl (by rw [hfly]; exact .head _)))
      · exact h.noted id' (.inr (.inr hold))
    · exact h.noted id' (.inr (.inr hheard))

/-- **A step keeps stream and reader sound**, whatever it is. -/
theorem sound_step {s : Tail Id E}
    (e : TailEvent Id) (h : s.Sound host start) : (tailStep host s e).Sound host start := by
  obtain ⟨hstream, hreader⟩ := h
  cases e with
  | append entry evicted =>
    refine ⟨hstream.append entry evicted, hreader.grow log_append ?_⟩
    intro e he
    rcases mem_append_entries he with hold | ⟨_, hnew⟩
    · exact .inl hold
    · exact .inr hnew
  | expire =>
    refine ⟨⟨hstream.ordered, List.nil_suffix, hstream.noted⟩, hreader.grow (List.Subset.refl _) ?_⟩
    rintro e ⟨⟩
  | publish id =>
    refine ⟨hstream.publish id _, hreader.grow ?_ ?_⟩
    · show s.stream.log ⊆ (s.stream.publish id _).log
      simp
    · intro e he
      have hold : e ∈ (s.stream.publish id s.reader.phase.subscribed).entries := he
      simp only [publish_entries] at hold
      exact .inl hold
  | unpublish id =>
    refine ⟨⟨hstream.ordered, hstream.recent, ?_⟩,
      hreader.grow (List.Subset.refl _) (fun e he => .inl he)⟩
    rintro id' (hun | hrest)
    · exact hstream.noted id' (.inl (List.mem_of_mem_erase hun))
    · exact hstream.noted id' (.inr hrest)
  | deliver =>
    simp only [tailStep]
    split
    · exact ⟨hstream, hreader⟩
    · rename_i id rest hfly
      refine ⟨Kept.deliver hstream hfly, ?_⟩
      exact (sound_hear hreader id).grow (List.Subset.refl _) (fun e he => .inl he)
  | advance =>
    refine ⟨?_, sound_advance hreader hstream⟩
    show s.stream.Kept (s.reader.advance host s.stream.entries).heard
    rw [advance_heard]
    exact hstream
  | next =>
    refine ⟨?_, sound_next hreader⟩
    show s.stream.Kept s.reader.next.heard
    unfold TailReader.next
    split <;> exact hstream
  | stop =>
    refine ⟨?_, sound_stop hreader⟩
    show s.stream.Kept s.reader.stop.heard
    unfold TailReader.stop
    split <;> exact hstream
  | timeout =>
    refine ⟨?_, sound_timeout hreader⟩
    show s.stream.Kept s.reader.timeout.heard
    unfold TailReader.timeout
    split <;> exact hstream
  | reject =>
    refine ⟨?_, sound_reject hreader⟩
    show s.stream.Kept s.reader.reject.heard
    unfold TailReader.reject
    split <;> exact hstream
  | abort => exact ⟨hstream, sound_wake hreader rfl rfl rfl rfl⟩

omit [LinearOrder Id] in
theorem wellFormed_id {p : Id × E} (h : wellFormed host entry = some p) : p.1 = entry.id := by
  obtain ⟨data, _, hparse⟩ := Option.bind_eq_some_iff.mp h
  obtain ⟨event, _, rfl⟩ := Option.map_eq_some_iff.mp hparse
  rfl

/-- **Whatever is lost on the way**, what has been yielded is in order, was logged behind the
    start cursor, and leaves no well-formed entry of the stream out before its end. -/
theorem yielded_without_gap (host : TailHost Id E) (fromId : Option String)
    (events : List (TailEvent Id)) : let s := events.foldl (tailStep host) (opened fromId)
    s.reader.yielded.Pairwise (·.1 < ·.1) ∧
    (∀ p ∈ s.reader.yielded, ∃ entry ∈ s.stream.log,
      (startCursor fromId).admits host entry.id = true ∧ wellFormed host entry = some p) ∧
    ∀ entry ∈ s.stream.entries, (startCursor fromId).admits host entry.id = true →
      ∀ p, wellFormed host entry = some p →
        p ∈ s.reader.yielded ∨ ∀ q ∈ s.reader.yielded, q.1 < p.1 := by
  intro s
  have h : s.reader.Sound host (startCursor fromId) s.stream :=
    (Leads.preserves (I := (Tail.Sound · host (startCursor fromId))) (fun _ e h _ => sound_step e h)
      (leads_foldl _ events) (sound_opened host fromId)).reader
  have hmem : ∀ p, (∃ entry ∈ s.reader.fetched, wellFormed host entry = some p) ↔
      p ∈ s.reader.yielded ∨ p ∈ s.reader.phase.batch.filterMap (wellFormed host) := fun p => by
    rw [← List.mem_filterMap, ← h.yields, List.mem_append]
  have horder := h.ordered.filterMap (wellFormed host) (S := (·.1 < ·.1)) fun a a' hlt p hp p' hp' => by
    rwa [wellFormed_id hp, wellFormed_id hp']
  rw [← h.yields, List.pairwise_append] at horder
  refine ⟨horder.1, fun p hp => ?_, fun entry he hstart p hp => ?_⟩
  · obtain ⟨entry, he, hwell⟩ := (hmem p).mpr (.inl hp)
    exact ⟨entry, (h.logged entry he).1, (h.logged entry he).2, hwell⟩
  · rcases h.gapless entry he hstart with hin | hall
    · exact ((hmem p).mp ⟨entry, hin, hp⟩).imp_right fun hrest q hq => horder.2.2 q hq p hrest
    · refine .inr fun q hq => ?_
      obtain ⟨last, hlast, hwell⟩ := (hmem q).mpr (.inl hq)
      rw [wellFormed_id hwell, wellFormed_id hp]
      exact hall last hlast

/-! ## Messages that are heeded -/

/-- The reader has read all that it will before it ends for inactivity. -/
def TailPhase.settled : TailPhase Id → Bool
  | .received _ => true
  | .yielding _ _ => true
  | .waiting => true
  | .ended .inactive _ => true
  | _ => false

/-- Where nothing more is to be read, every entry that was heard of is fetched. -/
def Tail.Heeds (s : Tail Id E) (host : TailHost Id E) (start : StreamCursor Id) : Prop :=
  s.reader.phase.settled = true → ∀ entry ∈ s.stream.entries,
    start.admits host entry.id = true → entry.id ∈ s.reader.heard → entry ∈ s.reader.fetched

/-- The reader comes to rest only after a range read, and fetches all that there is. -/
theorem settled_advance (h : r.Sound host start s)
    (hsettled : (r.advance host s.entries).phase.settled = true) :
    (r.phase.settled = true ∧ (r.advance host s.entries).fetched = r.fetched) ∨
      ∀ entry ∈ s.entries, start.admits host entry.id = true →
        entry ∈ (r.advance host s.entries).fetched := by
  unfold TailReader.advance at hsettled ⊢
  split at hsettled
  · cases hsettled
  · -- looping
    exfalso
    revert hsettled
    cases r.closed <;> simp [TailPhase.settled]
  · -- reading: the read fetches what is left
    rename_i hphase
    split at hsettled
    · rename_i hvalid
      simp only [hvalid, if_true]
      exact .inr fun entry he hstart => fetched_range h (by rw [hphase]; rfl) he hstart
    · cases hsettled
  · rename_i hphase
    exact .inl ⟨by rw [hphase]; rfl, rfl⟩
  · rename_i hphase
    refine .inl ⟨by rw [hphase]; rfl, ?_⟩
    repeat' split
    all_goals rfl
  · -- woken
    exfalso
    revert hsettled
    cases r.closed <;> simp [TailPhase.settled]
  · exact .inl ⟨hsettled, rfl⟩
  · exact .inl ⟨hsettled, rfl⟩
  · exact .inl ⟨hsettled, rfl⟩

theorem heeds_step {s : Tail Id E}
    {e : TailEvent Id} (hs : s.Sound host start) (hok : Heeded host start s e)
    (h : s.Heeds host start) : (tailStep host s e).Heeds host start := by
  cases e with
  | append entry evicted =>
    intro hsettled e he hstart hheard
    rcases mem_append_entries he with hold | ⟨_, hnew⟩
    · exact h hsettled e hold hstart hheard
    · -- nobody can have heard of an entry that is being appended
      obtain ⟨noted, hnoted, hid⟩ := hs.stream.noted e.id (.inr (.inr hheard))
      exact absurd (hnew noted hnoted) (by rw [hid]; exact lt_irrefl _)
  | expire => rintro _ e ⟨⟩
  | publish id =>
    intro hsettled e he hstart hheard
    simp only [tailStep, publish_entries] at he
    exact h hsettled e he hstart hheard
  | unpublish id => exact h
  | deliver =>
    simp only [tailStep]
    split
    · exact h
    rename_i id rest hfly
    unfold TailReader.hear
    split
    · rename_i hsub
      intro hsettled e he hstart hheard
      -- a message that has not woken the reader is for an entry it has fetched
      have hpast : s.reader.phase.pastRead = true := by
        revert hsub
        have hwake : s.reader.phase.wake.settled = true := hsettled
        revert hwake
        cases s.reader.phase <;> simp [TailPhase.wake, TailPhase.settled, TailPhase.pastRead,
          TailPhase.subscribed]
      have hold : s.reader.phase.settled = true := by
        revert hpast
        cases s.reader.phase <;> simp [TailPhase.settled, TailPhase.pastRead]
      rcases List.mem_cons.mp hheard with hnew | hmem
      · exact hok hpast e he (by rw [hfly, hnew]; rfl) hstart
      · exact h hold e he hstart hmem
    · exact h
  | advance =>
    intro hsettled e he hstart hheard
    rcases settled_advance hs.reader hsettled with ⟨hold, hsame⟩ | hall
    · show e ∈ (s.reader.advance host s.stream.entries).fetched
      rw [hsame]
      refine h hold e he hstart ?_
      rw [← advance_heard host s.stream.entries]
      exact hheard
    · exact hall e he hstart
  | next =>
    simp only [tailStep, TailReader.next]
    split
    · rename_i hphase
      exact fun _ => h (by rw [hphase]; rfl)
    · exact h
  | stop =>
    simp only [tailStep, TailReader.stop]
    split
    · rintro ⟨⟩
    · exact h
  | timeout =>
    simp only [tailStep, TailReader.timeout]
    split
    · rename_i hphase
      exact fun _ => h (by rw [hphase]; rfl)
    · exact h
  | reject =>
    simp only [tailStep, TailReader.reject]
    split
    · rintro ⟨⟩
    · rintro ⟨⟩
    · exact h
  | abort =>
    intro hsettled
    refine h ?_
    revert hsettled
    show (s.reader.phase.wake).settled = true → _
    cases s.reader.phase <;> simp [TailPhase.wake, TailPhase.settled]

/-- **The live tail loses nothing, in every run in which no message reaches the reader past
    its range read for an entry that the read has missed.** -/
theorem tail_loses_nothing (host : TailHost Id E) (fromId : Option String) {s : Tail Id E}
    (h : Reaches (· = opened fromId) (tailStep host) (Heeded host (startCursor fromId)) s) :
    Tailed host (startCursor fromId) s := by
  have hrun : s.Sound host (startCursor fromId) ∧ s.Heeds host (startCursor fromId) := by
    refine Reaches.invariant (I := fun s => s.Sound host (startCursor fromId) ∧
      s.Heeds host (startCursor fromId)) ?_ ?_ h
    · rintro _ rfl
      exact ⟨sound_opened host fromId, by rintro ⟨⟩⟩
    · exact fun s e hs hok => ⟨sound_step e hs.1, heeds_step hs.1 hok hs.2⟩
  obtain ⟨hsound, hheeds⟩ := hrun
  refine ⟨hsound.reader.logged, hsound.reader.ordered, hsound.reader.gapless,
    hsound.reader.yields, ?_⟩
  intro batch hend
  exact ⟨hsound.reader.idle batch hend, hheeds (by rw [hend]; rfl)⟩

/-! ## One message -/

/-- An id is a time and a number; a text with no bound is not asked for, and an event is
    its text. -/
def textTail : TailHost (ℕ ×ₗ ℕ) String := ⟨fun _ => none, some⟩

def firstEntry : StreamEntry (ℕ ×ₗ ℕ) := ⟨toLex (5, 0), ["data", "\x7b\x7d"]⟩

/-- The message finds the reader waiting. -/
def heard : List (TailEvent (ℕ ×ₗ ℕ)) :=
  [.advance, .advance, .advance, .advance, .append firstEntry 0, .publish firstEntry.id, .deliver,
    .advance, .advance, .advance, .advance, .next, .advance, .timeout]

theorem tail_loses_nothing_heard :
    Tailed textTail (startCursor none) (heard.foldl (tailStep textTail) (opened none)) := by
  refine tail_loses_nothing textTail none ⟨opened none, rfl, Admits.leads ?_⟩
  refine ⟨trivial, trivial, trivial, trivial, trivial, trivial, ?_, trivial, trivial, trivial,
    trivial, trivial, trivial, trivial, trivial⟩
  rintro ⟨⟩

/-- The message comes after the range read, and before the wait. -/
def unheard : List (TailEvent (ℕ ×ₗ ℕ)) :=
  [.advance, .advance, .advance, .append firstEntry 0, .publish firstEntry.id, .deliver, .advance,
    .timeout]

theorem unheard_entry : ¬ ∀ fromId s,
    Reaches (· = opened fromId) (tailStep textTail) (fun _ _ => True) s →
      Tailed textTail (startCursor fromId) s := by
  intro hall
  have htailed := hall none (unheard.foldl (tailStep textTail) (opened none))
    ⟨opened none, rfl, Admits.leads (by
      refine ⟨?_, ?_, ?_, ?_, ?_, ?_, ?_, ?_, ?_⟩ <;> trivial)⟩
  have hend : (unheard.foldl (tailStep textTail) (opened none)).reader.phase =
      .ended .inactive [] := rfl
  have hentries : (unheard.foldl (tailStep textTail) (opened none)).stream.entries =
      [firstEntry] := by decide +kernel
  have hheard : (unheard.foldl (tailStep textTail) (opened none)).reader.heard =
      [firstEntry.id] := by decide +kernel
  have hfetched : (unheard.foldl (tailStep textTail) (opened none)).reader.fetched = [] := by
    decide +kernel
  have hmissed := (htailed.awake [] hend).2 firstEntry (by simp [hentries]) rfl (by simp [hheard])
  simp [hfetched] at hmissed

end A2a
