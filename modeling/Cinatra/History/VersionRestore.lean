import Cinatra.History.GapFree

/-! # VersionRestore — an object as it was at a version

    Alone at work, a version restore reads the row and the newest five hundred events,
    and makes one write, which one depending on who is deleted.  An update leaves a
    column where the target has null, an undelete brings back only the data, and a
    delete brings back nothing (`restores_iff`). -/

namespace History

open Process Machine RowTable Journal

/-- Nobody else is at work, and every call is answered. -/
def calm : Environment HistoryCall HistoryCall.Reply HistoryError Db Unit where
  answer _ := history.answer .answered

def ownership : List Column := [.ownerLevel, .ownerId, .visibility]

/-- Type, parent and owner are those of a snapshot. -/
structure Placed (row target : ObjectRow) : Prop where
  type : row.type = target.type
  parentId : row.parentId = target.parentId
  parentType : row.parentType = target.parentType
  columns : ∀ c ∈ ownership, row.columns c = target.columns c

structure SameVersion (row target : ObjectRow) : Prop extends Placed row target where
  data : row.data = target.data
  deleted : row.deleted = target.deleted

/-- The project that a row inherits, if any, is there and takes writes. -/
def Db.Writable (db : Db) (projectId : Option String) : Prop :=
  ∀ id, projectId = some id →
    ∃ p, db.projects.find? (fun p => p.id = id) = some p ∧ p.archived = false

/-- The write of a version restore is let through and leaves nothing out, given the project
    of its frame, the row and the target. -/
def Recovers (db : Db) (projectId : Option String) (r target : ObjectRow) : Prop :=
  match r.deleted, target.deleted with
  | false, false => db.Writable (resolveProjectInheritanceForType projectId target.type) ∧
      ∀ c ∈ ownership, target.columns c = none → r.columns c = none
  | true, false => Placed r target
  | _, true => Placed r target ∧ r.data = target.data

/-! ## What the log says -/

/-- Every event shows the type of its object, and the organization, which it still has. -/
def Told (db : Db) : Prop :=
  db.Keyed ∧ ∀ e ∈ db.events, ∃ row r, e.afterSnapshot = some row ∧ e.objectType = row.type ∧
    e.orgId = row.orgId ∧ db.object e.objectId = some r ∧ r.orgId = row.orgId

theorem record_tells (s : Statement) (row : ObjectRow) :
    (s.record row).objectType = row.type ∧ (s.record row).orgId = row.orgId ∧
      (s.record row).id = s.event.eventId ∧
      (s.record row).idempotencyKey = s.event.idempotencyKey := by
  cases s with
  | create | update | softDelete | undelete => exact ⟨rfl, rfl, rfl, rfl⟩

@[simp] theorem Statement.sets_orgId (s : Statement) (r : ObjectRow) :
    (s.sets r).orgId = r.orgId := by
  cases s with
  | create | update | softDelete | undelete => rfl

variable {row : ObjectRow} {s : Statement}

theorem Wrote.told {db db' : Db} (h : Wrote s db db' row) (htold : Told db) : Told db' := by
  obtain ⟨hkeyed, htold⟩ := htold
  obtain ⟨hid, _, hafter, _⟩ := record_reports s row
  obtain ⟨htype, horg, _, _⟩ := record_tells s row
  refine ⟨h.keyed hkeyed, fun e he => ?_⟩
  rw [h.events, List.mem_append, List.mem_singleton] at he
  rcases he with he | rfl
  · obtain ⟨old, r, hold, htype', horg', hr, hsame⟩ := htold e he
    by_cases hobject : e.objectId = s.objectId
    · refine ⟨old, row, hold, htype', horg', ?_, ?_⟩
      · rw [h.object hkeyed, if_pos hobject]
      · rcases h.objects with ⟨args, rfl, _, hnew, _⟩ | ⟨r', hfind, rfl, _⟩
        · exact absurd ((object_id hr).trans hobject) (hnew r (List.mem_of_find?_eq_some hr))
        · obtain ⟨hr', _⟩ := (find_finds hkeyed).mp hfind
          rw [hobject, hr'] at hr
          rw [Statement.sets_orgId, Option.some.inj hr, hsame]
    · refine ⟨old, r, hold, htype', horg', ?_, hsame⟩
      rw [h.object hkeyed, if_neg hobject]
      exact hr
  · refine ⟨row, row, hafter, htype, horg, ?_, rfl⟩
    rw [h.object hkeyed, hid, if_pos h.row_id]

/-- **In every run** the versions are numbered, and the events tell of their objects. -/
theorem run_told {db : Db} (hobjects : db.objects = []) (hevents : db.events = [])
    (events : List WriterEvent) : Chained (events.foldl writerStep (started db)).world ∧
      Told (events.foldl writerStep (started db)).world := by
  have hleads : Leads writerStep (fun _ _ => True) (started db) (events.foldl writerStep (started db)) :=
    leads_foldl _ _
  have hinv := hleads.preserves
    (I := fun s : WriterPool => (s.Kept seeHistory MayCall ∧ ChainInv s.world s.views) ∧
      Told s.world) ?_ ?_
  · exact ⟨hinv.1.2.1, hinv.2⟩
  · rintro s e ⟨⟨hkept, hchain⟩, htold⟩ _
    refine ⟨⟨step_kept writer_keeps e hkept, chainInv_step hkept e hchain⟩, ?_⟩
    rcases step_writes seeHistory (Writer.task newSeen) s e with ⟨hobjects, hevents⟩ |
      ⟨_, _, _, _, _, _, _, htransaction⟩
    · rw [Told, Db.Keyed]
      simp only [Db.object]
      rw [show (writerStep s e).world.objects = s.world.objects from hobjects,
        show (writerStep s e).world.events = s.world.events from hevents]
      exact htold
    · exact transaction_keeps (I := Told) (fun _ _ _ _ _ hwrote => hwrote.told) htransaction htold
  · refine ⟨⟨?_, chained_new hobjects hevents, ?_⟩, ?_, fun e he => ?_⟩
    · rintro i t ⟨⟩
    · rintro i v ⟨⟩
    · show (db.objects.map ObjectRow.id).Nodup
      rw [hobjects]
      exact List.nodup_nil
    · have he : e ∈ db.events := he
      rw [hevents] at he
      cases he

/-- **In every run, whatever fails**: the log only grows, the stored row is the one that its
    last event left, and versions and sequences count the events. -/
theorem log_tells_store (changeSets : List ChangeSetRow) (proposals : List MergeProposal)
    (projects : List ProjectRow) (events more : List WriterEvent) (id : String) :
    let s := events.foldl writerStep (started ⟨[], [], changeSets, proposals, projects⟩)
    s.world.events <+: (more.foldl writerStep s).world.events ∧
    s.world.object id = (s.world.historyOf id).getLast?.bind ObjectChangeEvent.afterSnapshot ∧
    (∀ r, s.world.object id = some r → r.version = (s.world.historyOf id).length) ∧
    (s.world.setOf id).map ObjectChangeEvent.sequence = List.range' 1 (s.world.setOf id).length := by
  intro s
  have hchain : Chained s.world := (run_told rfl rfl events).1
  refine ⟨?_, hchain.last id, fun _ hr => hchain.version hr, hchain.sequences id⟩
  refine Leads.preserves (I := (s.world.events <+: ·.world.events)) (fun t e h _ => ?_)
    (leads_foldl s more) (List.prefix_refl _)
  rcases step_writes seeHistory (Writer.task newSeen) t e with ⟨_, hsame⟩ | ⟨_, _, _, _, _, _, _, hrun⟩
  · exact hsame.symm ▸ h
  · exact h.trans (transaction_grows hrun)

/-! ## The writers -/

/-- The minted ids are new. -/
structure Fresh (minted : Minted) (db : Db) : Prop where
  changeSets : ∀ c ∈ db.changeSets, c.id ≠ minted.changeSetId
  events : ∀ e ∈ db.events, minted.eventId ≠ e.id ∧ minted.idempotencyKey ≠ e.idempotencyKey ∧
    minted.changeSetId ≠ e.changeSetId

variable {db : Db} {minted : Minted} {options : HistoryWriteOptions} {r : ObjectRow} {β : Type}

theorem exec_call {c : HistoryCall} {reply : c.Reply} {f : c.Reply → HistoryProg β}
    {db' : Db} (h : answerHistory db c = (.ok reply, db')) :
    exec calm db (perform c >>= f) = exec calm db' (f reply) := by
  have hanswer : calm.answer () c db = (.ok reply, db') := by
    show ((answerHistory db c).1.mapError HistoryError.sql, (answerHistory db c).2) = _
    rw [h]
    rfl
  exact run_perform hanswer

/-- A run that ends well, with the object in a state. -/
def Leaves {α : Type} (id : String) (row : ObjectRow) (run : Except HistoryError α × Db) : Prop :=
  ∃ a, run.1 = .ok a ∧ run.2.object id = some row

theorem exec_writable {p : Option String} (h : db.Writable p) (f : Unit → HistoryProg β) :
    exec calm db (assertProjectWritable p >>= f) = exec calm db (f ()) := by
  cases p with
  | none => rfl
  | some id =>
    obtain ⟨row, hrow, hlive⟩ := h id rfl
    rw [assertProjectWritable, bind_assoc, exec_call (show answerHistory db (.readProject id) =
      (.ok (some row), db) by rw [answerHistory, hrow])]
    simp only [hlive, Bool.false_eq_true, if_false]
    rfl

theorem exec_unwritable {p : Option String} (h : ¬ db.Writable p) (f : Unit → HistoryProg β) :
    ∃ err, exec calm db (assertProjectWritable p >>= f) = (.error err, db) := by
  cases p with
  | none => exact absurd (fun id => nofun) h
  | some id =>
    rw [assertProjectWritable, bind_assoc, exec_call (show answerHistory db (.readProject id) =
      (.ok (db.projects.find? (fun p => p.id = id)), db) from rfl)]
    cases hrow : db.projects.find? (fun p => p.id = id) with
    | none => exact ⟨_, rfl⟩
    | some row =>
      cases harchived : row.archived with
      | false => exact absurd (fun _ hid => ⟨row, Option.some.inj hid ▸ hrow, harchived⟩) h
      | true =>
        simp only [harchived, if_true]
        exact ⟨_, rfl⟩

theorem exec_open {id : String} (hfresh : Fresh minted db)
    (hset : options.changeSet = none) {f : String → Nat → HistoryProg β}
    (h : ∀ db' n, db'.objects = db.objects → db'.events = db.events →
      Leaves id row (exec calm db' (f minted.changeSetId n))) :
    Leaves id row (exec calm db (autoChangeSet minted options.actor options.changeSet >>= fun set =>
      getNextEventSequence set >>= f set)) := by
  have hnew : db.changeSets.any (fun c => c.id = minted.changeSetId) = false :=
    List.any_eq_false.mpr fun c hc => by simpa using hfresh.changeSets c hc
  have hinsert : answerHistory db (.insertChangeSet
      { id := minted.changeSetId, orgId := options.actor.orgId }) =
      (.ok (), { db with changeSets := db.changeSets ++
        [{ id := minted.changeSetId, orgId := options.actor.orgId }] }) := by
    simp only [answerHistory, hnew, if_neg Bool.false_ne_true]
  rw [hset, autoChangeSet, openChangeSet]
  simp only [bind_assoc, pure_bind]
  rw [exec_call hinsert, getNextEventSequence]
  simp only [bind_assoc, pure_bind]
  rw [exec_call (show answerHistory _ (.maxSequence minted.changeSetId) = (.ok _, _) from rfl)]
  exact h _ _ rfl rfl

theorem closing_objects (id : String) (reason : Option String) :
    (exec calm db (closeChangeSet id reason)).2.objects = db.objects := by
  simp only [closeChangeSet, exec_bind, exec_perform, calm, history, answerHistory, Except.mapError]
  cases (db.changeSets.find? (fun c => c.id = id)) with
  | none | some => rfl

/-- A statement that finds its row is written, and its change set closed. -/
theorem exec_write {id text set : String} {version : Option Nat}
    {reason : Option ObjectRow → String} {a : β} {db₀ : Db} (hobjects : db.objects = db₀.objects)
    (hkeyed : db₀.Keyed) (hs : ∀ args, s ≠ .create args) (hr : db₀.object s.objectId = some r)
    (hfinds : s.finds r = true)
    (hnew : ∀ e ∈ db.events, s.event.eventId ≠ e.id ∧ s.event.idempotencyKey ≠ e.idempotencyKey ∧
      s.event.changeSetId ≠ e.changeSetId) (hset : options.changeSet = none) :
    Leaves s.objectId (s.sets r) (exec calm db (write id version reason s >>= fun _ =>
      maybeAutoClose options set text >>= fun _ => pure a)) := by
  replace hkeyed : db.Keyed := by rwa [Db.Keyed, hobjects]
  replace hr : db.object s.objectId = some r := by rwa [Db.object, hobjects]
  obtain ⟨_, _, _, _, _, hchangeSet, _⟩ := record_reports s (s.sets r)
  obtain ⟨_, _, hid, hkey⟩ := record_tells s (s.sets r)
  obtain ⟨db₁, happly⟩ := apply_found hs ((find_finds hkeyed).mpr ⟨hr, hfinds⟩) (fun e he => by
    obtain ⟨h₁, h₂, h₃⟩ := hnew e he
    simp [clashes, hid, hkey, hchangeSet, h₁, h₂, h₃])
  obtain ⟨row, hwrote⟩ := apply_ok happly
  obtain ⟨r', hr', _, hrow⟩ := hwrote.found hkeyed hs
  rw [hr] at hr'
  obtain rfl := Option.some.inj hr'
  have htransaction : transaction db [s] = .ok db₁ := by
    rw [transaction, List.foldlM_cons, happly]
    rfl
  have hwritten : exec calm db (write id version reason s) = (.ok (), db₁) := by
    simp [write, calm, history, answerHistory, htransaction, Except.mapError]
  have hclose : exec calm db (write id version reason s >>= fun _ =>
      maybeAutoClose options set text >>= fun _ => pure a) =
        (.ok a, (exec calm db₁ (closeChangeSet set (some text))).2) := by
    rw [exec_bind, hwritten]
    simp only [maybeAutoClose, hset, Option.isSome_none, Bool.false_eq_true, if_false]
    show exec calm db₁ (((closeChangeSet set (some text)).attempt >>= fun _ => pure ()) >>= fun _ =>
      pure a) = _
    simp only [exec_bind, exec_attempt, exec_pure]
  rw [hclose]
  refine ⟨a, rfl, ?_⟩
  show (exec calm db₁ (closeChangeSet set (some text))).2.object s.objectId = _
  rw [Db.object, closing_objects]
  exact (hwrote.object hkeyed _).trans (by rw [if_pos rfl, hrow])

variable {projectId : Option String} {actor : HistoryActor} {objectId : String}
  {orgId : Option String}

/-- A write that asks for the version there is. -/
def onVersion (version : Nat) (actor : HistoryActor) : HistoryWriteOptions :=
  { expectedBaseVersion := some version, actor := actor }

theorem exec_upsert {input : HistoryAwareUpsertInput} (hkeyed : db.Keyed) (hfresh : Fresh minted db)
    (hwritable : db.Writable (resolveProjectInheritanceForType projectId input.type))
    (hr : db.object input.id = some r) (hvisible : visibleTo input.orgId r.orgId = true) :
    Leaves input.id { r with
        type := input.type, data := input.data, parentId := input.parentId,
        parentType := input.parentType, version := r.version + 1,
        columns := fun c => (writeColumns input actor projectId c).or (r.columns c) }
      (exec calm db (historyAwareUpsert minted projectId input (onVersion r.version actor))) := by
  show Leaves _ _ (exec calm db (assertProjectWritable _ >>= _))
  rw [exec_writable hwritable]
  refine exec_open hfresh rfl fun db₁ n hobjects hevents => ?_
  rw [exec_call (show answerHistory db₁ (.readObject input.id) = (.ok _, _) from rfl)]
  refine exec_write hobjects hkeyed (fun args => Statement.noConfusion) hr ?_ ?_ rfl
  · simp [upsertStatement, onVersion, Statement.finds, writeArgs, object_id hr, hvisible]
  · exact fun e he => hfresh.events e (hevents ▸ he)

theorem exec_refused (minted : Minted) (input : HistoryAwareUpsertInput)
    (h : ¬ db.Writable (resolveProjectInheritanceForType projectId input.type))
    (f : WriteResult → HistoryProg β) : ∃ err, (exec calm db
      (historyAwareUpsert minted projectId input (onVersion r.version actor) >>= f)).1 =
        .error err := by
  simp only [historyAwareUpsert, bind_assoc]
  obtain ⟨err, herr⟩ := exec_unwritable h _
  exact ⟨err, congrArg Prod.fst herr⟩

theorem exec_softDelete (hkeyed : db.Keyed) (hfresh : Fresh minted db)
    (hr : db.object objectId = some r) (hvisible : visibleTo orgId r.orgId = true)
    (hlive : r.deleted = false) :
    Leaves objectId { r with deleted := true, version := r.version + 1 }
      (exec calm db (historyAwareSoftDelete minted objectId orgId (onVersion r.version actor))) := by
  show Leaves objectId _ (exec calm db (perform (HistoryCall.readObject objectId) >>= _))
  rw [exec_call (show answerHistory db (.readObject objectId) = (.ok (some r), db) by
    rw [answerHistory, hr])]
  refine exec_open hfresh rfl fun db₁ n hobjects hevents => ?_
  refine exec_write hobjects hkeyed (fun args => Statement.noConfusion) hr ?_ ?_ rfl
  · simp [Statement.finds, object_id hr, hvisible, hlive]
  · exact fun e he => hfresh.events e (hevents ▸ he)

theorem exec_undelete {data : Data} (hkeyed : db.Keyed) (hfresh : Fresh minted db)
    (hr : db.object objectId = some r) (hvisible : visibleTo orgId r.orgId = true)
    (hdeleted : r.deleted = true) :
    Leaves objectId { r with deleted := false, data := data, version := r.version + 1 }
      (exec calm db
        (historyAwareUndelete minted objectId orgId data (onVersion r.version actor))) := by
  show Leaves objectId _ (exec calm db (perform (HistoryCall.readObject objectId) >>= _))
  rw [exec_call (show answerHistory db (.readObject objectId) = (.ok (some r), db) by
    rw [answerHistory, hr])]
  simp only [hdeleted, Bool.not_true, Bool.false_eq_true, if_false]
  refine exec_open hfresh rfl fun db₁ n hobjects hevents => ?_
  refine exec_write hobjects hkeyed (fun args => Statement.noConfusion) hr ?_ ?_ rfl
  · simp [Statement.finds, object_id hr, hvisible, hdeleted]
  · exact fun e he => hfresh.events e (hevents ▸ he)

/-! ## The restore -/

variable {event : ObjectChangeEvent} {target : ObjectRow}

theorem newestEvents_eq (htold : Told db) (hr : db.object objectId = some r) :
    db.newestEvents objectId r.orgId = (db.historyOf objectId).reverse.take 500 := by
  rw [Db.newestEvents, Db.historyOf, records]
  congr 2
  refine List.filter_congr fun e he => ?_
  obtain ⟨row, r', _, _, horg, hr', hsame⟩ := htold.2 e he
  by_cases hid : e.objectId = objectId
  · rw [hid, hr] at hr'
    obtain rfl := Option.some.inj hr'
    simp [hid, ofOrg, horg, hsame]
  · simp [hid]

/-- An event is among them unless five hundred have followed it. -/
theorem mem_newestEvents (hchain : Chained db) (htold : Told db) (hr : db.object objectId = some r)
    (hevent : event ∈ db.historyOf objectId) :
    event ∈ db.newestEvents objectId r.orgId ↔ r.version < event.resultVersion + 500 := by
  have hnumbers : (db.historyOf objectId).map ObjectChangeEvent.resultVersion =
      List.range' 1 (db.historyOf objectId).length := hchain.versions objectId
  rw [newestEvents_eq htold hr, List.take_reverse, List.mem_reverse, hchain.version hr]
  generalize db.historyOf objectId = history at hevent hnumbers ⊢
  have hmem := List.mem_map_of_mem (f := ObjectChangeEvent.resultVersion) hevent
  rw [hnumbers, List.mem_range'_1] at hmem
  constructor
  · intro hlate
    have hmem' := List.mem_map_of_mem (f := ObjectChangeEvent.resultVersion) hlate
    rw [List.map_drop, hnumbers, List.drop_range', List.mem_range'_1] at hmem'
    omega
  · intro hlate
    rw [← List.take_append_drop (history.length - 500) history, List.mem_append] at hevent
    refine hevent.resolve_left fun hearly => ?_
    have hmem' := List.mem_map_of_mem (f := ObjectChangeEvent.resultVersion) hearly
    rw [List.map_take, hnumbers, List.take_range'_of_length_ge (Nat.sub_le _ _),
      List.mem_range'_1] at hmem'
    omega

theorem find_target (hchain : Chained db) (hevent : event ∈ db.historyOf objectId)
    {events : List ObjectChangeEvent} (hsub : ∀ e ∈ events, e ∈ db.events) {e : ObjectChangeEvent} :
    events.find? (fun e => e.resultVersion = event.resultVersion && e.objectId = objectId) = some e ↔
      e = event ∧ event ∈ events := by
  obtain ⟨hin, hobject⟩ := mem_records.mp hevent
  have honly : ∀ e ∈ events, (e.resultVersion = event.resultVersion && e.objectId = objectId) = true →
      e = event := by
    intro e he hfound
    simp only [Bool.and_eq_true, decide_eq_true_eq] at hfound
    exact hchain.versions.eq_of (hsub e he) hin (hfound.2.trans hobject.symm) hfound.1
  constructor
  · intro hfind
    have he := List.mem_of_find?_eq_some hfind
    obtain rfl := honly e he (List.find?_some hfind :)
    exact ⟨rfl, he⟩
  · rintro ⟨rfl, he⟩
    cases hfind : events.find? (fun e' => e'.resultVersion = e.resultVersion && e'.objectId = objectId) with
    | some e' => rw [honly e' (List.mem_of_find?_eq_some hfind) (List.find?_some hfind :)]
    | none => exact absurd (by simp [hobject]) (List.find?_eq_none.mp hfind e he)

variable {α : Type}

theorem Leaves.map {p : HistoryProg α} {f : α → β} (h : Leaves objectId row (exec calm db p)) :
    Leaves objectId row (exec calm db (p >>= fun a => pure (f a))) := by
  obtain ⟨a, hok, hrow⟩ := h
  obtain ⟨result, db', hrun⟩ : ∃ result db', exec calm db p = (result, db') := ⟨_, _, rfl⟩
  rw [hrun] at hok hrow
  simp only at hok hrow
  rw [exec_bind, hrun, hok]
  exact ⟨f a, rfl, hrow⟩

/-- The run ends well, and the object is as a snapshot shows it. -/
def Brings {α : Type} (id : String) (target : ObjectRow) (run : Except HistoryError α × Db) : Prop :=
  ∃ row, Leaves id row run ∧ SameVersion row target

theorem Leaves.brings_iff {run : Except HistoryError α × Db}
    (h : Leaves objectId row run) : Brings objectId target run ↔ SameVersion row target := by
  constructor
  · rintro ⟨row', ⟨_, _, hrow'⟩, hsame⟩
    obtain ⟨_, _, hrow⟩ := h
    rw [Option.some.inj (hrow.symm.trans hrow')]
    exact hsame
  · exact fun hsame => ⟨row, h, hsame⟩

/-- What an update is given of the owner and the visibility is the target's. -/
theorem writeColumns_ownership {c : Column} (hc : c ∈ ownership) : writeColumns
    (versionInput objectId actor event target) actor projectId c = target.columns c := by
  simp only [ownership, List.mem_cons, List.not_mem_nil, or_false] at hc
  rcases hc with rfl | rfl | rfl <;> rfl

/-- **The write**, in each of the four cases. -/
theorem restoreVersion_iff (hkeyed : db.Keyed) (hfresh : Fresh minted db)
    (hr : db.object objectId = some r) (hvisible : visibleTo actor.orgId r.orgId = true)
    (htype : event.objectType = target.type) (version : Nat) :
    Brings objectId target (exec calm db (restoreVersion minted projectId objectId version actor
      (scopeOf r) event target)) ↔ Recovers db projectId r target := by
  rw [restoreVersion, Recovers]
  rw [show (scopeOf r).deleted = r.deleted from rfl]
  cases hnow : r.deleted <;> cases hthen : target.deleted
  · by_cases hwritable : db.Writable (resolveProjectInheritanceForType projectId target.type)
    case neg =>
      refine iff_of_false ?_ (fun h => hwritable h.1)
      rintro ⟨_, ⟨_, hok, _⟩, _⟩
      rw [← htype] at hwritable
      obtain ⟨err, herr⟩ := exec_refused minted (versionInput objectId actor event target)
        hwritable _
      cases hok.symm.trans herr
    rw [and_iff_right hwritable]
    rw [← htype] at hwritable
    refine ((exec_upsert hkeyed hfresh hwritable hr hvisible).map.brings_iff).trans ?_
    constructor
    · intro h c hc hnull
      have hcolumn : (writeColumns (versionInput objectId actor event target) actor projectId c).or
          (r.columns c) = target.columns c := h.columns c hc
      rw [writeColumns_ownership hc, hnull, Option.none_or] at hcolumn
      exact hcolumn
    · intro h
      refine ⟨⟨htype, rfl, rfl, fun c hc => ?_⟩, rfl, hnow.trans hthen.symm⟩
      show (writeColumns (versionInput objectId actor event target) actor projectId c).or
        (r.columns c) = target.columns c
      rw [writeColumns_ownership hc]
      cases hcolumn : target.columns c with
      | none => rw [h c hc hcolumn, Option.or_none]
      | some owner => rfl
  · refine ((exec_softDelete hkeyed hfresh hr hvisible hnow).map.brings_iff).trans ?_
    constructor
    · exact fun h => ⟨⟨h.type, h.parentId, h.parentType, h.columns⟩, h.data⟩
    · rintro ⟨h, hdata⟩
      exact ⟨⟨h.type, h.parentId, h.parentType, h.columns⟩, hdata, hthen.symm⟩
  · refine ((exec_undelete hkeyed hfresh hr hvisible hnow).map.brings_iff).trans ?_
    exact ⟨fun h => ⟨h.type, h.parentId, h.parentType, h.columns⟩,
      fun h => ⟨⟨h.type, h.parentId, h.parentType, h.columns⟩, rfl, hthen.symm⟩⟩
  · have hnothing : Leaves objectId r (exec calm db (pure
        { restoreChangeSetId := "cs_noop_" ++ objectId ++ "_" ++ toString version,
          appliedEventCount := 0, affectedObjects := [objectId] } : HistoryProg RestoreResult)) :=
      ⟨_, rfl, hr⟩
    refine hnothing.brings_iff.trans ?_
    constructor
    · exact fun h => ⟨h.toPlaced, h.data⟩
    · rintro ⟨h, hdata⟩
      exact ⟨h, hdata, hnow.trans hthen.symm⟩

theorem scope_eq (hr : db.object objectId = some r) (hvisible : visibleTo orgId r.orgId = true) :
    db.scope objectId orgId = some (scopeOf r) := by
  have hid := object_id hr
  rw [Db.object, List.find?_eq_some_iff_append] at hr
  obtain ⟨_, before, after, hobjects, hnot⟩ := hr
  rw [Db.scope, List.find?_eq_some_iff_append.mpr ⟨by simp [hid, hvisible], before, after, hobjects,
    fun x hx => by have := hnot x hx; simp_all⟩]
  rfl

/-- **A version is restored exactly when** it is one of the newest five hundred, and the write
    leaves nothing out. -/
theorem version_restored_iff {db₀ : Db} (hobjects : db₀.objects = []) (hevents : db₀.events = [])
    {steps : List WriterEvent} (hrun : (steps.foldl writerStep (started db₀)).world = db)
    (hr : db.object objectId = some r) (hvisible : visibleTo actor.orgId r.orgId = true)
    (hfresh : Fresh minted db) {version : Nat} (hpos : 1 ≤ version) (hle : version ≤ r.version)
    (freshness : FreshnessState) :
    ∃ event ∈ db.historyOf objectId, ∃ target, event.resultVersion = version ∧
      event.afterSnapshot = some target ∧
      (event.operation ≠ .hardDelete → event.remoteRevisionRef = none →
        (Brings objectId target (exec calm db
            (restoreObjectToVersion minted projectId objectId version actor freshness)) ↔
          r.version < version + 500 ∧ Recovers db projectId r target)) := by
  obtain ⟨hchain, htold⟩ := run_told hobjects hevents steps
  rw [hrun] at hchain htold
  obtain ⟨event, hin, hobject, rfl⟩ := hchain.versions.mem_iff.mpr
    ⟨hpos, (hle.trans_eq (hchain.version hr) : version ≤ (db.historyOf objectId).length)⟩
  have hevent : event ∈ db.historyOf objectId := mem_records.mpr ⟨hin, hobject⟩
  obtain ⟨target, _, htarget, htype, _⟩ := htold.2 event hin
  refine ⟨event, hevent, target, rfl, htarget, fun hop hremote => ?_⟩
  have hlist : ∀ e ∈ db.newestEvents objectId r.orgId, e ∈ db.events := fun e he =>
    (List.mem_filter.mp (List.mem_reverse.mp (List.mem_of_mem_take he))).1
  rw [restoreObjectToVersion, exec_call (show answerHistory db
    (.readObjectScope objectId actor.orgId) = (.ok (some (scopeOf r)), db) by
      rw [answerHistory, scope_eq hr hvisible])]
  simp only [if_neg (show ¬ (scopeOf r).version < event.resultVersion from Nat.not_lt.mpr hle)]
  rw [exec_call (show answerHistory db (.listEventsForObject objectId (scopeOf r).orgId) =
    (.ok (db.newestEvents objectId r.orgId), db) from rfl), ← mem_newestEvents hchain htold hr hevent]
  by_cases hlate : event ∈ db.newestEvents objectId r.orgId
  · have hcheck : checkTarget objectId event.resultVersion freshness
        (db.newestEvents objectId r.orgId) = .ok (event, target) := by
      rw [checkTarget, (find_target hchain hevent hlist).mpr ⟨rfl, hlate⟩]
      simp only [if_neg hop, htarget, hremote, Option.isNone_none, if_true]
    rw [hcheck, and_iff_right hlate]
    exact restoreVersion_iff hchain.keyed hfresh hr hvisible htype event.resultVersion
  · have hnone : (db.newestEvents objectId r.orgId).find? (fun e =>
        e.resultVersion = event.resultVersion && e.objectId = objectId) = none := by
      by_contra hsome
      obtain ⟨e, he⟩ := Option.ne_none_iff_exists'.mp hsome
      exact hlate ((find_target hchain hevent hlist).mp he).2
    rw [checkTarget, hnone]
    refine iff_of_false ?_ (fun h => hlate h.1)
    rintro ⟨row, ⟨_, hok, _⟩, _⟩
    cases hok

/-- A note is made, made a task, and deleted. -/
def taskDeleted : List WriterEvent :=
  inTurn (noteWriter "c1" [] none) ++
    inTurn (.upsert (mintedFor "c2") none { id := "x", type := "task", data := [] }
      (onVersion 1 retyper)) ++
    inTurn (.softDelete (mintedFor "c3") "x" none (onVersion 2 retyper))

def taskDeletedDb : Db := (taskDeleted.foldl writerStep (started {})).world

theorem version_restored_taskDeleted : ∃ r, taskDeletedDb.object "x" = some r ∧
    ∃ event ∈ taskDeletedDb.historyOf "x", ∃ target, event.resultVersion = 1 ∧
      event.afterSnapshot = some target ∧
      (event.operation ≠ .hardDelete → event.remoteRevisionRef = none →
        (Brings "x" target (exec calm taskDeletedDb
            (restoreObjectToVersion (mintedFor "c4") none "x" 1 retyper .unsupported)) ↔
          r.version < 1 + 500 ∧ Recovers taskDeletedDb none r target)) := by
  have hfacts : (taskDeletedDb.object "x").map (fun r => (r.version, r.orgId)) = some (3, none) := by
    decide +kernel
  obtain ⟨r, hr, hpair⟩ := Option.map_eq_some_iff.mp hfacts
  obtain ⟨hversion, horg⟩ := Prod.mk.inj hpair
  exact ⟨r, hr, version_restored_iff rfl rfl rfl hr (by simp [visibleTo, horg])
    ⟨by decide +kernel, by decide +kernel⟩ (Nat.le_refl 1) (by omega) .unsupported⟩

theorem taskDeleted_not_restored : ∃ event ∈ taskDeletedDb.historyOf "x", ∃ target,
    event.resultVersion = 1 ∧ event.operation = .create ∧ event.remoteRevisionRef = none ∧
      event.afterSnapshot = some target ∧ ¬ Brings "x" target (exec calm taskDeletedDb
        (restoreObjectToVersion (mintedFor "c4") none "x" 1 retyper .unsupported)) := by
  have hfirst : (taskDeletedDb.historyOf "x").head?.map (fun e => (e.resultVersion, e.operation,
      e.remoteRevisionRef.isNone, e.afterSnapshot.map ObjectRow.type)) =
        some (1, .create, true, some "note") := by decide +kernel
  have hnow : ((exec calm taskDeletedDb (restoreObjectToVersion (mintedFor "c4") none "x" 1 retyper
      .unsupported)).2.object "x").map ObjectRow.type = some "task" := by decide +kernel
  obtain ⟨event, hevent, hshows⟩ := Option.map_eq_some_iff.mp hfirst
  obtain ⟨hversion, hshows⟩ := Prod.mk.inj hshows
  obtain ⟨hop, hshows⟩ := Prod.mk.inj hshows
  obtain ⟨hremote, htype⟩ := Prod.mk.inj hshows
  obtain ⟨target, htarget, htype⟩ := Option.map_eq_some_iff.mp htype
  refine ⟨event, List.mem_of_head? hevent, target, hversion, hop, Option.isNone_iff_eq_none.mp hremote,
    htarget, ?_⟩
  rintro ⟨row, ⟨_, _, hrow⟩, hsame⟩
  rw [hrow, Option.map_some, hsame.type, htype] at hnow
  exact absurd hnow (by decide)

end History
