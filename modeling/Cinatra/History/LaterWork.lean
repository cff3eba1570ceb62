import Cinatra.History.Undo
import Cinatra.History.Writers

/-! # LaterWork — what a restore does to later events

    The inverses are based on the versions that the restore itself has read, however
    many events came after the change set: the compare-and-swap fails on a write
    between those reads and the transaction, and on no other.  A field that was
    written later is then what the first of the inverses makes of it that writes it. -/

namespace History

open Process Machine JsonValue

/-- A field of an object; the data are taken name by name. -/
inductive Field where
  | type | parentId | parentType | deleted
  | column (c : Column)
  | data (name : String)

def ObjectRow.field (r : ObjectRow) : Field → Option Json
  | .type => some (.str r.type)
  | .parentId => r.parentId.map .str
  | .parentType => r.parentType.map .str
  | .deleted => some (.bool r.deleted)
  | .column c => (r.columns c).map .str
  | .data name => getField r.data name

/-- What the inverse of an event writes into a field, if it writes it. -/
def inverseWrites (actor : HistoryActor) (event : ObjectChangeEvent) (field : Field) :
    Option (Option Json) :=
  match event.operation, event.beforeSnapshot with
  | .create, _ =>
    match field with
    | .deleted => some (some (.bool true))
    | _ => none
  | .update, some before =>
    match field with
    | .type => some (some (.str event.objectType))
    | .deleted => none
    | .column c => (inverseColumns actor before c).map (fun v => some (.str v))
    | f => some (before.field f)
  | .softDelete, some before | .tombstone, some before =>
    match field with
    | .deleted => some (some (.bool false))
    | .data name => some (getField before.data name)
    | _ => none
  | _, _ => none

theorem inverseRow_field (actor : HistoryActor) (event : ObjectChangeEvent) (r : ObjectRow)
    (field : Field) : (inverseRow actor event r).field field =
      (inverseWrites actor event field).getD (r.field field) := by
  unfold inverseRow inverseWrites
  cases event.operation <;> cases event.beforeSnapshot <;> cases field <;> try rfl
  case update.some.column before c =>
    show ((inverseColumns actor before c).or (r.columns c)).map Json.str =
      ((inverseColumns actor before c).map (fun v => some (Json.str v))).getD
        ((r.columns c).map Json.str)
    cases inverseColumns actor before c with
    | none | some => rfl

theorem undone_field (actor : HistoryActor) (events : List ObjectChangeEvent) (r : ObjectRow)
    (field : Field) : (undone actor events r).field field =
      (events.findSome? (fun e => inverseWrites actor e field)).getD (r.field field) := by
  induction events with
  | nil => rfl
  | cons event events ih =>
    show (inverseRow actor event (undone actor events r)).field field = _
    rw [inverseRow_field, ih, findSome?_cons_or, Option.getD_or]

/-! ## Later work -/

/-- An event has changed a field. -/
def ObjectChangeEvent.Writes (e : ObjectChangeEvent) (field : Field) : Prop :=
  e.beforeSnapshot.bind (fun r => r.field field) ≠ e.afterSnapshot.bind (fun r => r.field field)

/-- The change set has written a field of an object. -/
def ChangeSetWrote (db : Db) (changeSetId objectId : String) (field : Field) : Prop :=
  ∃ e ∈ db.events, e.objectId = objectId ∧ e.changeSetId = changeSetId ∧ e.Writes field

/-- An event outside the change set, after its last one on the object, has written a field. -/
def LaterWrote (db : Db) (changeSetId objectId : String) (field : Field) : Prop :=
  ∃ e ∈ db.events, e.objectId = objectId ∧ e.changeSetId ≠ changeSetId ∧
    (∀ e' ∈ db.events, e'.objectId = objectId → e'.changeSetId = changeSetId →
      e'.resultVersion < e.resultVersion) ∧ e.Writes field

/-- A field that is later work, and of no concern to the change set. -/
def LaterOnly (db : Db) (changeSetId objectId : String) (field : Field) : Prop :=
  LaterWrote db changeSetId objectId field ∧ ¬ ChangeSetWrote db changeSetId objectId field

instance (e : ObjectChangeEvent) (field : Field) : Decidable (e.Writes field) :=
  inferInstanceAs (Decidable (_ ≠ _))

instance (db : Db) (changeSetId objectId : String) (field : Field) :
    Decidable (LaterOnly db changeSetId objectId field) :=
  inferInstanceAs (Decidable ((∃ e ∈ db.events, _) ∧ ¬ ∃ e ∈ db.events, _))

/-- No later work is lost from one database to another. -/
def KeepsLater (changeSetId : String) (db db' : Db) : Prop :=
  ∀ objectId field, LaterOnly db changeSetId objectId field →
    (db'.object objectId).bind (fun r => r.field field) =
      (db.object objectId).bind (fun r => r.field field)

/-- A turn of a restore keeps the later work there is when it is taken. -/
def RestoreKeeps (s : WriterPool) (e : WriterEvent) : Prop :=
  ∀ i fault c v ids input, e = .turn i fault → NextCall s i c v →
    v.writer = .restoreChangeSet ids input →
    KeepsLater input.changeSetId s.world (writerStep s e).world

/-- The inverses that are made write nothing into later work but what is there. -/
def RestoreSpares (s : WriterPool) (e : WriterEvent) : Prop :=
  ∀ i fault statements v ids input, e = .turn i fault →
    NextCall s i (.transaction statements) v → v.writer = .restoreChangeSet ids input →
    Taken fault → (∃ db', transaction s.world statements = .ok db') →
    ∀ objectId field, LaterOnly s.world input.changeSetId objectId field →
      ∀ r ∈ s.world.object objectId, ∀ value ∈ (eventsOn v.events objectId).findSome? (fun e =>
          inverseWrites input.actor e field), value = r.field field

variable {s : WriterPool}

theorem restoreKeeps_iff {e : WriterEvent} (hkeyed : s.world.Keyed)
    (hkept : s.Kept seeHistory MayCall) : RestoreKeeps s e ↔ RestoreSpares s e := by
  constructor
  · rintro hkeeps i fault statements v ids input rfl hcall hwriter htaken ⟨db', htransaction⟩
      objectId field hlater r hr value hvalue
    have hmakes := hcall.allowed hkept statements rfl
    unfold Makes at hmakes
    rw [hwriter] at hmakes
    obtain ⟨trackers, hbuilt⟩ := hmakes
    have hsame := hkeeps i fault _ v ids input rfl hcall hwriter objectId field hlater
    rw [Option.mem_def] at hr hvalue
    rw [show (writerStep s (.turn i fault)).world = db' from
      turn_transaction hcall htaken htransaction,
      transaction_undone hkeyed hbuilt htransaction, hr] at hsame
    simp only [Option.map_some, Option.bind_some, undone_field, hvalue, Option.getD_some] at hsame
    exact hsame
  · rintro hspares i fault c v ids input rfl hcall hwriter objectId field hlater
    rcases step_writes seeHistory (Writer.task newSeen) s (.turn i fault) with
      ⟨hobjects, _⟩ | ⟨j, fault', v', statements, heq, hcall', htaken, htransaction⟩
    · rw [Db.object, show (writerStep s (.turn i fault)).world.objects = _ from hobjects]
      rfl
    cases heq
    obtain ⟨rfl, rfl⟩ := hcall.unique hcall'
    have hmakes := hcall.allowed hkept statements rfl
    unfold Makes at hmakes
    rw [hwriter] at hmakes
    obtain ⟨trackers, hbuilt⟩ := hmakes
    have hobject : (writerStep s (.turn i fault)).world.object objectId =
        (s.world.object objectId).map (undone input.actor (eventsOn v.events objectId)) :=
      transaction_undone hkeyed hbuilt htransaction objectId
    rw [hobject]
    cases hr : s.world.object objectId with
    | none => rfl
    | some r =>
      rw [Option.map_some, Option.bind_some, Option.bind_some, undone_field]
      cases hvalue : (eventsOn v.events objectId).findSome? (fun e =>
          inverseWrites input.actor e field) with
      | none => rfl
      | some value =>
        exact hspares i fault statements v ids input rfl hcall hwriter htaken
          ⟨_, htransaction⟩ objectId field hlater r hr value hvalue

/-- **No later work is lost, in every interleaving, exactly when every restore that takes
    effect writes nothing into it but what is there.** -/
theorem later_work_kept {db : Db} (hkeyed : db.Keyed) (events : List WriterEvent) :
    Admits writerStep RestoreKeeps (started db) events ↔
      Admits writerStep RestoreSpares (started db) events := by
  refine Admits.congr
    (I := fun s : WriterPool => s.world.Keyed ∧ s.Kept seeHistory MayCall) ?_ ?_ ?_
  · rintro s e ⟨hkeyed, hkept⟩
    exact ⟨step_keyed e hkeyed, step_kept writer_keeps e hkept⟩
  · rintro s e ⟨hkeyed, hkept⟩
    exact restoreKeeps_iff hkeyed hkept
  · refine ⟨hkeyed, ?_⟩
    rintro i t ⟨⟩

/-! ### A body that is lost -/

/-- A note is made, its title is changed, and later its body. -/
def edited : Db :=
  (run history (do
    let _ ← historyAwareUpsert (mintedFor "c1") none
      { id := "x", type := "note", data := [("title", .str "a"), ("body", .str "a")] }
      { expectedBaseVersion := none, actor := retyper }
    let _ ← historyAwareUpsert (mintedFor "c2") none
      { id := "x", type := "note", data := [("title", .str "b"), ("body", .str "a")] }
      { expectedBaseVersion := some 1, actor := retyper }
    historyAwareUpsert (mintedFor "c3") none
      { id := "x", type := "note", data := [("title", .str "b"), ("body", .str "c")] }
      { expectedBaseVersion := some 2, actor := retyper }) (fun _ => .answered) {}).2

/-- The change of the title is undone: five calls. -/
def undoTitle : List WriterEvent :=
  [.start 0 (.restoreChangeSet (restoreIdsFor "c4") retypedInput), .turn 0 .answered,
    .turn 0 .answered, .turn 0 .answered, .turn 0 .answered, .turn 0 .answered]

theorem edited_keyed : edited.Keyed := by
  unfold Db.Keyed
  decide +kernel

theorem later_work_kept_edited : Admits writerStep RestoreKeeps (started edited) undoTitle ↔
      Admits writerStep RestoreSpares (started edited) undoTitle :=
  later_work_kept edited_keyed undoTitle

/-- The change set that a task is restoring. -/
def restoring (s : WriterPool) (i : Nat) : Option String :=
  (s.tasks i).bind (fun t => match t.prog, t.view.writer with
    | .call _ _, .restoreChangeSet _ input => some input.changeSetId
    | _, _ => none)

theorem restoring_call {i : Nat} {id : String} (h : restoring s i = some id) :
    ∃ c v ids input, NextCall s i c v ∧ v.writer = .restoreChangeSet ids input ∧
      input.changeSetId = id := by
  rw [restoring, Option.bind_eq_some_iff] at h
  obtain ⟨⟨p, v⟩, htask, h⟩ := h
  dsimp only at h
  split at h
  · rename_i c k ids input hwriter
    exact ⟨c, v, ids, input, ⟨k, htask⟩, hwriter, Option.some.inj h⟩
  · cases h

/-- The body was later work; the undo succeeds, and the body is what it was before. -/
theorem body_lost : LaterOnly edited "c2" "x" (.data "body") ∧
      (edited.object "x").bind (fun r => r.field (.data "body")) = some (.str "c") ∧
      ((undoTitle.foldl writerStep (started edited)).world.object "x").bind
        (fun r => r.field (.data "body")) = some (.str "a") ∧
      ¬ Admits writerStep RestoreKeeps (started edited) undoTitle := by
  have hthen : ((undoTitle.foldl writerStep (started edited)).world.object "x").bind
      (fun r => r.field (.data "body")) = some (.str "a") := by
    decide +kernel
  refine ⟨by decide +kernel, by decide +kernel, hthen, ?_⟩
  rintro ⟨_, _, _, _, _, hlast, _⟩
  have hrestoring : restoring ((undoTitle.take 5).foldl writerStep (started edited)) 0 =
      some "c2" := by
    decide +kernel
  have hlater : LaterOnly ((undoTitle.take 5).foldl writerStep (started edited)).world "c2" "x"
      (.data "body") := by
    decide +kernel
  have hbefore : (((undoTitle.take 5).foldl writerStep (started edited)).world.object "x").bind
      (fun r => r.field (.data "body")) = some (.str "c") := by
    decide +kernel
  obtain ⟨c, v, ids, input, hcall, hwriter, hid⟩ := restoring_call hrestoring
  have hkeeps := hlast 0 .answered c v ids input rfl hcall hwriter
  rw [hid] at hkeeps
  have hsame := hthen.symm.trans ((hkeeps "x" (.data "body") hlater).trans hbefore)
  exact absurd hsame (by decide)

end History
