import Cinatra.History.Inverses
import Cinatra.History.RestoreRun

/-! # Undo — does a restore bring back the state before

    The data always come back, and what was created is deleted.  The other fields
    come back where the inverses write what was there before: an inverse update
    writes the type its event left, leaves a column alone where the column was null,
    gives the run of whoever restores, and gives no agent and no version; an inverse
    of a delete writes the data only. -/

namespace History

open Process

/-- What an update wrote over: the type is the one it left. -/
def ObjectChangeEvent.updated (event : ObjectChangeEvent) : Option (String × ObjectRow) :=
  match event.operation with
  | .update => event.beforeSnapshot.map (fun before => (event.objectType, before))
  | _ => none

/-- The row whose data the inverse of an event writes. -/
def ObjectChangeEvent.replaced (event : ObjectChangeEvent) : Option ObjectRow :=
  match event.operation with
  | .update | .softDelete | .tombstone => event.beforeSnapshot
  | _ => none

/-- Whether the inverse of an event deletes its object, or brings it back. -/
def ObjectChangeEvent.flagged (event : ObjectChangeEvent) : Option Bool :=
  match event.operation with
  | .create => some true
  | .softDelete | .tombstone => some false
  | _ => none

/-! ### One event -/

section OneEvent

variable (actor : HistoryActor) (event : ObjectChangeEvent) (r : ObjectRow)

theorem inverseRow_type : (inverseRow actor event r).type = event.updated.elim r.type Prod.fst := by
  unfold inverseRow ObjectChangeEvent.updated
  cases event.operation <;> cases event.beforeSnapshot <;> rfl

theorem inverseRow_data :
    (inverseRow actor event r).data = event.replaced.elim r.data ObjectRow.data := by
  unfold inverseRow ObjectChangeEvent.replaced
  cases event.operation <;> cases event.beforeSnapshot <;> rfl

theorem inverseRow_parentId : (inverseRow actor event r).parentId =
    event.updated.elim r.parentId (fun u => u.2.parentId) := by
  unfold inverseRow ObjectChangeEvent.updated
  cases event.operation <;> cases event.beforeSnapshot <;> rfl

theorem inverseRow_parentType : (inverseRow actor event r).parentType =
    event.updated.elim r.parentType (fun u => u.2.parentType) := by
  unfold inverseRow ObjectChangeEvent.updated
  cases event.operation <;> cases event.beforeSnapshot <;> rfl

theorem inverseRow_columns (c : Column) : (inverseRow actor event r).columns c =
    (event.updated.bind (fun u => inverseColumns actor u.2 c)).or (r.columns c) := by
  unfold inverseRow ObjectChangeEvent.updated
  cases event.operation <;> cases event.beforeSnapshot <;> rfl

variable {event}

theorem inverseRow_deleted (h : Invertible event) :
    (inverseRow actor event r).deleted = event.flagged.getD r.deleted := by
  rcases h with hop | ⟨before, hbefore, hop | hop | hop⟩
  · rw [inverseRow, ObjectChangeEvent.flagged, hop]
    rfl
  · rw [inverseRow, ObjectChangeEvent.flagged, hop, hbefore]
    rfl
  · rw [inverseRow, ObjectChangeEvent.flagged, hop, hbefore]
    rfl
  · rw [inverseRow, ObjectChangeEvent.flagged, hop, hbefore]
    rfl

end OneEvent

/-- What the events of a list, undone on a row, make of it. -/
structure WrittenBack (actor : HistoryActor) (events : List ObjectChangeEvent)
    (r row : ObjectRow) : Prop where
  type : row.type = (events.findSome? ObjectChangeEvent.updated).elim r.type Prod.fst
  data : row.data = (events.findSome? ObjectChangeEvent.replaced).elim r.data ObjectRow.data
  parentId : row.parentId =
    (events.findSome? ObjectChangeEvent.updated).elim r.parentId (fun u => u.2.parentId)
  parentType : row.parentType =
    (events.findSome? ObjectChangeEvent.updated).elim r.parentType (fun u => u.2.parentType)
  columns : ∀ c, row.columns c = (events.findSome? (fun e =>
    e.updated.bind (fun u => inverseColumns actor u.2 c))).or (r.columns c)
  deleted : row.deleted = (events.findSome? ObjectChangeEvent.flagged).getD r.deleted

theorem findSome?_cons_or {α β : Type} (a : α) (l : List α) (f : α → Option β) :
    (a :: l).findSome? f = (f a).or (l.findSome? f) := by
  rw [List.findSome?_cons]
  cases f a with
  | none | some => rfl

theorem elim_or {α β : Type} (o o' : Option α) (b : β) (f : α → β) :
    (o.or o').elim b f = o.elim (o'.elim b f) f := by
  cases o with
  | none | some => rfl

variable {events : List ObjectChangeEvent}

/-- **Each field is what the first event writes whose inverse writes it.** -/
theorem writtenBack_undone (actor : HistoryActor)
    (hinvertible : ∀ e ∈ events, Invertible e) (r : ObjectRow) :
    WrittenBack actor events r (undone actor events r) := by
  induction events with
  | nil => exact ⟨rfl, rfl, rfl, rfl, fun _ => rfl, rfl⟩
  | cons event events ih =>
    have h := ih fun e he => hinvertible e (List.mem_cons_of_mem event he)
    have hrow : undone actor (event :: events) r =
      inverseRow actor event (undone actor events r) := rfl
    rw [hrow]
    refine ⟨?_, ?_, ?_, ?_, fun c => ?_, ?_⟩
    · rw [inverseRow_type, h.type, findSome?_cons_or, elim_or]
    · rw [inverseRow_data, h.data, findSome?_cons_or, elim_or]
    · rw [inverseRow_parentId, h.parentId, findSome?_cons_or, elim_or]
    · rw [inverseRow_parentType, h.parentType, findSome?_cons_or, elim_or]
    · rw [inverseRow_columns, h.columns, findSome?_cons_or, Option.or_assoc]
    · rw [inverseRow_deleted _ _ (hinvertible event (.head _)), h.deleted,
        findSome?_cons_or, Option.getD_or]

/-! ## The state before -/

/-- The object is as a snapshot shows it. -/
structure SameState (row before : ObjectRow) : Prop where
  type : row.type = before.type
  data : row.data = before.data
  parentId : row.parentId = before.parentId
  parentType : row.parentType = before.parentType
  columns : row.columns = before.columns
  deleted : row.deleted = before.deleted

/-- An object with these events is as it was before the first of them: deleted, if that
    created it. -/
structure BroughtBack (events : List ObjectChangeEvent) (now : Option ObjectRow) : Prop where
  created : ∀ first ∈ events.head?, first.operation = .create → ∃ row ∈ now, row.deleted = true
  existing : ∀ first ∈ events.head?, first.operation ≠ .create →
    ∃ row ∈ now, ∃ before ∈ first.beforeSnapshot, SameState row before

/-- No inverse of the events leaves a field other than it was before. -/
structure Recoverable (actor : HistoryActor) (events : List ObjectChangeEvent)
    (row before : ObjectRow) : Prop where
  /-- The first update has left the type as it was. -/
  type : (events.findSome? ObjectChangeEvent.updated).elim row.type Prod.fst = before.type
  parentId : (events.findSome? ObjectChangeEvent.updated).elim row.parentId
    (fun u => u.2.parentId) = before.parentId
  parentType : (events.findSome? ObjectChangeEvent.updated).elim row.parentType
    (fun u => u.2.parentType) = before.parentType
  /-- An update is undone in the name of the run of whoever restores. -/
  runId : ((events.findSome? ObjectChangeEvent.updated).bind (fun _ => actor.runId)).or
    (row.columns .runId) = before.columns .runId
  /-- The agent and its versions are left as they are now. -/
  agent : row.columns .agentId = before.columns .agentId ∧
    row.columns .packageVersion = before.columns .packageVersion ∧
    row.columns .agentSpecVersion = before.columns .agentSpecVersion
  /-- The others are what they were before the first update that found them not null. -/
  columns : ∀ c, c = .createdBy ∨ c = .source ∨ c = .projectId ∨ c = .ownerLevel ∨
    c = .ownerId ∨ c = .visibility →
    (events.findSome? (fun e => e.updated.bind (fun u => u.2.columns c))).or (row.columns c) =
      before.columns c
  deleted : (events.findSome? ObjectChangeEvent.flagged).getD row.deleted = before.deleted

/-- Of an object that the events did not create. -/
def RecoverableObject (actor : HistoryActor) (events : List ObjectChangeEvent)
    (now : Option ObjectRow) : Prop :=
  ∀ first ∈ events.head?, first.operation ≠ .create →
    ∀ row ∈ now, ∀ before ∈ first.beforeSnapshot, Recoverable actor events row before

theorem findSome?_bind_const {α β γ : Type} (l : List α) (f : α → Option β) (o : Option γ) :
    l.findSome? (fun a => (f a).bind (fun _ => o)) = (l.findSome? f).bind (fun _ => o) := by
  induction l with
  | nil => rfl
  | cons a l ih =>
    rw [findSome?_cons_or, findSome?_cons_or, ih]
    cases f a with
    | none => rfl
    | some b =>
      cases o with
      | none =>
        cases l.findSome? f with
        | none | some => rfl
      | some c => rfl

variable {actor : HistoryActor}

/-- The data come back, and so the object does if no inverse spoils it. -/
theorem sameState_iff {r row before : ObjectRow} (h : WrittenBack actor events r row)
    (hdata : row.data = before.data) :
    SameState row before ↔ Recoverable actor events r before := by
  have hrun : row.columns .runId = ((events.findSome? ObjectChangeEvent.updated).bind
      (fun _ => actor.runId)).or (r.columns .runId) := by
    rw [h.columns, ← findSome?_bind_const]
    rfl
  have hagent : ∀ c, c = .agentId ∨ c = .packageVersion ∨ c = .agentSpecVersion →
      row.columns c = r.columns c := by
    intro c hc
    have hnone : (events.findSome? (fun e => e.updated.bind (fun u =>
        inverseColumns actor u.2 c))) = none := by
      rw [List.findSome?_eq_none_iff]
      intro e _
      cases e.updated with
      | none => rfl
      | some u => rcases hc with rfl | rfl | rfl <;> rfl
    rw [h.columns, hnone, Option.none_or]
  have hcolumns : ∀ c, c = .createdBy ∨ c = .source ∨ c = .projectId ∨ c = .ownerLevel ∨
      c = .ownerId ∨ c = .visibility → row.columns c =
        (events.findSome? (fun e => e.updated.bind (fun u => u.2.columns c))).or
          (r.columns c) := by
    intro c hc
    rw [h.columns]
    rcases hc with rfl | rfl | rfl | rfl | rfl | rfl <;> rfl
  constructor
  · intro hsame
    have hcolumn : ∀ c, row.columns c = before.columns c := congrFun hsame.columns
    exact
      { type := h.type.symm.trans hsame.type
        parentId := h.parentId.symm.trans hsame.parentId
        parentType := h.parentType.symm.trans hsame.parentType
        runId := hrun.symm.trans (hcolumn .runId)
        agent := ⟨(hagent _ (.inl rfl)).symm.trans (hcolumn _),
          (hagent _ (.inr (.inl rfl))).symm.trans (hcolumn _),
          (hagent _ (.inr (.inr rfl))).symm.trans (hcolumn _)⟩
        columns := fun c hc => (hcolumns c hc).symm.trans (hcolumn c)
        deleted := h.deleted.symm.trans hsame.deleted }
  · intro hrec
    refine ⟨h.type.trans hrec.type, hdata, h.parentId.trans hrec.parentId,
      h.parentType.trans hrec.parentType, funext fun c => ?_, h.deleted.trans hrec.deleted⟩
    cases c with
    | runId => exact hrun.trans hrec.runId
    | agentId => exact (hagent _ (.inl rfl)).trans hrec.agent.1
    | packageVersion => exact (hagent _ (.inr (.inl rfl))).trans hrec.agent.2.1
    | agentSpecVersion => exact (hagent _ (.inr (.inr rfl))).trans hrec.agent.2.2
    | createdBy | source | projectId | ownerLevel | ownerId | visibility =>
      exact (hcolumns _ (by decide)).trans (hrec.columns _ (by decide))

theorem restored_iff {r : ObjectRow} (hinvertible : ∀ e ∈ events, Invertible e) :
    BroughtBack events (some (undone actor events r)) ↔
      RecoverableObject actor events (some r) := by
  have hback := writtenBack_undone actor hinvertible r
  cases events with
  | nil =>
    refine iff_of_true ⟨?_, ?_⟩ ?_
    · rintro first ⟨⟩
    · rintro first ⟨⟩
    · rintro first ⟨⟩
  | cons first events =>
    by_cases hop : first.operation = .create
    · refine iff_of_true ⟨?_, ?_⟩ ?_
      · rintro _ ⟨⟩ _
        refine ⟨_, rfl, ?_⟩
        rw [hback.deleted, findSome?_cons_or, ObjectChangeEvent.flagged, hop]
        rfl
      · rintro _ ⟨⟩ hne
        exact absurd hop hne
      · rintro _ ⟨⟩ hne
        exact absurd hop hne
    · obtain ⟨before, hbefore, hchange⟩ :=
        (hinvertible first (.head _)).resolve_left hop
      have hreplaced : first.replaced = some before := by
        rcases hchange with hop | hop | hop <;>
          rw [ObjectChangeEvent.replaced, hop, hbefore]
      have hdata : (undone actor (first :: events) r).data = before.data := by
        rw [hback.data, findSome?_cons_or, hreplaced]
        rfl
      constructor
      · rintro hrestored _ ⟨⟩ _ _ ⟨⟩ b hb
        obtain ⟨_, ⟨⟩, b', hb', hsame⟩ := hrestored.existing first rfl hop
        cases hb.symm.trans hb'
        cases hb.symm.trans hbefore
        exact (sameState_iff hback hdata).mp hsame
      · intro hrec
        refine ⟨?_, ?_⟩
        · rintro _ ⟨⟩ hcreate
          exact absurd hcreate hop
        · rintro _ ⟨⟩ _
          refine ⟨_, rfl, before, hbefore, ?_⟩
          exact (sameState_iff hback hdata).mpr (hrec first rfl hop r rfl before hbefore)

/-- **A restore that succeeds brings back the state before, exactly when no inverse leaves a
    field other than it was.** -/
theorem undo_restores {ids : RestoreIds} {input : RestoreChangeSetInput} {faults : Nat → Fault}
    {db db' : Db} {result : RestoreResult} (hkeyed : db.Keyed)
    (hrun : run history (restoreChangeSet ids input) faults db = (.ok result, db')) :
    (∀ id, BroughtBack (eventsOn (db.changes input) id) (db'.object id)) ↔
      ∀ id, RecoverableObject input.actor (eventsOn (db.changes input) id) (db.object id) := by
  obtain ⟨statements, db₁, hbuilt, htransaction, hobjects, _⟩ := restore_result hrun
  have hopened : (db.opened ids input).Keyed := hkeyed
  refine forall_congr' fun id => ?_
  have hobject : db'.object id =
      (db.object id).map (undone input.actor (eventsOn (db.changes input) id)) := by
    rw [Db.object, hobjects]
    exact transaction_undone hopened hbuilt htransaction id
  have hinvertible : ∀ e ∈ eventsOn (db.changes input) id, Invertible e := fun e he =>
    built_invertible hbuilt e (List.mem_filter.mp he).1
  cases hr : db.object id with
  | some r =>
    rw [hobject, hr]
    exact restored_iff hinvertible
  | none =>
    -- an object that is gone has no events here: its inverse would have found no row
    have hnil : eventsOn (db.changes input) id = [] := by
      rw [eventsOn, List.filter_eq_nil_iff]
      intro e he hid
      rw [decide_eq_true_eq] at hid
      obtain ⟨r, hfound⟩ := transaction_found hopened (buildInverses_inverts hbuilt)
        htransaction (List.mem_reverse.mpr he)
      rw [hid] at hfound
      exact absurd (hr.symm.trans hfound) (by simp)
    rw [hnil]
    refine iff_of_true ⟨?_, ?_⟩ ?_
    · rintro first ⟨⟩
    · rintro first ⟨⟩
    · rintro first ⟨⟩

/-! ### A type that is changed -/

def retyper : HistoryActor := { actorId := some "u1", orgId := some "o1" }

/-- The ids of a write, or of a restore, are its name and a number. -/
def mintedFor (name : String) : Minted where
  changeSetId := name
  eventId := name ++ "-1"
  idempotencyKey := name ++ "-k"

def restoreIdsFor (name : String) : RestoreIds where
  changeSetId := name
  eventId n := name ++ "-" ++ toString n
  idempotencyKey n := name ++ "-k" ++ toString n

/-- A note is made, and then a task made of it. -/
def retyped : Db :=
  (run history (do
    let _ ← historyAwareUpsert (mintedFor "c1") none { id := "x", type := "note", data := [] }
      { expectedBaseVersion := none, actor := retyper }
    historyAwareUpsert (mintedFor "c2") none { id := "x", type := "task", data := [] }
      { expectedBaseVersion := some 1, actor := retyper }) (fun _ => .answered) {}).2

/-- The second change is undone. -/
def retypedInput : RestoreChangeSetInput where
  changeSetId := "c2"
  actor := retyper

def retypedUndone : Except HistoryError RestoreResult × Db :=
  run history (restoreChangeSet (restoreIdsFor "c3") retypedInput) (fun _ => .answered) retyped

theorem undo_restores_retyped : retyped.Keyed ∧
    ((∀ id, BroughtBack (eventsOn (retyped.changes retypedInput) id) (retypedUndone.2.object id)) ↔
      ∀ id, RecoverableObject retyper (eventsOn (retyped.changes retypedInput) id)
        (retyped.object id)) := by
  have hkeyed : retyped.Keyed := by
    unfold Db.Keyed
    decide +kernel
  have hresult : retypedUndone.1 = .ok
      { restoreChangeSetId := "c3", appliedEventCount := 1, affectedObjects := ["x"] } := by
    decide +kernel
  exact ⟨hkeyed, undo_restores hkeyed (Prod.ext hresult rfl)⟩

/-- The restore succeeds, nobody has changed the object since, and it is still a task. -/
theorem retyped_stays : retypedUndone.1 = .ok
        { restoreChangeSetId := "c3", appliedEventCount := 1, affectedObjects := ["x"] } ∧
      (retyped.object "x").map ObjectRow.version = some 2 ∧
      (retyped.changes retypedInput).map ObjectChangeEvent.resultVersion = [2] ∧
      ¬ ∀ id, BroughtBack (eventsOn (retyped.changes retypedInput) id)
        (retypedUndone.2.object id) := by
  refine ⟨by decide +kernel, by decide +kernel, by decide +kernel, fun h => ?_⟩
  have hfirst : (eventsOn (retyped.changes retypedInput) "x").head?.map (fun e =>
      (e.operation, e.beforeSnapshot.map ObjectRow.type)) = some (.update, some "note") := by
    decide +kernel
  have hnow : (retypedUndone.2.object "x").map ObjectRow.type = some "task" := by decide +kernel
  obtain ⟨first, hhead, hpair⟩ := Option.map_eq_some_iff.mp hfirst
  obtain ⟨hop, hbefore⟩ := Prod.mk.inj hpair
  obtain ⟨row, hrow, before, hsnapshot, hsame⟩ := (h "x").existing first hhead
    (fun hcreate => by cases hop.symm.trans hcreate)
  rw [Option.mem_def] at hrow hsnapshot
  rw [hrow, Option.map_some] at hnow
  rw [hsnapshot, Option.map_some] at hbefore
  have htype : some "task" = some "note" := by
    rw [← hnow, ← hbefore, hsame.type]
  exact absurd htype (by decide)

end History
