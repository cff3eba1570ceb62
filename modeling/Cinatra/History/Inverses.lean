import Cinatra.History.RestoreEngine
import Cinatra.History.Writes

/-! # Inverses — what a restore's transaction makes of an object

    The inverses of a change set are made in one transaction, the last event's first.
    Each is a change of the row its event was about, and what they come to for one
    object depends on its own events and its row only (`transaction_undone`). -/

namespace History

/-! ## One inverse -/

/-- The inverse of a delete. -/
def undeletion (ctx : InverseContext) (event : ObjectChangeEvent) (before : ObjectRow) :
    Statement :=
  .undelete event.objectId event.orgId (inverseEventArgs ctx) ctx.currentVersion before.data
    ((assumedBefore ctx event).map (fun r => { r with deleted := true }))

/-- An event that was a delete. -/
def ObjectChangeEvent.deletes (event : ObjectChangeEvent) : Prop :=
  event.operation = .softDelete ∨ event.operation = .tombstone

/-- An event that has an inverse. -/
def Invertible (event : ObjectChangeEvent) : Prop :=
  event.operation = .create ∨ ∃ before, event.beforeSnapshot = some before ∧
    (event.operation = .update ∨ event.deletes)

variable {event : ObjectChangeEvent} {s : Statement} {ctx : InverseContext} {deleted : Bool}

theorem build_cases (h : buildInverseStatement event ctx = .ok (s, deleted)) :
    (event.operation = .create ∧ deleted = true ∧ s = .softDelete event.objectId event.orgId
        (inverseEventArgs ctx) ctx.currentVersion event.afterSnapshot) ∨
      (∃ before, event.operation = .update ∧ event.beforeSnapshot = some before ∧
        deleted = false ∧ s = .update (inverseWriteArgs ctx event before) ctx.currentVersion
          (assumedBefore ctx event)) ∨
      ∃ before, event.deletes ∧ event.beforeSnapshot = some before ∧ deleted = false ∧
        s = undeletion ctx event before := by
  rw [buildInverseStatement] at h
  cases hop : event.operation with
  | create =>
    rw [hop] at h
    cases h
    exact .inl ⟨rfl, rfl, rfl⟩
  | update =>
    rw [hop] at h
    cases hbefore : event.beforeSnapshot with
    | none =>
      rw [hbefore] at h
      cases h
    | some before =>
      rw [hbefore] at h
      cases h
      exact .inr (.inl ⟨before, rfl, rfl, rfl, rfl⟩)
  | softDelete =>
    rw [hop] at h
    cases hbefore : event.beforeSnapshot with
    | none =>
      rw [hbefore] at h
      cases h
    | some before =>
      rw [hbefore] at h
      cases h
      exact .inr (.inr ⟨before, .inl hop, rfl, rfl, rfl⟩)
  | tombstone =>
    rw [hop] at h
    cases hbefore : event.beforeSnapshot with
    | none =>
      rw [hbefore] at h
      cases h
    | some before =>
      rw [hbefore] at h
      cases h
      exact .inr (.inr ⟨before, .inr hop, rfl, rfl, rfl⟩)
  | restore | hardDelete =>
    rw [hop] at h
    cases h

/-- What the inverse of an event makes of a row. -/
def inverseRow (actor : HistoryActor) (event : ObjectChangeEvent) (r : ObjectRow) : ObjectRow :=
  match event.operation, event.beforeSnapshot with
  | .create, _ => { r with deleted := true, version := r.version + 1 }
  | .update, some before =>
    { r with
      type := event.objectType
      data := before.data
      parentId := before.parentId
      parentType := before.parentType
      columns := fun c => (inverseColumns actor before c).or (r.columns c)
      version := r.version + 1 }
  | .softDelete, some before | .tombstone, some before =>
    { r with deleted := false, data := before.data, version := r.version + 1 }
  | _, _ => r

/-- A statement that inverts an event. -/
structure Inverts (actor : HistoryActor) (event : ObjectChangeEvent) (s : Statement) : Prop where
  invertible : Invertible event
  objectId : s.objectId = event.objectId
  sets : s.sets = inverseRow actor event
  changes : ∀ args, s ≠ .create args

theorem inverts_of_build (h : buildInverseStatement event ctx = .ok (s, deleted)) :
    Inverts ctx.actor event s := by
  rcases build_cases h with ⟨hop, _, rfl⟩ | ⟨before, hop, hbefore, _, rfl⟩ |
    ⟨before, hop, hbefore, _, rfl⟩
  · refine ⟨.inl hop, rfl, funext fun r => ?_, fun _ => Statement.noConfusion⟩
    rw [inverseRow, hop]
    rfl
  · refine ⟨.inr ⟨before, hbefore, .inl hop⟩, rfl, funext fun r => ?_,
      fun _ => Statement.noConfusion⟩
    rw [inverseRow, hop, hbefore]
    rfl
  · refine ⟨.inr ⟨before, hbefore, .inr hop⟩, rfl, funext fun r => ?_,
      fun _ => Statement.noConfusion⟩
    rcases hop with hop | hop
    · rw [inverseRow, hop, hbefore]
      rfl
    · rw [inverseRow, hop, hbefore]
      rfl

/-- What the builder is told of the next event. -/
def nextContext (ids : RestoreIds) (actor : HistoryActor) (seq : Nat) (tracked : Tracked) :
    InverseContext where
  currentVersion := tracked.version
  restoreChangeSetId := ids.changeSetId
  sequence := seq + 1
  eventId := ids.eventId (seq + 1)
  idempotencyKey := "che_restore_" ++ ids.idempotencyKey (seq + 1)
  actor := actor

variable {statements : List Statement} {actor : HistoryActor} {trackers : Trackers}
  {ids : RestoreIds} {seq : Nat}

theorem buildInverses_cons {rest : List ObjectChangeEvent}
    (h : buildInverses ids actor (event :: rest) seq trackers = .statements statements) :
    ∃ tracked s deleted ss, trackers event.objectId = some tracked ∧
      buildInverseStatement event (nextContext ids actor seq tracked) = .ok (s, deleted) ∧
      statements = s :: ss ∧ buildInverses ids actor rest (seq + 1)
        (trackers.bump event.objectId tracked.version deleted) = .statements ss := by
  rw [buildInverses] at h
  cases htracked : trackers event.objectId with
  | none =>
    rw [htracked] at h
    cases h
  | some tracked =>
    rw [htracked] at h
    dsimp only at h
    split at h
    · cases h
    rename_i s deleted hbuilt
    split at h
    · rename_i ss hrest
      cases h
      exact ⟨tracked, s, deleted, ss, rfl, hbuilt, rfl, hrest⟩
    · rename_i hother
      exact absurd h (hother _)

variable {events : List ObjectChangeEvent}

/-- The statements that are built invert the events, each the one in its place. -/
theorem buildInverses_inverts
    (h : buildInverses ids actor events seq trackers = .statements statements) :
    List.Forall₂ (Inverts actor) events statements := by
  induction events generalizing seq trackers statements with
  | nil =>
    rw [buildInverses] at h
    cases h
    exact List.Forall₂.nil
  | cons event rest ih =>
    obtain ⟨tracked, s, deleted, ss, _, hbuilt, rfl, hrest⟩ := buildInverses_cons h
    exact List.Forall₂.cons (inverts_of_build hbuilt) (ih hrest)

/-! ## The transaction of all of them -/

/-- The events undone on a row, the last one first. -/
def undone (actor : HistoryActor) (events : List ObjectChangeEvent) (r : ObjectRow) :
    ObjectRow :=
  events.foldr (inverseRow actor) r

/-- The events of a list on one object. -/
def eventsOn (events : List ObjectChangeEvent) (id : String) : List ObjectChangeEvent :=
  events.filter (fun e => e.objectId = id)

variable {db db' : Db}

theorem Wrote.inverted {row : ObjectRow} (h : Wrote s db db' row) (hkeyed : db.Keyed)
    (hinverts : Inverts actor event s) (id : String) : db'.object id = (db.object id).map (fun r =>
      if event.objectId = id then inverseRow actor event r else r) := by
  obtain ⟨r, hr, _, hrow⟩ := h.found hkeyed hinverts.changes
  rw [h.object hkeyed, hinverts.objectId]
  by_cases hid : id = event.objectId
  · rw [if_pos hid, hid, ← hinverts.objectId, hr, hrow, hinverts.sets]
    simp only [Option.map_some, hinverts.objectId, if_true]
  · rw [if_neg hid]
    simp only [if_neg (Ne.symm hid), Option.map_id']

/-- A row that statements which invert events leave, the first one first. -/
theorem transaction_inverts (hkeyed : db.Keyed)
    (hinverts : List.Forall₂ (Inverts actor) events statements)
    (h : transaction db statements = .ok db') (id : String) :
    db'.object id = (db.object id).map (fun r =>
      events.foldl (fun r e => if e.objectId = id then inverseRow actor e r else r) r) := by
  induction hinverts generalizing db with
  | nil =>
    rw [transaction_nil h]
    simp only [List.foldl_nil, Option.map_id']
  | @cons event s events statements hs _ ih =>
    obtain ⟨db₁, happly, hrest⟩ := transaction_cons h
    obtain ⟨row, hwrote⟩ := apply_ok happly
    rw [ih (hwrote.keyed hkeyed) hrest, hwrote.inverted hkeyed hs, Option.map_map]
    rfl

theorem transaction_found (hkeyed : db.Keyed)
    (hinverts : List.Forall₂ (Inverts actor) events statements)
    (h : transaction db statements = .ok db')
    (hmem : event ∈ events) : ∃ r, db.object event.objectId = some r := by
  induction hinverts generalizing db with
  | nil => cases hmem
  | @cons e s events statements hs _ ih =>
    obtain ⟨db₁, happly, hrest⟩ := transaction_cons h
    obtain ⟨row, hwrote⟩ := apply_ok happly
    obtain ⟨r, hr, _, _⟩ := hwrote.found hkeyed hs.changes
    rw [hs.objectId] at hr
    rcases List.mem_cons.mp hmem with rfl | hmem
    · exact ⟨r, hr⟩
    obtain ⟨r', hr'⟩ := ih (hwrote.keyed hkeyed) hrest hmem
    rw [hwrote.object hkeyed, hs.objectId] at hr'
    split at hr'
    · rename_i hid
      exact ⟨r, hid ▸ hr⟩
    · exact ⟨r', hr'⟩

/-- **What a restore's transaction makes of every object.** -/
theorem transaction_undone (hkeyed : db.Keyed)
    (hbuilt : buildInverses ids actor events.reverse 0 trackers = .statements statements)
    (h : transaction db statements = .ok db') (id : String) :
    db'.object id = (db.object id).map (undone actor (eventsOn events id)) := by
  rw [transaction_inverts hkeyed (buildInverses_inverts hbuilt) h id]
  congr 1
  funext r
  rw [List.foldl_reverse, undone, eventsOn, List.foldr_filter]
  simp only [decide_eq_true_eq]

theorem built_invertible
    (hbuilt : buildInverses ids actor events.reverse 0 trackers = .statements statements) :
    ∀ e ∈ events, Invertible e := by
  have hall : ∀ events statements, List.Forall₂ (Inverts actor) events statements →
      ∀ e ∈ events, Invertible e := by
    intro events statements h
    induction h with
    | nil => exact fun e he => absurd he List.not_mem_nil
    | cons hs _ ih =>
      intro e he
      rcases List.mem_cons.mp he with rfl | he
      · exact hs.invertible
      · exact ih e he
  exact fun e he => hall _ _ (buildInverses_inverts hbuilt) e (List.mem_reverse.mpr he)

end History
