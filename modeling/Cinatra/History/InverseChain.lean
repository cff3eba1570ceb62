import Cinatra.History.Inverses
import Cinatra.History.RestoreRun
import Mathlib.Data.List.Induction

/-! # InverseChain — when the inverses can be built, and made

    The builder stops at the first event, from the end, whose object is gone or that
    has no inverse.  The statements it builds ask for the versions that they leave
    themselves, so in a transaction of their own they find every row, unless its
    deleted state is not the one the inverse is for, or its organization is hidden
    from the event. -/

namespace History

open Process

/-! ## Building -/

def ObjectChangeEvent.hasInverse (event : ObjectChangeEvent) : Bool :=
  match event.operation with
  | .create => true
  | .update | .softDelete | .tombstone => event.beforeSnapshot.isSome
  | .restore | .hardDelete => false

theorem build_hasInverse (event : ObjectChangeEvent) (ctx : InverseContext) :
    (∃ built, buildInverseStatement event ctx = .ok built) ↔ event.hasInverse = true := by
  unfold buildInverseStatement ObjectChangeEvent.hasInverse
  cases event.operation <;> cases event.beforeSnapshot <;> simp

/-- The event the builder stops at. -/
def stuckAt (trackers : Trackers) (events : List ObjectChangeEvent) : Option ObjectChangeEvent :=
  events.find? (fun e => (trackers e.objectId).isNone || !e.hasInverse)

variable {deleted : Bool} {trackers : Trackers} {id : String}

theorem bump_isNone {version : Nat} (h : (trackers id).isNone = false) (id' : String) :
    (trackers.bump id version deleted id').isNone = (trackers id').isNone := by
  rw [Trackers.bump]
  by_cases hid : id' = id
  · rw [hid, Function.update_self, h]
    rfl
  · rw [Function.update_of_ne hid]

/-- **What the building of the inverses comes to.** -/
theorem buildInverses_eq (ids : RestoreIds) (actor : HistoryActor)
    (events : List ObjectChangeEvent) (seq : Nat) (trackers : Trackers) :
    (stuckAt trackers events = none ∧
        ∃ statements, buildInverses ids actor events seq trackers = .statements statements) ∨
      ∃ e, stuckAt trackers events = some e ∧ (((trackers e.objectId).isNone = true ∧
            buildInverses ids actor events seq trackers = .missing e.objectId) ∨
          (trackers e.objectId).isNone = false ∧
            ∃ err, buildInverses ids actor events seq trackers = .thrown err) := by
  induction events generalizing seq trackers with
  | nil => exact .inl ⟨rfl, [], rfl⟩
  | cons event rest ih =>
    rw [stuckAt, List.find?_cons, buildInverses]
    cases htracked : trackers event.objectId with
    | none => exact .inr ⟨event, rfl, .inl ⟨by rw [htracked]; rfl, rfl⟩⟩
    | some tracked =>
      have hthere : (trackers event.objectId).isNone = false := by
        rw [htracked]
        rfl
      cases hinverse : event.hasInverse with
      | false =>
        refine .inr ⟨event, rfl, .inr ⟨hthere, ?_⟩⟩
        dsimp only
        split
        · exact ⟨_, rfl⟩
        · rename_i hbuilt
          have := (build_hasInverse event _).mp ⟨_, hbuilt⟩
          rw [hinverse] at this
          cases this
      | true =>
        obtain ⟨⟨s, deleted⟩, hbuilt⟩ := (build_hasInverse event
          (nextContext ids actor seq tracked)).mpr hinverse
        have hstuck : stuckAt (trackers.bump event.objectId tracked.version deleted) rest =
            stuckAt trackers rest := by
          rw [stuckAt, stuckAt]
          congr 1
          funext e
          rw [bump_isNone hthere]
        rw [nextContext] at hbuilt
        dsimp only
        rw [hbuilt]
        rcases ih (seq + 1) (trackers.bump event.objectId tracked.version deleted) with
          ⟨hnone, ss, hss⟩ | ⟨e, he, ⟨hgone, hmissing⟩ | ⟨hhere, err, hthrown⟩⟩
        · refine .inl ⟨hstuck.symm.trans hnone, s :: ss, ?_⟩
          dsimp only
          rw [hss]
        · refine .inr ⟨e, hstuck.symm.trans he, .inl ⟨?_, ?_⟩⟩
          · rw [← bump_isNone hthere]
            exact hgone
          · dsimp only
            rw [hmissing]
        · refine .inr ⟨e, hstuck.symm.trans he, .inr ⟨?_, err, ?_⟩⟩
          · rw [← bump_isNone hthere]
            exact hhere
          · dsimp only
            rw [hthrown]

/-- A row that the inverse of an event finds. -/
structure Ready (event : ObjectChangeEvent) (r : ObjectRow) : Prop where
  visible : visibleTo event.orgId r.orgId = true
  live : event.operation = .create → r.deleted = false
  deleted : event.deletes → r.deleted = true

variable {event : ObjectChangeEvent} {s : Statement} {r : ObjectRow} {ctx : InverseContext}

theorem finds_iff (h : buildInverseStatement event ctx = .ok (s, deleted)) : s.finds r = true ↔
      (r.id = event.objectId ∧ r.version = ctx.currentVersion) ∧ Ready event r := by
  rcases build_cases h with ⟨hop, _, rfl⟩ | ⟨before, hop, _, _, rfl⟩ | ⟨before, hop, _, _, rfl⟩
  · simp only [Statement.finds, Bool.and_eq_true, decide_eq_true_eq, Bool.not_eq_true']
    constructor
    · rintro ⟨⟨⟨hid, hversion⟩, hvisible⟩, hlive⟩
      refine ⟨⟨hid, hversion⟩, hvisible, fun _ => hlive, fun hdeletes => ?_⟩
      rcases hdeletes with hdelete | hdelete <;> cases hop.symm.trans hdelete
    · rintro ⟨⟨hid, hversion⟩, hready⟩
      exact ⟨⟨⟨hid, hversion⟩, hready.visible⟩, hready.live hop⟩
  · simp only [Statement.finds, Bool.and_eq_true, decide_eq_true_eq]
    constructor
    · rintro ⟨hkey, hvisible⟩
      refine ⟨hkey, hvisible, fun hcreate => ?_, fun hdeletes => ?_⟩
      · cases hop.symm.trans hcreate
      · rcases hdeletes with hdelete | hdelete <;> cases hop.symm.trans hdelete
    · rintro ⟨hkey, hready⟩
      exact ⟨hkey, hready.visible⟩
  · simp only [undeletion, Statement.finds, Bool.and_eq_true, decide_eq_true_eq]
    constructor
    · rintro ⟨⟨hkey, hvisible⟩, hdeleted⟩
      refine ⟨hkey, hvisible, fun hcreate => ?_, fun _ => hdeleted⟩
      rcases hop with hdelete | hdelete <;> cases hdelete.symm.trans hcreate
    · rintro ⟨hkey, hready⟩
      exact ⟨⟨hkey, hready.visible⟩, hready.deleted hop⟩

/-! ## New events -/

/-- The ids of a restore, from some number on, are not in the log. -/
structure FreshFrom (ids : RestoreIds) (n : Nat) (db : Db) : Prop where
  id : ∀ e ∈ db.events, ∀ m, n < m → e.id ≠ ids.eventId m
  key : ∀ e ∈ db.events, ∀ m, n < m → e.idempotencyKey ≠ "che_restore_" ++ ids.idempotencyKey m
  sequence : ∀ e ∈ db.events, ∀ m, n < m → e.changeSetId = ids.changeSetId → e.sequence ≠ m

/-- No id is minted twice. -/
structure RestoreIds.Distinct (ids : RestoreIds) : Prop where
  eventId : ids.eventId.Injective
  idempotencyKey : ids.idempotencyKey.Injective

theorem build_record (h : buildInverseStatement event ctx = .ok (s, deleted)) (row : ObjectRow) :
    (s.record row).id = ctx.eventId ∧ (s.record row).idempotencyKey = ctx.idempotencyKey ∧
      (s.record row).changeSetId = ctx.restoreChangeSetId ∧
      (s.record row).sequence = ctx.sequence := by
  rcases build_cases h with ⟨_, _, rfl⟩ | ⟨_, _, _, _, rfl⟩ | ⟨_, _, _, _, rfl⟩
  · exact ⟨rfl, rfl, rfl, rfl⟩
  · exact ⟨rfl, rfl, rfl, rfl⟩
  · exact ⟨rfl, rfl, rfl, rfl⟩

variable {actor : HistoryActor} {tracked : Tracked} {ids : RestoreIds} {seq : Nat} {db : Db}

theorem FreshFrom.unclashed (h : FreshFrom ids seq db)
    (hbuilt : buildInverseStatement event (nextContext ids actor seq tracked) = .ok (s, deleted))
    (row : ObjectRow) : ∀ e ∈ db.events, clashes (s.record row) e = false := by
  obtain ⟨hid, hkey, hset, hsequence⟩ := build_record hbuilt row
  intro e he
  rw [clashes, hid, hkey, hset, hsequence, Bool.or_eq_false_iff, Bool.or_eq_false_iff]
  refine ⟨⟨decide_eq_false (Ne.symm (h.id e he _ (Nat.lt_succ_self seq))),
    decide_eq_false (Ne.symm (h.key e he _ (Nat.lt_succ_self seq)))⟩, ?_⟩
  rw [Bool.and_eq_false_iff]
  by_cases hsame : e.changeSetId = ids.changeSetId
  · exact .inr (decide_eq_false (Ne.symm (h.sequence e he _ (Nat.lt_succ_self seq) hsame)))
  · exact .inl (decide_eq_false (Ne.symm hsame))

variable {db' : Db}

theorem FreshFrom.next (hdistinct : ids.Distinct) {row : ObjectRow} (h : FreshFrom ids seq db)
    (hbuilt : buildInverseStatement event (nextContext ids actor seq tracked) = .ok (s, deleted))
    (hwrote : Wrote s db db' row) : FreshFrom ids (seq + 1) db' := by
  obtain ⟨hid, hkey, hset, hsequence⟩ := build_record hbuilt row
  have hevents : ∀ e ∈ db'.events, e ∈ db.events ∨ e = s.record row := by
    intro e he
    rw [hwrote.events] at he
    exact (List.mem_append.mp he).imp_right List.mem_singleton.mp
  refine ⟨fun e he m hm => ?_, fun e he m hm => ?_, fun e he m hm => ?_⟩
  · rcases hevents e he with hold | rfl
    · exact h.id e hold m (Nat.lt_of_succ_lt hm)
    · rw [hid]
      exact fun hsame => Nat.ne_of_lt hm (hdistinct.eventId hsame)
  · rcases hevents e he with hold | rfl
    · exact h.key e hold m (Nat.lt_of_succ_lt hm)
    · rw [hkey]
      intro hsame
      exact Nat.ne_of_lt hm (hdistinct.idempotencyKey (String.append_right_inj _ |>.mp hsame))
  · rcases hevents e he with hold | rfl
    · exact h.sequence e hold m (Nat.lt_of_succ_lt hm)
    · rw [hsequence]
      exact fun _ => Nat.ne_of_lt hm

/-! ## The transaction -/

/-- The versions that are tracked are those of the rows. -/
def Tracks (trackers : Trackers) (db : Db) : Prop :=
  ∀ id tracked, trackers id = some tracked → ∃ r, db.object id = some r ∧
    r.version = tracked.version

/-- Something holds of every event, and the row it is undone on when its turn comes. -/
def AtTurn (P : ObjectChangeEvent → ObjectRow → Prop) (actor : HistoryActor)
    (events : List ObjectChangeEvent) (db : Db) : Prop :=
  ∀ before e after, events = before ++ e :: after → ∀ r, db.object e.objectId = some r →
    P e (undone actor (eventsOn after e.objectId) r)

/-- Every event is ready to be undone when its turn comes. -/
def AllReady : HistoryActor → List ObjectChangeEvent → Db → Prop := AtTurn Ready

theorem inverseRow_version (r : ObjectRow)
    (h : Invertible event) : (inverseRow actor event r).version = r.version + 1 := by
  rcases h with hop | ⟨before, hbefore, hop | hop | hop⟩
  · rw [inverseRow, hop]
  · rw [inverseRow, hop, hbefore]
  · rw [inverseRow, hop, hbefore]
  · rw [inverseRow, hop, hbefore]

variable {events : List ObjectChangeEvent}

theorem undone_concat (r : ObjectRow) :
    undone actor (eventsOn (events ++ [event]) id) r = undone actor (eventsOn events id)
      (if event.objectId = id then inverseRow actor event r else r) := by
  rw [eventsOn, List.filter_append, undone, List.foldr_append, undone, eventsOn]
  congr 1
  by_cases hid : event.objectId = id
  · rw [if_pos hid, List.filter_singleton, decide_eq_true hid]
    rfl
  · rw [if_neg hid, List.filter_singleton, decide_eq_false hid]
    rfl

theorem atTurn_concat {P : ObjectChangeEvent → ObjectRow → Prop}
    (hr : db.object event.objectId = some r)
    (hleft : ∀ id, db'.object id = (db.object id).map (fun r =>
      if event.objectId = id then inverseRow actor event r else r)) :
    AtTurn P actor (events ++ [event]) db ↔ P event r ∧ AtTurn P actor events db' := by
  constructor
  · intro h
    refine ⟨h events event [] rfl r hr, fun before e after hsplit r' hr' => ?_⟩
    rw [hleft, Option.map_eq_some_iff] at hr'
    obtain ⟨r₀, hr₀, rfl⟩ := hr'
    have hready := h before e (after ++ [event]) (by rw [hsplit]; simp) r₀ hr₀
    rwa [undone_concat] at hready
  · rintro ⟨hready, hall⟩ before e after hsplit r' hr'
    rcases List.eq_nil_or_concat after with rfl | ⟨after, x, rfl⟩
    · obtain ⟨_, hlast⟩ := List.append_inj' hsplit rfl
      cases hlast
      cases hr.symm.trans hr'
      exact hready
    · rw [List.concat_eq_append] at hsplit ⊢
      have hsplit' : events ++ [event] = (before ++ e :: after) ++ [x] := by
        rw [hsplit]
        simp
      obtain ⟨hevents, hlast⟩ := List.append_inj' hsplit' rfl
      cases hlast
      rw [undone_concat]
      refine hall before e after hevents _ ?_
      rw [hleft, hr', Option.map_some]

theorem Tracks.next (h : Tracks trackers db)
    (hinvertible : Invertible event) (hr : db.object event.objectId = some r)
    (hversion : r.version = tracked.version)
    (hleft : ∀ id, db'.object id = (db.object id).map (fun r =>
      if event.objectId = id then inverseRow actor event r else r)) :
    Tracks (trackers.bump event.objectId tracked.version deleted) db' := by
  intro id tracked' htracked
  rw [Trackers.bump] at htracked
  rcases update_cases htracked with ⟨hid, htracked⟩ | ⟨hid, htracked⟩
  · cases htracked
    refine ⟨inverseRow actor event r, ?_, ?_⟩
    · rw [hleft, hid, hr, Option.map_some, if_pos rfl]
    · rw [inverseRow_version r hinvertible, hversion]
  · obtain ⟨r', hr', hversion'⟩ := h id tracked' htracked
    refine ⟨r', ?_, hversion'⟩
    rw [hleft, hr', Option.map_some, if_neg (Ne.symm hid)]

/-- **The inverses are made exactly when every event is ready to be undone.** -/
theorem transaction_ok_iff (hdistinct : ids.Distinct)
    {statements : List Statement} (hkeyed : db.Keyed) (hfresh : FreshFrom ids seq db)
    (htracks : Tracks trackers db)
    (hbuilt : buildInverses ids actor events.reverse seq trackers = .statements statements) :
    (∃ db', transaction db statements = .ok db') ↔ AllReady actor events db := by
  induction events using List.reverseRecOn generalizing seq trackers statements db with
  | nil =>
    rw [List.reverse_nil, buildInverses] at hbuilt
    cases hbuilt
    refine iff_of_true ⟨db, rfl⟩ fun before e after hsplit => ?_
    exact absurd hsplit.symm (by simp)
  | append_singleton events event ih =>
    rw [List.reverse_append, List.reverse_singleton, List.singleton_append] at hbuilt
    obtain ⟨tracked, s, deleted, ss, htracked, hs, rfl, hrest⟩ := buildInverses_cons hbuilt
    obtain ⟨r, hr, hversion⟩ := htracks _ _ htracked
    have hinverts := inverts_of_build hs
    have hfinds : s.finds r = true ↔ Ready event r :=
      (finds_iff hs).trans (and_iff_right ⟨object_id hr, hversion⟩)
    have hobject : db.object s.objectId = some r := by
      rw [hinverts.objectId]
      exact hr
    -- what follows the first statement, wherever that has left a row
    have hnext : ∀ db₁ row, Wrote s db db₁ row →
        ((∃ db', transaction db₁ ss = .ok db') ↔ AllReady actor events db₁) ∧
          (AllReady actor (events ++ [event]) db ↔ Ready event r ∧ AllReady actor events db₁) := by
      intro db₁ row hwrote
      have hleft := hwrote.inverted hkeyed hinverts
      exact ⟨ih (hwrote.keyed hkeyed) (hfresh.next hdistinct hs hwrote)
        (htracks.next hinverts.invertible hr hversion hleft) hrest, atTurn_concat hr hleft⟩
    constructor
    · rintro ⟨db', h⟩
      obtain ⟨db₁, happly, hthen⟩ := transaction_cons h
      obtain ⟨row, hwrote⟩ := apply_ok happly
      obtain ⟨hiff, hall⟩ := hnext db₁ row hwrote
      obtain ⟨r', hr', hfound, _⟩ := hwrote.found hkeyed hinverts.changes
      cases hobject.symm.trans hr'
      exact hall.mpr ⟨hfinds.mp hfound, hiff.mp ⟨db', hthen⟩⟩
    · intro hready
      have hfirst : Ready event r := hready events event [] rfl r hr
      obtain ⟨db₁, happly⟩ := apply_found hinverts.changes
        ((find_finds hkeyed).mpr ⟨hobject, hfinds.mpr hfirst⟩) (hfresh.unclashed hs _)
      obtain ⟨row, hwrote⟩ := apply_ok happly
      obtain ⟨hiff, hall⟩ := hnext db₁ row hwrote
      obtain ⟨db', hthen⟩ := hiff.mpr (hall.mp hready).2
      refine ⟨db', ?_⟩
      rw [transaction, List.foldlM_cons, happly]
      exact hthen

end History
