import Cinatra.History.RestoreEngine
import Cinatra.History.Writes

/-! # RestoreRun — how a restore runs

    A restore with nobody else at work makes its calls in a fixed order: two reads,
    the container, one read an object, the transaction, and two calls that close the
    container.  Each of them may fail, or take effect and lose its reply; what is
    left then is computed here, piece by piece. -/

namespace History

open Process RowTable

variable {β : Type} {faults : Nat → Fault} {db : Db}

theorem read_fault {fault : Fault} (c : HistoryCall) (hread : (answerHistory db c).2 = db)
    (h : fault ≠ .answered) :
    ∃ message, history.answer fault c db = (.error (.thrown message), db) := by
  cases fault with
  | answered => exact absurd rfl h
  | failed message => exact ⟨message, rfl⟩
  | lost message => exact ⟨message, Prod.ext rfl hread⟩

/-! ## The versions -/

def trackedOf (scope : ObjectScope) : Tracked where
  version := scope.version
  deleted := scope.deleted

/-- The versions as they are, of the objects of a list. -/
def versionsOf (db : Db) (orgId : Option String) : List String → Trackers
  | [] => fun _ => none
  | id :: ids => Function.update (versionsOf db orgId ids) id ((db.scope id orgId).map trackedOf)

variable {orgId : Option String} {ids : List String} {id : String}

theorem versionsOf_mem (h : id ∈ ids) :
    versionsOf db orgId ids id = (db.scope id orgId).map trackedOf := by
  induction ids with
  | nil => cases h
  | cons id' ids ih =>
    rw [versionsOf]
    by_cases hid : id = id'
    · rw [hid, Function.update_self]
    · rw [Function.update_of_ne hid]
      exact ih ((List.mem_cons.mp h).resolve_left hid)

/-- The reads are answered. -/
def Answered (faults : Nat → Fault) (n : Nat) : Prop := ∀ i < n, faults i = .answered

theorem answered_succ {n : Nat} :
    Answered faults (n + 1) ↔ faults 0 = .answered ∧ Answered (fun i => faults (i + 1)) n := by
  constructor
  · intro h
    exact ⟨h 0 (Nat.succ_pos n), fun i hi => h (i + 1) (Nat.succ_lt_succ hi)⟩
  · rintro ⟨h₀, h⟩ i hi
    cases i with
    | zero => exact h₀
    | succ i => exact h i (Nat.lt_of_succ_lt_succ hi)

variable {f : Trackers → HistoryProg β}

theorem run_readVersions (h : Answered faults ids.length) :
    run history (readVersions orgId ids >>= f) faults db =
      run history (f (versionsOf db orgId ids)) (fun i => faults (i + ids.length)) db := by
  induction ids generalizing faults f with
  | nil => rfl
  | cons id ids ih =>
    obtain ⟨h₀, hrest⟩ := answered_succ.mp h
    have hread : history.answer (faults 0) (.readObjectScope id orgId) db =
        (.ok (db.scope id orgId), db) := by
      rw [h₀]
      rfl
    rw [readVersions]
    simp only [bind_assoc]
    rw [run_perform hread, ih hrest]
    rfl

theorem run_readVersions_fault (h : ¬ Answered faults ids.length) :
    ∃ message, run history (readVersions orgId ids >>= f) faults db =
      (.error (.thrown message), db) := by
  induction ids generalizing faults f with
  | nil => exact absurd (fun i hi => absurd hi (Nat.not_lt_zero i)) h
  | cons id ids ih =>
    rw [readVersions]
    simp only [bind_assoc]
    by_cases h₀ : faults 0 = .answered
    · have hread : history.answer (faults 0) (.readObjectScope id orgId) db =
          (.ok (db.scope id orgId), db) := by
        rw [h₀]
        rfl
      rw [run_perform hread]
      exact ih fun hrest => h (answered_succ.mpr ⟨h₀, hrest⟩)
    · obtain ⟨message, hread⟩ := read_fault (.readObjectScope id orgId) (rfl : _ = db) h₀
      exact ⟨message, run_perform_error hread⟩

/-! ## Closing the container -/

/-- A change set is closed, and nothing else has changed. -/
structure Closed (id : String) (db db' : Db) : Prop where
  objects : db'.objects = db.objects
  events : db'.events = db.events
  changeSets : ∃ f : ChangeSetRow → ChangeSetRow, (∀ c, (f c).id = c.id ∧ (f c).closed = true) ∧
    db'.changeSets = updateWhere (fun c => c.id = id) f db.changeSets

/-- The two calls that close a change set take effect. -/
def Closes (faults : Nat → Fault) : Prop :=
  faults 0 = .answered ∧ ∀ message, faults 1 ≠ .failed message

/-- A change set that was to be closed is, if the calls take effect. -/
structure Ended (id : String) (faults : Nat → Fault) (db db' : Db) : Prop where
  closed : Closes faults → Closed id db db'
  open_still : ¬ Closes faults → db' = db

variable {db' : Db}

theorem Ended.objects (h : Ended id faults db db') : db'.objects = db.objects := by
  by_cases hcloses : Closes faults
  · exact (h.closed hcloses).objects
  · rw [h.open_still hcloses]

theorem Ended.events (h : Ended id faults db db') : db'.events = db.events := by
  by_cases hcloses : Closes faults
  · exact (h.closed hcloses).events
  · rw [h.open_still hcloses]

/-- The database that the closing call leaves. -/
def Db.closing (db : Db) (id : String) (reason : Option String) (agg : Rollup) : Db :=
  db.closeChangeSet id
    (ChangeSetRow.close reason agg.effect agg.restorable agg.restorableReason)

theorem closed_closing (id : String) (reason : Option String) (agg : Rollup) :
    Closed id db (db.closing id reason agg) :=
  ⟨rfl, rfl, ChangeSetRow.close reason agg.effect agg.restorable agg.restorableReason,
    fun _ => ⟨rfl, rfl⟩, rfl⟩

theorem run_close (id : String) (reason : Option String) {f : ChangeSetRow → HistoryProg β}
    (hthere : ∃ c ∈ db.changeSets, c.id = id) :
    ∃ db', Ended id faults db db' ∧ ((faults 0 = .answered ∧ faults 1 = .answered ∧ ∃ row,
          run history (closeChangeSet id reason >>= f) faults db =
            run history (f row) (fun i => faults (i + 2)) db') ∨
        ¬ (faults 0 = .answered ∧ faults 1 = .answered) ∧ ∃ message,
          run history (closeChangeSet id reason >>= f) faults db =
            (.error (.thrown message), db')) := by
  rw [closeChangeSet]
  simp only [bind_assoc]
  by_cases h₀ : faults 0 = .answered
  · have hrollup : history.answer (faults 0) (.rollupEvents id) db =
        (.ok (rollup (db.events.filter (fun e => e.changeSetId = id))), db) := by
      rw [h₀]
      rfl
    simp only [run_perform hrollup]
    generalize rollup (db.events.filter (fun e => e.changeSetId = id)) = agg
    have hclosed : Closed id db (db.closing id reason agg) := closed_closing id reason agg
    cases h₁ : faults 1 with
    | answered =>
      obtain ⟨c, hc, hid⟩ := hthere
      obtain ⟨row, hrow⟩ : ∃ row, db.changeSets.find? (fun c => c.id = id) = some row := by
        rw [← Option.isSome_iff_exists, List.find?_isSome]
        exact ⟨c, hc, decide_eq_true hid⟩
      have hclose : history.answer (faults (0 + 1)) (.closeChangeSet id reason agg.effect
          agg.restorable agg.restorableReason) db =
          (.ok (some (row.close reason agg.effect agg.restorable agg.restorableReason)),
            db.closing id reason agg) := by
        rw [Nat.zero_add, h₁]
        show (Except.ok ((db.changeSets.find? (fun c => c.id = id)).map _), _) = _
        rw [hrow]
        rfl
      have hcloses : Closes faults := ⟨h₀, fun message hfailed => by cases h₁.symm.trans hfailed⟩
      refine ⟨db.closing id reason agg, ⟨fun _ => hclosed, fun hnot => absurd hcloses hnot⟩,
        .inl ⟨h₀, rfl, row.close reason agg.effect agg.restorable agg.restorableReason, ?_⟩⟩
      rw [run_perform hclose]
      rfl
    | failed message =>
      have hclose : history.answer (faults (0 + 1)) (.closeChangeSet id reason agg.effect
          agg.restorable agg.restorableReason) db = (.error (.thrown message), db) := by
        rw [Nat.zero_add, h₁]
        rfl
      refine ⟨db, ⟨fun hcloses => absurd h₁ (hcloses.2 message), fun _ => rfl⟩,
        .inr ⟨?_, message, run_perform_error hclose⟩⟩
      rintro ⟨_, ⟨⟩⟩
    | lost message =>
      have hclose : history.answer (faults (0 + 1)) (.closeChangeSet id reason agg.effect
          agg.restorable agg.restorableReason) db =
          (.error (.thrown message), db.closing id reason agg) := by
        rw [Nat.zero_add, h₁]
        rfl
      have hcloses : Closes faults := ⟨h₀, fun message hfailed => by cases h₁.symm.trans hfailed⟩
      refine ⟨db.closing id reason agg, ⟨fun _ => hclosed, fun hnot => absurd hcloses hnot⟩,
        .inr ⟨?_, message, run_perform_error hclose⟩⟩
      rintro ⟨_, ⟨⟩⟩
  · obtain ⟨message, hrollup⟩ := read_fault (.rollupEvents id) (rfl : _ = db) h₀
    exact ⟨db, ⟨fun hcloses => absurd hcloses.1 h₀, fun _ => rfl⟩,
      .inr ⟨fun h => h₀ h.1, message, run_perform_error hrollup⟩⟩

theorem run_close_pure (faults : Nat → Fault) (id : String) (reason : Option String) (a : β)
    (hthere : ∃ c ∈ db.changeSets, c.id = id) :
    ∃ db', Ended id faults db db' ∧ ((faults 0 = .answered ∧ faults 1 = .answered ∧
          run history (closeChangeSet id reason >>= fun _ => pure a) faults db = (.ok a, db')) ∨
        ¬ (faults 0 = .answered ∧ faults 1 = .answered) ∧ ∃ err,
          run history (closeChangeSet id reason >>= fun _ => pure a) faults db =
            (.error err, db')) := by
  obtain ⟨db', hended, ⟨h₀, h₁, row, hrun⟩ | ⟨hnot, message, hrun⟩⟩ :=
    run_close id reason (f := fun _ => (pure a : HistoryProg β)) hthere
  · exact ⟨db', hended, .inl ⟨h₀, h₁, hrun⟩⟩
  · exact ⟨db', hended, .inr ⟨hnot, _, hrun⟩⟩

theorem run_close_throw (faults : Nat → Fault) (id : String) (reason : Option String) (err : HistoryError)
    (hthere : ∃ c ∈ db.changeSets, c.id = id) : ∃ err' db', Ended id faults db db' ∧
      run history (closeChangeSet id reason >>= fun _ => (throwErr err : HistoryProg β))
        faults db = (.error err', db') := by
  obtain ⟨db', hended, ⟨_, _, row, hrun⟩ | ⟨_, message, hrun⟩⟩ :=
    run_close id reason (f := fun _ => (throwErr err : HistoryProg β)) hthere
  · exact ⟨err, db', hended, hrun⟩
  · exact ⟨_, db', hended, hrun⟩

/-! ## The inverses -/

theorem transaction_changeSets {statements : List Statement}
    (h : transaction db statements = .ok db') : db'.changeSets = db.changeSets :=
  transaction_keeps (I := fun d => d.changeSets = db.changeSets)
    (fun _ _ _ _ _ hwrote hsame => hwrote.changeSets.trans hsame) h rfl

section Apply

variable {input : RestoreChangeSetInput} {container : String} {events : List ObjectChangeEvent}
  {s : Statement} {rest : List Statement}

theorem apply_eq : applyInverses input container events (.statements (s :: rest)) =
    (tryCatch (perform (HistoryCall.transaction (s :: rest))) (fun err => do
      let _ ← closeChangeSet container (some ("restore-failed: " ++ err.message))
      throwErr err)) >>= fun _ => closeChangeSet container (some "restore-complete") >>= fun _ =>
        pure { restoreChangeSetId := container, appliedEventCount := (s :: rest).length,
               affectedObjects := affectedObjectIds events } := rfl

theorem run_apply_effect (faults : Nat → Fault) (input : RestoreChangeSetInput)
    (events : List ObjectChangeEvent) {db₁ : Db} (h : transaction db (s :: rest) = .ok db₁)
    (htaken : ∀ message, faults 0 ≠ .failed message)
    (hthere : ∃ c ∈ db.changeSets, c.id = container) :
    ∃ db', Ended container (fun i => faults (i + 1)) db₁ db' ∧
      ((Answered faults 3 ∧ ∃ result, run history
          (applyInverses input container events (.statements (s :: rest))) faults db =
            (.ok result, db')) ∨ ¬ Answered faults 3 ∧ ∃ err, run history
          (applyInverses input container events (.statements (s :: rest))) faults db =
            (.error err, db')) := by
  have hthere₁ : ∃ c ∈ db₁.changeSets, c.id = container := by
    rw [transaction_changeSets h]
    exact hthere
  have hthree : Answered faults 3 ↔ faults 0 = .answered ∧ faults 1 = .answered ∧
      faults 2 = .answered := by
    simp only [answered_succ]
    exact and_congr_right fun _ => and_congr_right fun _ =>
      and_iff_left fun i hi => absurd hi (Nat.not_lt_zero i)
  rw [apply_eq]
  cases h₀ : faults 0 with
  | answered =>
    have hanswer : history.answer (faults 0) (.transaction (s :: rest)) db = (.ok (), db₁) := by
      rw [h₀]
      simp only [history, answerHistory, h, Except.mapError]
    rw [run_try hanswer]
    obtain ⟨db', hended, ⟨h₁, h₂, hrun⟩ | ⟨hnot, err, hrun⟩⟩ :=
      run_close_pure (fun i => faults (i + 1)) container (some "restore-complete")
        ({ restoreChangeSetId := container, appliedEventCount := (s :: rest).length,
           affectedObjects := affectedObjectIds events } : RestoreResult) hthere₁
    · exact ⟨db', hended, .inl ⟨hthree.mpr ⟨h₀, h₁, h₂⟩, _, hrun⟩⟩
    · exact ⟨db', hended, .inr ⟨fun h => hnot (hthree.mp h).2, err, hrun⟩⟩
  | failed message => exact absurd h₀ (htaken message)
  | lost message =>
    have hanswer : history.answer (faults 0) (.transaction (s :: rest)) db =
        (.error (.thrown message), db₁) := by
      rw [h₀]
      simp only [history, answerHistory, h]
    rw [run_catch hanswer, throw_bind]
    obtain ⟨err, db', hended, hrun⟩ := run_close_throw
      (fun i => faults (i + 1)) container
      (some ("restore-failed: " ++ HistoryError.message (.thrown message))) (.thrown message)
      hthere₁
    refine ⟨db', hended, .inr ⟨fun h => ?_, err, hrun⟩⟩
    cases h₀.symm.trans (hthree.mp h).1

theorem run_apply_refused (faults : Nat → Fault) (input : RestoreChangeSetInput)
    (events : List ObjectChangeEvent)
    (h : (∃ e, transaction db (s :: rest) = .error e) ∨ ∃ message, faults 0 = .failed message)
    (hthere : ∃ c ∈ db.changeSets, c.id = container) :
    ∃ err db', Ended container (fun i => faults (i + 1)) db db' ∧
      run history (applyInverses input container events (.statements (s :: rest))) faults db =
        (.error err, db') := by
  obtain ⟨err, hanswer⟩ : ∃ err, history.answer (faults 0) (.transaction (s :: rest)) db =
      (.error err, db) := by
    cases h₀ : faults 0 with
    | failed message => exact ⟨_, rfl⟩
    | answered =>
      obtain ⟨e, he⟩ := h.resolve_right (by rintro ⟨message, hm⟩; cases h₀.symm.trans hm)
      refine ⟨.sql e, ?_⟩
      simp only [history, answerHistory, he, Except.mapError]
    | lost message =>
      obtain ⟨e, he⟩ := h.resolve_right (by rintro ⟨message, hm⟩; cases h₀.symm.trans hm)
      refine ⟨.thrown message, ?_⟩
      simp only [history, answerHistory, he]
  rw [apply_eq, run_catch hanswer, throw_bind]
  obtain ⟨err', db', hended, hrun⟩ := run_close_throw (fun i => faults (i + 1)) container
    (some ("restore-failed: " ++ err.message)) err hthere
  exact ⟨err', db', hended, hrun⟩

theorem run_apply_missing (faults : Nat → Fault) (input : RestoreChangeSetInput)
    (events : List ObjectChangeEvent) (objectId : String)
    (hthere : ∃ c ∈ db.changeSets, c.id = container) : ∃ err db', Ended container faults db db' ∧
      run history (applyInverses input container events (.missing objectId)) faults db =
        (.error err, db') :=
  run_close_throw faults container _ _ hthere

theorem run_apply_empty (faults : Nat → Fault) (input : RestoreChangeSetInput)
    (events : List ObjectChangeEvent) (hthere : ∃ c ∈ db.changeSets, c.id = container) :
    ∃ db', Ended container faults db db' ∧
      ((faults 0 = .answered ∧ faults 1 = .answered ∧ ∃ result, run history
          (applyInverses input container events (.statements [])) faults db = (.ok result, db')) ∨
        ¬ (faults 0 = .answered ∧ faults 1 = .answered) ∧ ∃ err, run history
          (applyInverses input container events (.statements [])) faults db =
            (.error err, db')) := by
  obtain ⟨db', hended, ⟨h₀, h₁, hrun⟩ | ⟨hnot, err, hrun⟩⟩ :=
    run_close_pure faults container (some "restore-empty")
      ({ restoreChangeSetId := container, appliedEventCount := 0,
         affectedObjects := affectedObjectIds events } : RestoreResult) hthere
  · exact ⟨db', hended, .inl ⟨h₀, h₁, _, hrun⟩⟩
  · exact ⟨db', hended, .inr ⟨hnot, err, hrun⟩⟩

theorem apply_result {built : Built} {result : RestoreResult}
    (hthere : ∃ c ∈ db.changeSets, c.id = container)
    (hrun : run history (applyInverses input container events built) faults db =
      (.ok result, db')) :
    ∃ statements db₁, built = .statements statements ∧ transaction db statements = .ok db₁ ∧
      db'.objects = db₁.objects ∧ db'.events = db₁.events := by
  cases built with
  | missing objectId =>
    obtain ⟨err, d, _, herror⟩ := run_apply_missing faults input events objectId hthere
    rw [herror] at hrun
    cases hrun
  | thrown err => cases hrun
  | statements statements =>
    cases statements with
    | nil =>
      obtain ⟨d, hended, ⟨_, _, r, hok⟩ | ⟨_, err, herror⟩⟩ :=
        run_apply_empty faults input events hthere
      · rw [hok] at hrun
        cases hrun
        exact ⟨[], db, rfl, rfl, hended.objects, hended.events⟩
      · rw [herror] at hrun
        cases hrun
    | cons s rest =>
      cases htransaction : transaction db (s :: rest) with
      | error e =>
        obtain ⟨err, d, _, herror⟩ :=
          run_apply_refused faults input events (.inl ⟨e, htransaction⟩) hthere
        rw [herror] at hrun
        cases hrun
      | ok db₁ =>
        by_cases htaken : ∀ message, faults 0 ≠ .failed message
        · obtain ⟨d, hended, ⟨_, r, hok⟩ | ⟨_, err, herror⟩⟩ :=
            run_apply_effect faults input events htransaction htaken hthere
          · rw [hok] at hrun
            cases hrun
            exact ⟨s :: rest, db₁, rfl, htransaction, hended.objects, hended.events⟩
          · rw [herror] at hrun
            cases hrun
        · simp only [not_forall, not_not] at htaken
          obtain ⟨err, d, _, herror⟩ :=
            run_apply_refused faults input events (.inr htaken) hthere
          rw [herror] at hrun
          cases hrun

end Apply

/-! ## The restore -/

section Restore

variable {ids : RestoreIds} {input : RestoreChangeSetInput}

/-- The change set of a restore, as its organization sees it. -/
def Db.changeSet (db : Db) (input : RestoreChangeSetInput) : Option ChangeSetRow :=
  db.changeSets.find? (fun c => c.id = input.changeSetId && ofOrg input.actor.orgId c.orgId)

/-- Its events. -/
def Db.changes (db : Db) (input : RestoreChangeSetInput) : List ObjectChangeEvent :=
  db.eventsOf input.changeSetId input.actor.orgId

/-- The container that a restore opens. -/
def containerRow (ids : RestoreIds) (input : RestoreChangeSetInput) : ChangeSetRow where
  id := ids.changeSetId
  orgId := input.actor.orgId
  restoreOfChangeSetId := some input.changeSetId

/-- The database with the container open. -/
def Db.opened (db : Db) (ids : RestoreIds) (input : RestoreChangeSetInput) : Db :=
  { db with changeSets := db.changeSets ++ [containerRow ids input] }

/-- The restore gets as far as its container. -/
structure Opens (ids : RestoreIds) (input : RestoreChangeSetInput) (faults : Nat → Fault)
    (db : Db) : Prop where
  loaded : faults 0 = .answered ∧ faults 1 = .answered
  restorable : ∃ changeSet, db.changeSet input = some changeSet ∧
    checkRestorable input changeSet (db.changes input) = .ok ()
  free : ∀ c ∈ db.changeSets, c.id ≠ ids.changeSetId
  inserted : ∀ message, faults 2 ≠ .failed message

theorem opened_there : ∃ c ∈ (db.opened ids input).changeSets, c.id = ids.changeSetId :=
  ⟨_, List.mem_append_right _ (List.mem_singleton_self _), rfl⟩

theorem insert_free (hfree : ∀ c ∈ db.changeSets, c.id ≠ ids.changeSetId) :
    answerHistory db (.insertChangeSet (containerRow ids input)) =
      (.ok (), db.opened ids input) := by
  have hany : db.changeSets.any (fun c => c.id = (containerRow ids input).id) = false := by
    rw [List.any_eq_false]
    intro c hc
    rw [decide_eq_true_eq]
    exact hfree c hc
  simp only [answerHistory, hany, if_neg Bool.false_ne_true, Db.opened]

theorem insert_taken (htaken : ¬ ∀ c ∈ db.changeSets, c.id ≠ ids.changeSetId) :
    answerHistory db (.insertChangeSet (containerRow ids input)) =
      (.error .uniqueViolation, db) := by
  have hany : db.changeSets.any (fun c => c.id = (containerRow ids input).id) = true := by
    simp only [not_forall, not_not] at htaken
    obtain ⟨c, hc, hid⟩ := htaken
    exact List.any_eq_true.mpr ⟨c, hc, decide_eq_true hid⟩
  simp only [answerHistory, hany, if_true]

/-- What follows the container. -/
def restoreOpened (ids : RestoreIds) (input : RestoreChangeSetInput)
    (events : List ObjectChangeEvent) : HistoryProg RestoreResult := do
  let trackers ← readVersions input.actor.orgId (affectedObjectIds events)
  applyInverses input ids.changeSetId events (buildInverses ids input.actor events.reverse 0 trackers)

variable {events : List ObjectChangeEvent} {changeSet : ChangeSetRow}

theorem restoreLoaded_ok (h : checkRestorable input changeSet events = .ok ()) :
    restoreLoaded ids input changeSet events =
      perform (HistoryCall.insertChangeSet (containerRow ids input)) >>= fun _ =>
        restoreOpened ids input events := by
  rw [restoreLoaded, h]
  show openChangeSet _ _ _ >>= _ = _
  rw [openChangeSet]
  simp only [bind_assoc, pure_bind]
  rfl

theorem restoreLoaded_error
    {err : HistoryError} (h : checkRestorable input changeSet events = .error err) :
    restoreLoaded ids input changeSet events = throwErr err := by
  rw [restoreLoaded, h]
  rfl

theorem run_load (h₀ : faults 0 = .answered) (h₁ : faults 1 = .answered) :
    run history (restoreChangeSet ids input) faults db =
      run history (lift ((db.changeSet input).elim
          (.error (.thrown ("restoreChangeSet: change_set " ++ input.changeSetId ++
            " not found"))) .ok) >>= fun changeSet =>
        restoreLoaded ids input changeSet (db.changes input)) (fun i => faults (i + 2)) db := by
  have hrow : history.answer (faults 0)
      (.readChangeSet input.changeSetId input.actor.orgId) db = (.ok (db.changeSet input), db) := by
    rw [h₀]
    rfl
  have hevents : history.answer (faults (0 + 1))
      (.readChangeSetEvents input.changeSetId input.actor.orgId) db =
      (.ok (db.changes input), db) := by
    rw [Nat.zero_add, h₁]
    rfl
  rw [restoreChangeSet, loadChangeSet]
  simp only [bind_assoc]
  rw [run_perform hrow, run_perform hevents]
  cases db.changeSet input with
  | none | some => rfl

theorem run_load_fault (h : ¬ (faults 0 = .answered ∧ faults 1 = .answered)) :
    ∃ err, run history (restoreChangeSet ids input) faults db = (.error err, db) := by
  rw [restoreChangeSet, loadChangeSet]
  simp only [bind_assoc]
  by_cases h₀ : faults 0 = .answered
  · have hrow : history.answer (faults 0)
        (.readChangeSet input.changeSetId input.actor.orgId) db =
        (.ok (db.changeSet input), db) := by
      rw [h₀]
      rfl
    obtain ⟨message, hevents⟩ := read_fault
      (.readChangeSetEvents input.changeSetId input.actor.orgId) (rfl : _ = db)
      (fun h₁ => h ⟨h₀, h₁⟩)
    rw [run_perform hrow]
    exact ⟨_, run_perform_error hevents⟩
  · obtain ⟨message, hrow⟩ := read_fault
      (.readChangeSet input.changeSetId input.actor.orgId) (rfl : _ = db) h₀
    exact ⟨_, run_perform_error hrow⟩

theorem run_restorable (h₀ : faults 0 = .answered)
    (h₁ : faults 1 = .answered) (hfound : db.changeSet input = some changeSet)
    (hok : checkRestorable input changeSet (db.changes input) = .ok ()) :
    run history (restoreChangeSet ids input) faults db =
      run history (perform (HistoryCall.insertChangeSet (containerRow ids input)) >>= fun _ =>
        restoreOpened ids input (db.changes input)) (fun i => faults (i + 2)) db := by
  rw [run_load h₀ h₁, hfound, Option.elim_some, ← restoreLoaded_ok hok]
  rfl

/-- A restore that does not get as far as its container leaves everything. -/
theorem run_unopened (h : ¬ Opens ids input faults db) :
    ∃ err, run history (restoreChangeSet ids input) faults db = (.error err, db) := by
  by_cases hloaded : faults 0 = .answered ∧ faults 1 = .answered
  · obtain ⟨h₀, h₁⟩ := hloaded
    cases hfound : db.changeSet input with
    | none =>
      rw [run_load h₀ h₁, hfound]
      exact ⟨_, rfl⟩
    | some changeSet =>
      cases hok : checkRestorable input changeSet (db.changes input) with
      | error err =>
        rw [run_load h₀ h₁, hfound, Option.elim_some]
        refine ⟨err, ?_⟩
        show run history (restoreLoaded ids input changeSet (db.changes input)) _ db = _
        rw [restoreLoaded_error hok]
        rfl
      | ok u =>
        rw [run_restorable h₀ h₁ hfound hok]
        by_cases hfree : ∀ c ∈ db.changeSets, c.id ≠ ids.changeSetId
        · obtain ⟨message, hfailed⟩ : ∃ message, faults 2 = .failed message := by
            by_contra hnone
            exact h ⟨⟨h₀, h₁⟩, ⟨changeSet, hfound, hok⟩, hfree,
              fun message hfailed => hnone ⟨message, hfailed⟩⟩
          refine ⟨.thrown message, run_perform_error ?_⟩
          rw [Nat.zero_add, hfailed]
          rfl
        · cases hfault : faults 2 with
          | answered =>
            refine ⟨.sql .uniqueViolation, run_perform_error ?_⟩
            rw [Nat.zero_add, hfault]
            simp only [history, insert_taken hfree, Except.mapError]
          | failed message =>
            refine ⟨.thrown message, run_perform_error ?_⟩
            rw [Nat.zero_add, hfault]
            rfl
          | lost message =>
            refine ⟨.thrown message, run_perform_error ?_⟩
            rw [Nat.zero_add, hfault]
            simp only [history, insert_taken hfree]
  · exact run_load_fault hloaded

theorem run_open_lost (h : Opens ids input faults db) (hlost : faults 2 ≠ .answered) :
    ∃ err, run history (restoreChangeSet ids input) faults db =
      (.error err, db.opened ids input) := by
  obtain ⟨⟨h₀, h₁⟩, ⟨changeSet, hfound, hok⟩, hfree, hinserted⟩ := h
  rw [run_restorable h₀ h₁ hfound hok]
  cases hfault : faults 2 with
  | answered => exact absurd hfault hlost
  | failed message => exact absurd hfault (hinserted message)
  | lost message =>
    refine ⟨.thrown message, run_perform_error ?_⟩
    rw [Nat.zero_add, hfault]
    simp only [history, insert_free hfree]

theorem run_open (h : Opens ids input faults db) (hanswered : faults 2 = .answered) :
    run history (restoreChangeSet ids input) faults db =
      run history (restoreOpened ids input (db.changes input)) (fun i => faults (i + 3))
        (db.opened ids input) := by
  obtain ⟨⟨h₀, h₁⟩, ⟨changeSet, hfound, hok⟩, hfree, hinserted⟩ := h
  have hinsert : history.answer (faults (0 + 2)) (.insertChangeSet (containerRow ids input)) db =
      (.ok (), db.opened ids input) := by
    rw [Nat.zero_add, hanswered]
    simp only [history, insert_free hfree]
    rfl
  rw [run_restorable h₀ h₁ hfound hok, run_perform hinsert]

theorem run_opened (h : Answered faults (affectedObjectIds events).length) :
    run history (restoreOpened ids input events) faults db =
      run history (applyInverses input ids.changeSetId events
        (buildInverses ids input.actor events.reverse 0
          (versionsOf db input.actor.orgId (affectedObjectIds events))))
        (fun i => faults (i + (affectedObjectIds events).length)) db :=
  run_readVersions h

theorem run_opened_fault (h : ¬ Answered faults (affectedObjectIds events).length) :
    ∃ err, run history (restoreOpened ids input events) faults db = (.error err, db) := by
  obtain ⟨message, hrun⟩ := run_readVersions_fault h
  exact ⟨.thrown message, hrun⟩

/-- The inverses a restore builds. -/
def Db.inverses (db : Db) (ids : RestoreIds) (input : RestoreChangeSetInput) : Built :=
  buildInverses ids input.actor (db.changes input).reverse 0
    (versionsOf (db.opened ids input) input.actor.orgId (affectedObjectIds (db.changes input)))

/-- **A restore that succeeds has made the inverses of all the events.** -/
theorem restore_result {result : RestoreResult}
    (hrun : run history (restoreChangeSet ids input) faults db = (.ok result, db')) :
    ∃ statements db₁, db.inverses ids input = .statements statements ∧
      transaction (db.opened ids input) statements = .ok db₁ ∧
      db'.objects = db₁.objects ∧ db'.events = db₁.events := by
  by_cases hopens : Opens ids input faults db
  · by_cases hanswered : faults 2 = .answered
    · rw [run_open hopens hanswered] at hrun
      by_cases hreads : Answered (fun i => faults (i + 3))
          (affectedObjectIds (db.changes input)).length
      · rw [run_opened hreads] at hrun
        exact apply_result opened_there hrun
      · obtain ⟨err, herror⟩ := run_opened_fault hreads
        rw [herror] at hrun
        cases hrun
    · obtain ⟨err, herror⟩ := run_open_lost hopens hanswered
      rw [herror] at hrun
      cases hrun
  · obtain ⟨err, herror⟩ := run_unopened hopens
    rw [herror] at hrun
    cases hrun

end Restore

end History
