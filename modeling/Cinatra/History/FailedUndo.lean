import Cinatra.History.InverseChain
import Cinatra.History.Undo
import Mathlib.Data.List.Find

/-! # FailedUndo — what is left of a restore that throws

    A change set may be eligible and still not be undone: the verdict looks neither
    at restore events, nor at missing snapshots, nor at the deleted state.  Where the
    builder throws, and wherever a call fails between the opening of the container and
    its closing, the container stays open. -/

namespace History

open Process RowTable

variable {ids : RestoreIds} {input : RestoreChangeSetInput} {faults : Nat → Fault} {db : Db}

/-- Nothing is half-done: no row and no event has changed, and every change set that was
    opened is closed. -/
structure Untouched (db db' : Db) : Prop where
  objects : db'.objects = db.objects
  events : db'.events = db.events
  closed : ∀ c ∈ db'.changeSets, (∀ c' ∈ db.changeSets, c'.id ≠ c.id) → c.closed = true

/-- The verdict is that the change set may be undone, and its objects are there. -/
structure Eligible (input : RestoreChangeSetInput) (db : Db) : Prop where
  verdict : summarizeChangeSetEligibility { externalFreshness := input.externalFreshness }
    (db.changes input) = none
  restorable : ∃ changeSet, db.changeSet input = some changeSet ∧ changeSet.restorable = true
  there : ∀ e ∈ db.changes input, ∃ r, db.object e.objectId = some r

/-- An eligible change set is undone, and a restore that throws leaves nothing half-done. -/
structure UndoneOrUntouched (ids : RestoreIds) (input : RestoreChangeSetInput)
    (faults : Nat → Fault) (db : Db) : Prop where
  undone : Eligible input db → (∀ n, faults n = .answered) →
    ∃ result db', run history (restoreChangeSet ids input) faults db = (.ok result, db')
  untouched : ∀ err db', run history (restoreChangeSet ids input) faults db = (.error err, db') →
    Untouched db db'

/-! ## The condition -/

/-- Whether an object is deleted once the events after some point are undone. -/
def flagAfter (after : List ObjectChangeEvent) (r : ObjectRow) : Bool :=
  ((eventsOn after r.id).findSome? ObjectChangeEvent.flagged).getD r.deleted

/-- Each create finds its object live, and each delete deleted, when it is undone; and no
    row has left the organization of its events. -/
def Fits (events : List ObjectChangeEvent) (db : Db) : Prop :=
  ∀ before e after, events = before ++ e :: after → ∀ r, db.object e.objectId = some r →
    visibleTo e.orgId r.orgId = true ∧ (e.operation = .create → flagAfter after r = false) ∧
      (e.deletes → flagAfter after r = true)

/-- The last event that cannot be undone. -/
def Db.stuck (db : Db) (input : RestoreChangeSetInput) : Option ObjectChangeEvent :=
  (db.changes input).reverse.find? (fun e =>
    (db.scope e.objectId input.actor.orgId).isNone || !e.hasInverse)

/-- So many calls are made before the inverses are. -/
def callsBefore (input : RestoreChangeSetInput) (db : Db) : Nat :=
  (affectedObjectIds (db.changes input)).length + 3

/-- What a restore whose container is open must meet with. -/
structure Spotless (ids : RestoreIds) (input : RestoreChangeSetInput) (faults : Nat → Fault)
    (db : Db) : Prop where
  /-- The restore knows that its container is open, and reads every version. -/
  answered : Answered (fun i => faults (i + 2))
    ((affectedObjectIds (db.changes input)).length + 1)
  /-- The event the builder stops at, if any, is one whose object is gone. -/
  built : ∀ e ∈ db.stuck input, db.scope e.objectId input.actor.orgId = none
  /-- Where nothing is to be made, the container is closed. -/
  empty : ((db.stuck input).isSome = true ∨ db.changes input = []) →
    Closes (fun i => faults (i + callsBefore input db))
  /-- Where the transaction takes effect, all that follows is answered. -/
  made : db.stuck input = none → db.changes input ≠ [] → Fits (db.changes input) db →
    (∀ message, faults (callsBefore input db) ≠ .failed message) →
    Answered (fun i => faults (i + callsBefore input db)) 3
  /-- Where it does not, the container is closed. -/
  refused : db.stuck input = none → db.changes input ≠ [] →
    (¬ Fits (db.changes input) db ∨ ∃ message, faults (callsBefore input db) = .failed message) →
    Closes (fun i => faults (i + (callsBefore input db + 1)))

/-! ## Links -/

variable {orgId : Option String} {id : String}

theorem scope_some (hkeyed : db.Keyed) {scope : ObjectScope} (h : db.scope id orgId = some scope) :
    ∃ r, db.object id = some r ∧ visibleTo orgId r.orgId = true ∧ scope = scopeOf r := by
  rw [Db.scope, Option.map_eq_some_iff] at h
  obtain ⟨r, hfind, rfl⟩ := h
  have hr := List.find?_some hfind
  rw [Bool.and_eq_true, decide_eq_true_eq] at hr
  refine ⟨r, ?_, hr.2, rfl⟩
  rw [← hr.1]
  exact object_of_mem hkeyed (List.mem_of_find?_eq_some hfind)

theorem scope_isSome {r : ObjectRow}
    (hr : db.object id = some r) (hvisible : visibleTo orgId r.orgId = true) :
    (db.scope id orgId).isSome = true := by
  rw [Db.scope, Option.isSome_map, List.find?_isSome]
  refine ⟨r, List.mem_of_find?_eq_some hr, ?_⟩
  rw [decide_eq_true (object_id hr), hvisible]
  rfl

theorem versionsOf_some {events : List String}
    {tracked : Tracked} (h : versionsOf db orgId events id = some tracked) :
    (db.scope id orgId).map trackedOf = some tracked := by
  induction events with
  | nil => cases h
  | cons id' events ih =>
    rw [versionsOf] at h
    rcases update_cases h with ⟨hid, h⟩ | ⟨hid, h⟩
    · rw [hid]
      exact h
    · exact ih h

theorem tracks_versionsOf (hkeyed : db.Keyed) (orgId : Option String) (events : List String) :
    Tracks (versionsOf db orgId events) db := by
  intro id tracked htracked
  obtain ⟨scope, hscope, rfl⟩ := Option.map_eq_some_iff.mp (versionsOf_some htracked)
  obtain ⟨r, hr, _, rfl⟩ := scope_some hkeyed hscope
  exact ⟨r, hr, rfl⟩

variable {events : List ObjectChangeEvent}

theorem mem_affected {e : ObjectChangeEvent} (h : e ∈ events) :
    e.objectId ∈ affectedObjectIds events := by
  rw [affectedObjectIds, List.mem_eraseDups]
  exact List.mem_map_of_mem h

theorem stuckAt_eq : stuckAt (versionsOf (db.opened ids input) input.actor.orgId
    (affectedObjectIds (db.changes input))) (db.changes input).reverse = db.stuck input := by
  rw [stuckAt, Db.stuck]
  refine List.find?_congr fun e he => ?_
  rw [versionsOf_mem (mem_affected (List.mem_reverse.mp he)), Option.isNone_map]
  rfl

theorem hasInverse_iff {event : ObjectChangeEvent} :
    event.hasInverse = true ↔ Invertible event := by
  unfold ObjectChangeEvent.hasInverse Invertible ObjectChangeEvent.deletes
  cases event.operation <;> cases event.beforeSnapshot <;> simp

theorem undone_orgId (actor : HistoryActor) (events : List ObjectChangeEvent) (r : ObjectRow) :
    (undone actor events r).orgId = r.orgId := by
  induction events with
  | nil => rfl
  | cons event events ih =>
    refine Eq.trans ?_ ih
    show (inverseRow actor event (undone actor events r)).orgId = _
    unfold inverseRow
    cases event.operation <;> cases event.beforeSnapshot <;> rfl

/-- The events are ready to be undone when they fit the rows. -/
theorem allReady_iff (actor : HistoryActor) (hinverse : ∀ e ∈ events, e.hasInverse = true) :
    AllReady actor events db ↔ Fits events db := by
  refine forall_congr' fun before => forall_congr' fun e => forall_congr' fun after =>
    forall_congr' fun hsplit => forall_congr' fun r => forall_congr' fun hr => ?_
  have hafter : ∀ x ∈ eventsOn after e.objectId, Invertible x := by
    intro x hx
    refine hasInverse_iff.mp (hinverse x ?_)
    rw [hsplit]
    exact List.mem_append_right _ (.tail _ (List.mem_filter.mp hx).1)
  have hflag : (undone actor (eventsOn after e.objectId) r).deleted = flagAfter after r := by
    rw [(writtenBack_undone actor hafter r).deleted, flagAfter, object_id hr]
  constructor
  · intro hready
    have hvisible := hready.visible
    rw [undone_orgId] at hvisible
    exact ⟨hvisible, fun hop => hflag ▸ hready.live hop, fun hop => hflag ▸ hready.deleted hop⟩
  · rintro ⟨hvisible, hlive, hdeleted⟩
    refine ⟨?_, fun hop => hflag.trans (hlive hop), fun hop => hflag.trans (hdeleted hop)⟩
    rw [undone_orgId]
    exact hvisible

theorem stuck_eq_none : db.stuck input = none ↔ ∀ e ∈ db.changes input,
    (db.scope e.objectId input.actor.orgId).isSome = true ∧ e.hasInverse = true := by
  rw [Db.stuck, List.find?_eq_none]
  refine ⟨fun h e he => ?_, fun h e he => ?_⟩
  · have hfine := h e (List.mem_reverse.mpr he)
    rw [Bool.not_eq_true, Bool.or_eq_false_iff, Bool.not_eq_false'] at hfine
    refine ⟨?_, hfine.2⟩
    rw [← Option.not_isNone, hfine.1]
    rfl
  · obtain ⟨hthere, hinverse⟩ := h e (List.mem_reverse.mp he)
    rw [Bool.not_eq_true, Bool.or_eq_false_iff, Bool.not_eq_false']
    refine ⟨?_, hinverse⟩
    rw [← Option.not_isSome, hthere]
    rfl

/-! ## What is left -/

variable {statements : List Statement} {db' : Db}

theorem transaction_events {db : Db} (h : transaction db statements = .ok db') :
    db'.events.length = db.events.length + statements.length := by
  induction statements generalizing db with
  | nil =>
    rw [transaction_nil h]
    rfl
  | cons s rest ih =>
    obtain ⟨db₁, happly, hrest⟩ := transaction_cons h
    obtain ⟨row, hwrote⟩ := apply_ok happly
    rw [ih hrest, hwrote.events]
    simp only [List.length_append, List.length_cons, List.length_nil]
    omega

theorem opened_touched (hfree : ∀ c ∈ db.changeSets, c.id ≠ ids.changeSetId) :
    ¬ Untouched db (db.opened ids input) := by
  intro h
  have hclosed := h.closed (containerRow ids input)
    (List.mem_append_right _ (List.mem_singleton_self _)) hfree
  cases hclosed

theorem ended_untouched (hfree : ∀ c ∈ db.changeSets, c.id ≠ ids.changeSetId)
    (h : Ended ids.changeSetId faults (db.opened ids input) db') :
    Untouched db db' ↔ Closes faults := by
  constructor
  · intro hclean
    by_contra hopen
    rw [h.open_still hopen] at hclean
    exact opened_touched hfree hclean
  · intro hcloses
    obtain ⟨hobjects, hevents, f, hf, hsets⟩ := h.closed hcloses
    refine ⟨hobjects, hevents, fun c hc hnew => ?_⟩
    rw [hsets, mem_updateWhere] at hc
    obtain ⟨c₀, hc₀, rfl⟩ := hc
    split
    · exact (hf c₀).2
    rename_i hid
    rw [if_neg hid] at hnew
    rcases List.mem_append.mp hc₀ with hold | hnew'
    · exact absurd rfl (hnew c₀ hold)
    · rw [List.mem_singleton] at hnew'
      exact absurd (decide_eq_true (congrArg ChangeSetRow.id hnew')) hid

/-- A restore that throws leaves the store untouched. -/
abbrev FailsUntouched (ids : RestoreIds) (input : RestoreChangeSetInput) (faults : Nat → Fault)
    (db : Db) : Prop :=
  ∀ err db', run history (restoreChangeSet ids input) faults db = (.error err, db') →
    Untouched db db'

theorem untouched_of_run {err : HistoryError}
    (hrun : run history (restoreChangeSet ids input) faults db = (.error err, db')) :
    FailsUntouched ids input faults db ↔ Untouched db db' := by
  constructor
  · exact fun h => h err db' hrun
  · rintro h err' d hrun'
    rw [hrun] at hrun'
    cases hrun'
    exact h

theorem untouched_of_result {result : RestoreResult}
    (hrun : run history (restoreChangeSet ids input) faults db = (.ok result, db')) :
    FailsUntouched ids input faults db := by
  intro err d herror
  rw [hrun] at herror
  cases herror

theorem answered_opened {n : Nat} : Answered (fun i => faults (i + 2)) (n + 1) ↔
    faults 2 = .answered ∧ Answered (fun i => faults (i + 3)) n := answered_succ

theorem closes_of_answered {faults : Nat → Fault} (h₀ : faults 0 = .answered)
    (h₁ : faults 1 = .answered) : Closes faults :=
  ⟨h₀, fun message hfailed => by cases h₁.symm.trans hfailed⟩

theorem inverses_eq (ids : RestoreIds) (input : RestoreChangeSetInput) (db : Db) :
    (db.stuck input = none ∧ ∃ statements, db.inverses ids input = .statements statements) ∨
      ∃ e, db.stuck input = some e ∧ ((db.scope e.objectId input.actor.orgId = none ∧
            db.inverses ids input = .missing e.objectId) ∨
          db.scope e.objectId input.actor.orgId ≠ none ∧
            ∃ err, db.inverses ids input = .thrown err) := by
  have hbuilt := buildInverses_eq ids input.actor (db.changes input).reverse 0
    (versionsOf (db.opened ids input) input.actor.orgId (affectedObjectIds (db.changes input)))
  rw [stuckAt_eq] at hbuilt
  rcases hbuilt with hstatements | ⟨e, he, h⟩
  · exact .inl hstatements
  have hmem : e ∈ db.changes input :=
    List.mem_reverse.mp (List.mem_of_find?_eq_some he)
  rw [versionsOf_mem (mem_affected hmem), Option.isNone_map] at h
  refine .inr ⟨e, he, h.imp (And.imp_left Option.isNone_iff_eq_none.mp)
    (And.imp_left fun hthere hnone => ?_)⟩
  rw [show (db.opened ids input).scope e.objectId input.actor.orgId =
    db.scope e.objectId input.actor.orgId from rfl, hnone] at hthere
  cases hthere

theorem inverses_nil (hbuilt : db.inverses ids input = .statements statements) :
    statements = [] ↔ db.changes input = [] := by
  have hlength := (buildInverses_inverts hbuilt).length_eq
  rw [List.length_reverse] at hlength
  rw [← List.length_eq_zero_iff, ← hlength, List.length_eq_zero_iff]

theorem effect_iff (hkeyed : db.Keyed) (hdistinct : ids.Distinct) (hfresh : FreshFrom ids 0 db)
    (hbuilt : db.inverses ids input = .statements statements) (hstuck : db.stuck input = none) :
    (∃ db₁, transaction (db.opened ids input) statements = .ok db₁) ↔
      Fits (db.changes input) db := by
  have hkeyed' : (db.opened ids input).Keyed := hkeyed
  have hfresh' : FreshFrom ids 0 (db.opened ids input) :=
    ⟨hfresh.id, hfresh.key, hfresh.sequence⟩
  rw [transaction_ok_iff hdistinct hkeyed' hfresh' (tracks_versionsOf hkeyed' _ _) hbuilt]
  have hready : AllReady input.actor (db.changes input) db ↔ Fits (db.changes input) db :=
    allReady_iff input.actor fun e he => (stuck_eq_none.mp hstuck e he).2
  exact hready

section Opened

variable (hkeyed : db.Keyed) (hdistinct : ids.Distinct) (hfresh : FreshFrom ids 0 db)
  (hopens : Opens ids input faults db)

include hopens

theorem untouched_unread (h : ¬ Answered (fun i => faults (i + 2))
      ((affectedObjectIds (db.changes input)).length + 1)) :
    ∃ err, run history (restoreChangeSet ids input) faults db =
      (.error err, db.opened ids input) := by
  by_cases hanswered : faults 2 = .answered
  · rw [run_open hopens hanswered]
    exact run_opened_fault fun hreads => h (answered_opened.mpr ⟨hanswered, hreads⟩)
  · exact run_open_lost hopens hanswered

theorem run_answered (h : Answered (fun i => faults (i + 2))
      ((affectedObjectIds (db.changes input)).length + 1)) :
    run history (restoreChangeSet ids input) faults db =
      run history (applyInverses input ids.changeSetId (db.changes input)
        (db.inverses ids input)) (fun i => faults (i + callsBefore input db))
        (db.opened ids input) := by
  obtain ⟨hanswered, hreads⟩ := answered_opened.mp h
  rw [run_open hopens hanswered, run_opened hreads]
  rfl

theorem untouched_empty (hread : Answered (fun i => faults (i + 2))
      ((affectedObjectIds (db.changes input)).length + 1))
    (hbuilt : db.inverses ids input = .statements []) :
    FailsUntouched ids input faults db ↔ Closes (fun i => faults (i + callsBefore input db)) := by
  have hrun := run_answered hopens hread
  rw [hbuilt] at hrun
  obtain ⟨db', hended, ⟨h₀, h₁, result, hok⟩ | ⟨_, err, herror⟩⟩ :=
    run_apply_empty (fun i => faults (i + callsBefore input db)) input (db.changes input)
      opened_there
  · exact iff_of_true (untouched_of_result (hrun.trans hok)) (closes_of_answered h₀ h₁)
  · rw [untouched_of_run (hrun.trans herror)]
    exact ended_untouched hopens.free hended

theorem untouched_missing (hread : Answered (fun i => faults (i + 2))
      ((affectedObjectIds (db.changes input)).length + 1)) {objectId : String}
    (hbuilt : db.inverses ids input = .missing objectId) :
    FailsUntouched ids input faults db ↔ Closes (fun i => faults (i + callsBefore input db)) := by
  have hrun := run_answered hopens hread
  rw [hbuilt] at hrun
  obtain ⟨err, db', hended, herror⟩ := run_apply_missing
    (fun i => faults (i + callsBefore input db)) input (db.changes input) objectId opened_there
  rw [untouched_of_run (hrun.trans herror)]
  exact ended_untouched hopens.free hended

variable {rest : List Statement} {s : Statement}

theorem untouched_made (hread : Answered (fun i => faults (i + 2))
      ((affectedObjectIds (db.changes input)).length + 1))
    (hbuilt : db.inverses ids input = .statements (s :: rest)) {db₁ : Db}
    (h : transaction (db.opened ids input) (s :: rest) = .ok db₁)
    (htaken : ∀ message, faults (callsBefore input db) ≠ .failed message) :
    FailsUntouched ids input faults db ↔ Answered (fun i => faults (i + callsBefore input db)) 3 := by
  have hrun := run_answered hopens hread
  rw [hbuilt] at hrun
  have htaken' : ∀ message, faults (0 + callsBefore input db) ≠ .failed message := by
    rw [Nat.zero_add]
    exact htaken
  obtain ⟨db', hended, ⟨hanswered, result, hok⟩ | ⟨hnot, err, herror⟩⟩ := run_apply_effect
    (fun i => faults (i + callsBefore input db)) input (db.changes input) h htaken' opened_there
  · exact iff_of_true (untouched_of_result (hrun.trans hok)) hanswered
  rw [untouched_of_run (hrun.trans herror)]
  refine iff_of_false (fun hclean => ?_) hnot
  have hlength := congrArg List.length (hended.events.symm.trans hclean.events)
  rw [transaction_events h, List.length_cons] at hlength
  exact absurd hlength (Nat.ne_of_gt (Nat.lt_add_of_pos_right (Nat.succ_pos _)))

theorem untouched_refused (hread : Answered (fun i => faults (i + 2))
      ((affectedObjectIds (db.changes input)).length + 1))
    (hbuilt : db.inverses ids input = .statements (s :: rest))
    (h : (∃ e, transaction (db.opened ids input) (s :: rest) = .error e) ∨
      ∃ message, faults (callsBefore input db) = .failed message) :
    FailsUntouched ids input faults db ↔ Closes (fun i => faults (i + (callsBefore input db + 1))) := by
  have hrun := run_answered hopens hread
  rw [hbuilt] at hrun
  have h' : (∃ e, transaction (db.opened ids input) (s :: rest) = .error e) ∨
      ∃ message, faults (0 + callsBefore input db) = .failed message := by
    rw [Nat.zero_add]
    exact h
  have happly := run_apply_refused (fun i => faults (i + callsBefore input db)) input
    (db.changes input) h' opened_there
  obtain ⟨err, db', hended, herror⟩ := happly
  rw [untouched_of_run (hrun.trans herror), ended_untouched hopens.free hended]
  have hshift : (fun i => faults (i + 1 + callsBefore input db)) =
      fun i => faults (i + (callsBefore input db + 1)) := by
    funext i
    rw [Nat.add_assoc, Nat.add_comm 1]
  rw [hshift]

include hkeyed hdistinct hfresh

/-- **A restore that has opened its container leaves nothing half-done exactly when it meets
    with what it must.** -/
theorem untouched_iff : FailsUntouched ids input faults db ↔ Spotless ids input faults db := by
  by_cases hread : Answered (fun i => faults (i + 2))
      ((affectedObjectIds (db.changes input)).length + 1)
  · rcases inverses_eq ids input db with ⟨hstuck, statements, hbuilt⟩ |
      ⟨e, hstuck, ⟨hgone, hbuilt⟩ | ⟨hhere, err, hbuilt⟩⟩
    · have hnone : ∀ e ∈ db.stuck input, db.scope e.objectId input.actor.orgId = none := by
        rw [hstuck]
        rintro e ⟨⟩
      have hnot : ¬ (db.stuck input).isSome = true := by
        rw [hstuck]
        exact Bool.false_ne_true
      cases statements with
      | nil =>
        have hnil := (inverses_nil hbuilt).mp rfl
        rw [untouched_empty hopens hread hbuilt]
        exact ⟨fun hcloses => ⟨hread, hnone, fun _ => hcloses,
          fun _ hne => absurd hnil hne, fun _ hne => absurd hnil hne⟩,
          fun h => h.empty (.inr hnil)⟩
      | cons s rest =>
        have hne : db.changes input ≠ [] := fun hnil => by
          cases (inverses_nil hbuilt).mpr hnil
        have hempty : ((db.stuck input).isSome = true ∨ db.changes input = []) → False :=
          fun h => h.elim hnot hne
        have heffect := effect_iff hkeyed hdistinct hfresh hbuilt hstuck
        by_cases hmade : Fits (db.changes input) db ∧
            ∀ message, faults (callsBefore input db) ≠ .failed message
        · obtain ⟨hfits, htaken⟩ := hmade
          obtain ⟨db₁, htransaction⟩ := heffect.mpr hfits
          rw [untouched_made hopens hread hbuilt htransaction htaken]
          refine ⟨fun hanswered => ⟨hread, hnone, fun h => (hempty h).elim,
            fun _ _ _ _ => hanswered, ?_⟩, fun h => h.made hstuck hne hfits htaken⟩
          rintro _ _ (hunfit | ⟨message, hfailed⟩)
          · exact absurd hfits hunfit
          · exact absurd hfailed (htaken message)
        · have hrefused : ¬ Fits (db.changes input) db ∨
              ∃ message, faults (callsBefore input db) = .failed message := by
            rw [not_and_or, not_forall] at hmade
            simpa only [not_not] using hmade
          have hrefused' : (∃ e, transaction (db.opened ids input) (s :: rest) = .error e) ∨
              ∃ message, faults (callsBefore input db) = .failed message := by
            refine hrefused.imp_left fun hunfit => ?_
            cases htransaction : transaction (db.opened ids input) (s :: rest) with
            | error e => exact ⟨e, rfl⟩
            | ok db₁ => exact absurd (heffect.mp ⟨db₁, htransaction⟩) hunfit
          rw [untouched_refused hopens hread hbuilt hrefused']
          exact ⟨fun hcloses => ⟨hread, hnone, fun h => (hempty h).elim,
            fun _ _ hfits htaken => absurd ⟨hfits, htaken⟩ hmade, fun _ _ _ => hcloses⟩,
            fun h => h.refused hstuck hne hrefused⟩
    · have hsome : (db.stuck input).isSome = true := by
        rw [hstuck]
        rfl
      have hnot : db.stuck input ≠ none := by
        rw [hstuck]
        exact Option.some_ne_none e
      rw [untouched_missing hopens hread hbuilt]
      refine ⟨fun hcloses => ⟨hread, ?_, fun _ => hcloses, fun h => absurd h hnot,
        fun h => absurd h hnot⟩, fun h => h.empty (.inl hsome)⟩
      rw [hstuck]
      rintro _ ⟨⟩
      exact hgone
    · have hrun := run_answered hopens hread
      rw [hbuilt] at hrun
      rw [untouched_of_run (hrun.trans rfl)]
      refine iff_of_false (opened_touched hopens.free) fun h => hhere (h.built e ?_)
      rw [hstuck]
      rfl
  · obtain ⟨err, hrun⟩ := untouched_unread hopens hread
    rw [untouched_of_run hrun]
    exact iff_of_false (opened_touched hopens.free) fun h => hread h.answered

end Opened

/-! ## An eligible change set -/

/-- What an eligible change set must be to be undone. -/
structure Undoable (input : RestoreChangeSetInput) (db : Db) : Prop where
  inverse : ∀ e ∈ db.changes input, e.hasInverse = true
  visible : ∀ e ∈ db.changes input, ∀ r, db.object e.objectId = some r →
    visibleTo input.actor.orgId r.orgId = true
  fits : Fits (db.changes input) db

/-- Nothing in the database has an id that the restore mints. -/
structure RestoreIds.Fresh (ids : RestoreIds) (db : Db) : Prop where
  distinct : ids.Distinct
  events : FreshFrom ids 0 db
  container : ∀ c ∈ db.changeSets, c.id ≠ ids.changeSetId

theorem stuck_of_there (hkeyed : db.Keyed)
    (hthere : ∀ e ∈ db.changes input, ∃ r, db.object e.objectId = some r) :
    db.stuck input = none ↔ (∀ e ∈ db.changes input, e.hasInverse = true) ∧
      ∀ e ∈ db.changes input, ∀ r, db.object e.objectId = some r →
        visibleTo input.actor.orgId r.orgId = true := by
  rw [stuck_eq_none]
  constructor
  · intro h
    refine ⟨fun e he => (h e he).2, fun e he r hr => ?_⟩
    obtain ⟨scope, hscope⟩ := Option.isSome_iff_exists.mp (h e he).1
    obtain ⟨r', hr', hvisible, _⟩ := scope_some hkeyed hscope
    cases hr.symm.trans hr'
    exact hvisible
  · rintro ⟨hinverse, hvisible⟩ e he
    obtain ⟨r, hr⟩ := hthere e he
    exact ⟨scope_isSome hr (hvisible e he r hr), hinverse e he⟩

theorem Eligible.opens (h : Eligible input db)
    (hfree : ∀ c ∈ db.changeSets, c.id ≠ ids.changeSetId) (hall : ∀ n, faults n = .answered) :
    Opens ids input faults db := by
  obtain ⟨changeSet, hfound, hrestorable⟩ := h.restorable
  refine ⟨⟨hall 0, hall 1⟩, ⟨changeSet, hfound, ?_⟩, hfree, fun message hfailed => ?_⟩
  · rw [checkRestorable, h.verdict, if_pos hrestorable]
    cases input.bypassEligibility with
    | true | false => rfl
  · cases (hall 2).symm.trans hfailed

/-- An eligible change set is undone exactly when it is undoable. -/
theorem undone_iff (hkeyed : db.Keyed) (hfresh : ids.Fresh db) (heligible : Eligible input db)
    (hall : ∀ n, faults n = .answered) :
    (∃ result db', run history (restoreChangeSet ids input) faults db = (.ok result, db')) ↔
      Undoable input db := by
  have hopens : Opens ids input faults db := heligible.opens hfresh.container hall
  have hrun := run_answered hopens fun i _ => hall (i + 2)
  have hstuck_iff := stuck_of_there hkeyed heligible.there
  rcases inverses_eq ids input db with ⟨hstuck, statements, hbuilt⟩ | ⟨e, hstuck, hnot⟩
  · obtain ⟨hinverse, hvisible⟩ := hstuck_iff.mp hstuck
    have heffect := effect_iff hkeyed hfresh.distinct hfresh.events hbuilt hstuck
    rw [hbuilt] at hrun
    cases statements with
    | nil =>
      have hfits := heffect.mp ⟨_, rfl⟩
      obtain ⟨db', _, ⟨_, _, result, hok⟩ | ⟨hnot, _⟩⟩ :=
        run_apply_empty (fun i => faults (i + callsBefore input db)) input
          (db.changes input) opened_there
      · exact iff_of_true ⟨result, db', hrun.trans hok⟩ ⟨hinverse, hvisible, hfits⟩
      · exact absurd ⟨hall _, hall _⟩ hnot
    | cons s rest =>
      by_cases hfits : Fits (db.changes input) db
      · obtain ⟨db₁, htransaction⟩ := heffect.mpr hfits
        have htaken : ∀ message, faults (0 + callsBefore input db) ≠ .failed message := by
          intro message hfailed
          cases (hall _).symm.trans hfailed
        obtain ⟨db', _, ⟨_, result, hok⟩ | ⟨hnot, _⟩⟩ :=
          run_apply_effect (fun i => faults (i + callsBefore input db)) input (db.changes input)
            htransaction htaken opened_there
        · exact iff_of_true ⟨result, db', hrun.trans hok⟩ ⟨hinverse, hvisible, hfits⟩
        · exact absurd (fun i _ => hall _) hnot
      · have hrefused : ∃ e, transaction (db.opened ids input) (s :: rest) = .error e := by
          cases htransaction : transaction (db.opened ids input) (s :: rest) with
          | error e => exact ⟨e, rfl⟩
          | ok db₁ => exact absurd (heffect.mp ⟨db₁, htransaction⟩) hfits
        obtain ⟨err, db', _, herror⟩ := run_apply_refused
          (fun i => faults (i + callsBefore input db)) input (db.changes input)
          (.inl hrefused) opened_there
        refine iff_of_false ?_ fun h => hfits h.fits
        rintro ⟨result, d, hok⟩
        cases hok.symm.trans (hrun.trans herror)
  · refine iff_of_false ?_ fun h => ?_
    · rintro ⟨result, d, hok⟩
      obtain ⟨statements, _, hbuilt, _⟩ := restore_result hok
      rcases hnot with ⟨_, hmissing⟩ | ⟨_, err, hthrown⟩
      · cases hbuilt.symm.trans hmissing
      · cases hbuilt.symm.trans hthrown
    · cases hstuck.symm.trans (hstuck_iff.mpr ⟨h.inverse, h.visible⟩)

/-- **An eligible change set is undone, and a restore that throws leaves nothing half-done,
    exactly when the one is undoable and the other meets with what it must.** -/
theorem undone_or_untouched {ids : RestoreIds} {input : RestoreChangeSetInput}
    {faults : Nat → Fault} {db : Db} (hkeyed : db.Keyed) (hfresh : ids.Fresh db) :
    UndoneOrUntouched ids input faults db ↔
      (Eligible input db → (∀ n, faults n = .answered) → Undoable input db) ∧
        (Opens ids input faults db → Spotless ids input faults db) := by
  constructor
  · intro h
    refine ⟨fun heligible hall => ?_, fun hopens => ?_⟩
    · exact (undone_iff hkeyed hfresh heligible hall).mp (h.undone heligible hall)
    · exact (untouched_iff hkeyed hfresh.distinct hfresh.events hopens).mp h.untouched
  · rintro ⟨hundoable, hspotless⟩
    refine ⟨fun heligible hall => ?_, ?_⟩
    · exact (undone_iff hkeyed hfresh heligible hall).mpr (hundoable heligible hall)
    · by_cases hopens : Opens ids input faults db
      · exact (untouched_iff hkeyed hfresh.distinct hfresh.events hopens).mpr (hspotless hopens)
      · obtain ⟨err, hrun⟩ := run_unopened hopens
        refine (untouched_of_run hrun).mpr ?_
        exact ⟨rfl, rfl, fun c hc hnew => absurd rfl (hnew c hc)⟩

/-! ### The undo of an undelete -/

/-- A note is made, deleted, and brought back. -/
def broughtBack : Db :=
  (run history (do
    let _ ← historyAwareUpsert (mintedFor "c1") none { id := "x", type := "note", data := [] }
      { expectedBaseVersion := none, actor := retyper }
    let _ ← historyAwareSoftDelete (mintedFor "c2") "x" (some "o1")
      { expectedBaseVersion := some 1, actor := retyper }
    historyAwareUndelete (mintedFor "c3") "x" (some "o1") []
      { expectedBaseVersion := some 2, actor := retyper }) (fun _ => .answered) {}).2

/-- The last change is undone. -/
def broughtBackInput : RestoreChangeSetInput where
  changeSetId := "c3"
  actor := retyper

/-- Ids that are as long as their numbers. -/
def tallyIds : RestoreIds where
  changeSetId := "c4"
  eventId n := String.ofList (List.replicate n '|')
  idempotencyKey n := String.ofList (List.replicate n '|')

def noFaults : Nat → Fault := fun _ => .answered

def broughtBackUndone : Except HistoryError RestoreResult × Db :=
  run history (restoreChangeSet tallyIds broughtBackInput) noFaults broughtBack

theorem tally_distinct : tallyIds.Distinct := by
  have hinjective : Function.Injective (fun n => String.ofList (List.replicate n '|')) := by
    intro m n h
    have hlength := congrArg (fun s => s.toList.length) h
    simpa using hlength
  exact ⟨hinjective, hinjective⟩

theorem ne_tally {s : String} (n : Nat) (h : ∃ c ∈ s.toList, c ≠ '|') :
    s ≠ String.ofList (List.replicate n '|') := by
  rintro rfl
  obtain ⟨c, hc, hne⟩ := h
  rw [String.toList_ofList] at hc
  exact hne (List.eq_of_mem_replicate hc)

theorem tally_fresh : tallyIds.Fresh broughtBack := by
  have hlog : broughtBack.events.all (fun e => e.id.toList.any (· ≠ '|') &&
      decide (e.idempotencyKey.toList.take 4 ≠ "che_".toList) &&
      decide (e.changeSetId ≠ "c4")) = true := by
    decide +kernel
  have hsets : broughtBack.changeSets.all (fun c => c.id ≠ "c4") = true := by decide +kernel
  simp only [List.all_eq_true, Bool.and_eq_true, decide_eq_true_eq, List.any_eq_true] at hlog hsets
  refine ⟨tally_distinct, ⟨fun e he m _ => ?_, fun e he m _ hkey => ?_, fun e he m _ hset => ?_⟩,
    hsets⟩
  · exact ne_tally m (hlog e he).1.1
  · refine (hlog e he).1.2 ?_
    rw [hkey, String.toList_append]
    rfl
  · exact absurd hset (hlog e he).2

theorem undone_or_untouched_broughtBack : broughtBack.Keyed ∧ tallyIds.Fresh broughtBack ∧
    (UndoneOrUntouched tallyIds broughtBackInput noFaults broughtBack ↔
      (Eligible broughtBackInput broughtBack → (∀ n, noFaults n = .answered) →
        Undoable broughtBackInput broughtBack) ∧
        (Opens tallyIds broughtBackInput noFaults broughtBack →
          Spotless tallyIds broughtBackInput noFaults broughtBack)) := by
  have hkeyed : broughtBack.Keyed := by
    unfold Db.Keyed
    decide +kernel
  exact ⟨hkeyed, tally_fresh, undone_or_untouched hkeyed tally_fresh⟩

/-- The change set is eligible; the restore throws, and its container stays open. -/
theorem broughtBack_stuck : Eligible broughtBackInput broughtBack ∧
    (∃ err, broughtBackUndone.1 = .error err) ∧ ¬ Untouched broughtBack broughtBackUndone.2 ∧
    ¬ UndoneOrUntouched tallyIds broughtBackInput noFaults broughtBack := by
  have herror : broughtBackUndone.1 = .error (.thrown ("buildInverseStatement: refusing to " ++
      "invert a restore event; restore the original change_set again instead")) := by
    decide +kernel
  have hopen : broughtBackUndone.2.changeSets.any (fun c => c.id = "c4" && !c.closed) = true := by
    decide +kernel
  have hnew : broughtBack.changeSets.all (fun c => c.id ≠ "c4") = true := by decide +kernel
  have htouched : ¬ Untouched broughtBack broughtBackUndone.2 := by
    intro h
    rw [List.any_eq_true] at hopen
    obtain ⟨c, hc, hcontainer⟩ := hopen
    rw [Bool.and_eq_true, decide_eq_true_eq] at hcontainer
    obtain ⟨hid, hclosed⟩ := hcontainer
    rw [h.closed c hc fun c' hc' => ?_] at hclosed
    · cases hclosed
    · rw [hid]
      exact of_decide_eq_true (List.all_eq_true.mp hnew c' hc')
  refine ⟨⟨?_, ?_, ?_⟩, ⟨_, herror⟩, htouched, fun h => ?_⟩
  · decide +kernel
  · have hrow : ((broughtBack.changeSet broughtBackInput).map ChangeSetRow.restorable) =
        some true := by decide +kernel
    exact Option.map_eq_some_iff.mp hrow
  · have hrows : (broughtBack.changes broughtBackInput).all (fun e =>
        (broughtBack.object e.objectId).isSome) = true := by decide +kernel
    intro e he
    exact Option.isSome_iff_exists.mp (List.all_eq_true.mp hrows e he)
  · exact htouched (h.untouched _ _ (Prod.ext herror rfl))

end History
