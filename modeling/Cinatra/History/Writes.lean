import Cinatra.History.HistoryStore

/-! # Writes — what a statement does to the rows and the log

    One lemma says what a statement that succeeds has done (`apply_ok`); the rest
    reads it off: the row it leaves, the rows it leaves alone, the key of the table,
    and the same for the statements of a transaction. -/

namespace History

open RowTable

/-- The primary key of `objects`. -/
def Db.Keyed (db : Db) : Prop := (db.objects.map ObjectRow.id).Nodup

/-- The statement has left a row, and the event that records it. -/
structure Wrote (s : Statement) (db db' : Db) (row : ObjectRow) : Prop where
  objects : (∃ args, s = .create args ∧ row = insertedRow args ∧
      (∀ r ∈ db.objects, r.id ≠ args.id) ∧ db'.objects = db.objects ++ [row]) ∨
    ∃ r, db.objects.find? s.finds = some r ∧ row = s.sets r ∧
      db'.objects = updateWhere s.finds s.sets db.objects
  events : db'.events = db.events ++ [s.record row]
  unique : ∀ e ∈ db.events, clashes (s.record row) e = false
  changeSets : db'.changeSets = db.changeSets
  proposals : db'.proposals = db.proposals

variable {db db' : Db} {e : ObjectChangeEvent}

theorem append_ok (h : db.append e = .ok db') :
    (∀ e' ∈ db.events, clashes e e' = false) ∧ db' = { db with events := db.events ++ [e] } := by
  rw [Db.append] at h
  split at h
  · cases h
  · rename_i hclash
    rw [Bool.not_eq_true, List.any_eq_false] at hclash
    refine ⟨fun e' he' => Bool.eq_false_iff.mpr (hclash e' he'), ?_⟩
    exact (Except.ok.inj h).symm

variable {s : Statement}

theorem apply_change (db : Db) (hs : ∀ args, s ≠ .create args) :
    s.apply db = (db.objects.find? s.finds).elim (.error .divisionByZero) (fun r =>
      { db with objects := updateWhere s.finds s.sets db.objects }.append
        (s.record (s.sets r))) := by
  cases s with
  | create args => exact absurd rfl (hs args)
  | update args version before =>
    rw [Statement.apply]
    cases db.objects.find? (Statement.update args version before).finds with
    | none | some => rfl
    all_goals exact fun _ => Statement.noConfusion
  | softDelete id orgId event version before =>
    rw [Statement.apply]
    cases db.objects.find? (Statement.softDelete id orgId event version before).finds with
    | none | some => rfl
    all_goals exact fun _ => Statement.noConfusion
  | undelete id orgId event version data before =>
    rw [Statement.apply]
    cases db.objects.find? (Statement.undelete id orgId event version data before).finds with
    | none | some => rfl
    all_goals exact fun _ => Statement.noConfusion

/-- **What a statement that succeeds has done.** -/
theorem apply_ok (h : s.apply db = .ok db') : ∃ row, Wrote s db db' row := by
  have hchange : (∀ args, s ≠ .create args) → ∃ row, Wrote s db db' row := by
    intro hs
    rw [apply_change db hs] at h
    cases hfind : db.objects.find? s.finds with
    | none =>
      rw [hfind] at h
      cases h
    | some r =>
      rw [hfind] at h
      obtain ⟨hunique, rfl⟩ := append_ok h
      exact ⟨s.sets r, .inr ⟨r, hfind, rfl, rfl⟩, rfl, hunique, rfl, rfl⟩
  cases s with
  | create args =>
    rw [Statement.apply] at h
    split at h
    · cases h
    rename_i hexists
    obtain ⟨hunique, rfl⟩ := append_ok h
    refine ⟨insertedRow args, .inl ⟨args, rfl, rfl, fun r hr hid => ?_, rfl⟩, rfl, hunique,
      rfl, rfl⟩
    exact hexists (List.any_eq_true.mpr ⟨r, hr, decide_eq_true hid⟩)
  | update args version before => exact hchange fun args => Statement.noConfusion
  | softDelete id orgId event version before => exact hchange fun args => Statement.noConfusion
  | undelete id orgId event version data before =>
    exact hchange fun args => Statement.noConfusion

variable {db : Db}

theorem append_fresh
    (h : ∀ e' ∈ db.events, clashes e e' = false) : ∃ db', db.append e = .ok db' := by
  rw [Db.append, if_neg]
  · exact ⟨_, rfl⟩
  · rw [Bool.not_eq_true, List.any_eq_false]
    exact fun e' he' => Bool.eq_false_iff.mp (h e' he')

variable {r : ObjectRow}

theorem apply_found (hs : ∀ args, s ≠ .create args) (hfind : db.objects.find? s.finds = some r)
    (hfresh : ∀ e ∈ db.events, clashes (s.record (s.sets r)) e = false) :
    ∃ db', s.apply db = .ok db' := by
  rw [apply_change db hs, hfind]
  exact append_fresh hfresh

/-! ## Rows -/

theorem Statement.finds_id (h : s.finds r = true) : r.id = s.objectId := by
  cases s with
  | create args => cases h
  | update args version before =>
    simp only [finds, Bool.and_eq_true, decide_eq_true_eq] at h
    exact h.1.1
  | softDelete | undelete =>
    simp only [finds, Bool.and_eq_true, decide_eq_true_eq] at h
    exact h.1.1.1

@[simp] theorem Statement.sets_id (s : Statement) (r : ObjectRow) : (s.sets r).id = r.id := by
  cases s with
  | create | update | softDelete | undelete => rfl

theorem Statement.sets_version (h : s.finds r = true) : (s.sets r).version = r.version + 1 := by
  cases s with
  | create args => cases h
  | update | softDelete | undelete => rfl

theorem object_id {id : String} (h : db.object id = some r) :
    r.id = id := of_decide_eq_true (List.find?_some h :)

theorem object_of_mem (hkeyed : db.Keyed) (hr : r ∈ db.objects) : db.object r.id = some r :=
  find?_eq_some_of_key hkeyed hr

theorem find_finds (hkeyed : db.Keyed) :
    db.objects.find? s.finds = some r ↔ db.object s.objectId = some r ∧ s.finds r = true := by
  constructor
  · intro hfind
    have hfinds : s.finds r = true := List.find?_some hfind
    rw [← Statement.finds_id hfinds]
    exact ⟨object_of_mem hkeyed (List.mem_of_find?_eq_some hfind), hfinds⟩
  · rintro ⟨hobject, hfinds⟩
    cases hfind : db.objects.find? s.finds with
    | none =>
      rw [List.find?_eq_none] at hfind
      exact absurd hfinds (hfind r (List.mem_of_find?_eq_some hobject))
    | some r' =>
      have hfinds' : s.finds r' = true := List.find?_some hfind
      have hobject' := object_of_mem hkeyed (List.mem_of_find?_eq_some hfind)
      rw [Statement.finds_id hfinds', hobject] at hobject'
      rw [Option.some.inj hobject']

section Wrote

variable {s : Statement} {db db' : Db} {row : ObjectRow}

variable (h : Wrote s db db' row)

include h

theorem Wrote.found (hkeyed : db.Keyed) (hs : ∀ args, s ≠ .create args) :
    ∃ r, db.object s.objectId = some r ∧ s.finds r = true ∧ row = s.sets r := by
  rcases h.objects with ⟨args, rfl, _⟩ | ⟨r, hfind, hrow, _⟩
  · exact absurd rfl (hs args)
  · obtain ⟨hobject, hfinds⟩ := (find_finds hkeyed).mp hfind
    exact ⟨r, hobject, hfinds, hrow⟩

theorem Wrote.row_id : row.id = s.objectId := by
  rcases h.objects with ⟨args, rfl, rfl, _⟩ | ⟨r, hfind, rfl, _⟩
  · rfl
  · rw [Statement.sets_id]
    exact Statement.finds_id (List.find?_some hfind :)

theorem Wrote.keyed (hkeyed : db.Keyed) : db'.Keyed := by
  rw [Db.Keyed]
  rcases h.objects with ⟨args, rfl, rfl, hnew, hobjects⟩ | ⟨r, _, _, hobjects⟩
  · rw [hobjects]
    exact nodup_concat hkeyed hnew
  · rw [hobjects, map_updateWhere db.objects ObjectRow.id (fun r => s.sets_id r)]
    exact hkeyed

/-- **The row a statement leaves, and the rows it leaves alone.** -/
theorem Wrote.object (hkeyed : db.Keyed) (id : String) :
    db'.object id = if id = s.objectId then some row else db.object id := by
  rw [Db.object]
  rcases h.objects with ⟨args, rfl, rfl, hnew, hobjects⟩ | ⟨r, hfind, rfl, hobjects⟩
  · rw [hobjects, List.find?_append]
    split
    · rename_i hid
      have hnone : db.objects.find? (fun r => decide (r.id = id)) = none := by
        rw [List.find?_eq_none]
        intro r hr
        rw [decide_eq_true_eq, hid]
        exact hnew r hr
      have hself : decide ((insertedRow args).id = id) = true := decide_eq_true hid.symm
      rw [hnone, Option.none_or, List.find?_cons, hself]
    · rename_i hid
      have hother : decide ((insertedRow args).id = id) = false := decide_eq_false fun h =>
        hid h.symm
      rw [List.find?_cons, hother, List.find?_nil, Option.or_none]
      rfl
  · rw [hobjects, find?_updateWhere]
    · have hr := Statement.finds_id (List.find?_some hfind :)
      split
      · rename_i hid
        have hrow : db.objects.find? (fun r => decide (r.id = id)) = some r := by
          rw [hid, ← hr]
          exact object_of_mem hkeyed (List.mem_of_find?_eq_some hfind)
        rw [hrow, Option.map_some, if_pos (List.find?_some hfind :)]
      · rename_i hid
        rw [Db.object]
        cases hother : db.objects.find? (fun r => decide (r.id = id)) with
        | none => rfl
        | some r' =>
          rw [Option.map_some, if_neg]
          intro hfinds
          have hid' : r'.id = id := of_decide_eq_true (List.find?_some hother :)
          exact hid (hid'.symm.trans (Statement.finds_id hfinds))
    · intro r' _
      rw [Statement.sets_id]

end Wrote

theorem transaction_cons {rest : List Statement} (h : transaction db (s :: rest) = .ok db') :
    ∃ db₁, s.apply db = .ok db₁ ∧ transaction db₁ rest = .ok db' := by
  rw [transaction, List.foldlM_cons] at h
  cases happly : s.apply db with
  | error e =>
    rw [happly] at h
    cases h
  | ok db₁ =>
    rw [happly] at h
    exact ⟨db₁, rfl, h⟩

theorem transaction_nil (h : transaction db [] = .ok db') : db' = db :=
  (Except.ok.inj h).symm

variable {statements : List Statement}

/-- **The induction over a transaction**: what every statement keeps it keeps. -/
theorem transaction_keeps {I : Db → Prop}
    (hstep : ∀ s ∈ statements, ∀ db db' row, Wrote s db db' row → I db → I db')
    (h : transaction db statements = .ok db') (hI : I db) : I db' := by
  induction statements generalizing db with
  | nil =>
    rw [transaction_nil h]
    exact hI
  | cons s rest ih =>
    obtain ⟨db₁, happly, hrest⟩ := transaction_cons h
    obtain ⟨row, hwrote⟩ := apply_ok happly
    exact ih (fun s' hs' => hstep s' (List.mem_cons_of_mem s hs')) hrest
      (hstep s (.head _) db db₁ row hwrote hI)

theorem transaction_keyed
    (h : transaction db statements = .ok db') (hkeyed : db.Keyed) : db'.Keyed :=
  transaction_keeps (fun _ _ _ _ _ hwrote hkeyed => hwrote.keyed hkeyed) h hkeyed

end History
