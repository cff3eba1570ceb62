import Mathlib.Data.List.Nodup

/-! # Tables — rows, keys and updates

    A table is a list of rows; a key of it is a column without repeats.  The
    statements of SQL the engines of this kind use are `updateWhere` (an
    `UPDATE … WHERE`), `List.filter` (a `DELETE`) and `++ [row]` (an `INSERT`).
    What a row-wise update keeps is stated once, for any column. -/

namespace RowTable

variable {α κ : Type}

/-- `UPDATE … SET f WHERE p`. -/
def updateWhere (p : α → Bool) (f : α → α) (rows : List α) : List α :=
  rows.map (fun r => if p r then f r else r)

variable {rows : List α} {key : α → κ}

theorem eq_of_key (hnd : (rows.map key).Nodup)
    {a b : α} (ha : a ∈ rows) (hb : b ∈ rows) (h : key a = key b) : a = b :=
  List.inj_on_of_nodup_map hnd ha hb h

theorem mem_concat {a b : α} : a ∈ rows ++ [b] ↔ a ∈ rows ∨ a = b := by
  rw [List.mem_append, List.mem_singleton]

/-- A row of a new key can be inserted. -/
theorem nodup_concat (hnd : (rows.map key).Nodup) {b : α}
    (hb : ∀ a ∈ rows, key a ≠ key b) : ((rows ++ [b]).map key).Nodup := by
  rw [List.map_append, List.map_singleton, List.nodup_append]
  refine ⟨hnd, List.nodup_singleton _, ?_⟩
  intro k hk l hl
  obtain ⟨a, ha, rfl⟩ := List.mem_map.mp hk
  rw [List.mem_singleton.mp hl]
  exact hb a ha

theorem find?_eq_some_of_key [DecidableEq κ] (hnd : (rows.map key).Nodup) {a : α} (ha : a ∈ rows) :
    rows.find? (fun r => key r = key a) = some a := by
  cases h : rows.find? (fun r => key r = key a) with
  | none =>
    have := List.find?_eq_none.mp h a ha
    exact absurd (by simp) this
  | some b =>
    have hb := List.mem_of_find?_eq_some h
    have hk : key b = key a := by simpa using List.find?_some h
    rw [eq_of_key hnd hb ha hk]

variable {p : α → Bool}

/-- Looking for a row of some key that meets a condition: the row of the key, if it does. -/
theorem find?_and_key [DecidableEq κ] (hnd : (rows.map key).Nodup)
    {k : κ} (hp : ∀ r, p r = true → key r = k) :
    rows.find? p = (rows.find? (fun r => key r = k)).filter p := by
  cases h : rows.find? p with
  | none =>
    rw [List.find?_eq_none] at h
    cases hk : rows.find? (fun r => key r = k) with
    | none => rfl
    | some a => rw [Option.filter_some, if_neg (h a (List.mem_of_find?_eq_some hk))]
  | some a =>
    have hmeets : p a = true := List.find?_some h
    have hkey := find?_eq_some_of_key hnd (List.mem_of_find?_eq_some h)
    rw [hp a hmeets] at hkey
    rw [hkey, Option.filter_some, if_pos hmeets]

variable {f : α → α}

theorem mem_updateWhere {r : α} :
    r ∈ updateWhere p f rows ↔ ∃ r₀ ∈ rows, r = if p r₀ then f r₀ else r₀ := by
  rw [updateWhere, List.mem_map]
  constructor
  · rintro ⟨r₀, h₀, rfl⟩
    exact ⟨r₀, h₀, rfl⟩
  · rintro ⟨r₀, h₀, rfl⟩
    exact ⟨r₀, h₀, rfl⟩

theorem updateWhere_cases {r : α} (h : r ∈ updateWhere p f rows) :
    (∃ r₀ ∈ rows, p r₀ = true ∧ r = f r₀) ∨ r ∈ rows ∧ p r ≠ true := by
  obtain ⟨r₀, h₀, rfl⟩ := mem_updateWhere.mp h
  by_cases hp : p r₀ = true
  · exact .inl ⟨r₀, h₀, hp, if_pos hp⟩
  · rw [if_neg hp]
    exact .inr ⟨h₀, hp⟩

theorem map_updateWhere (rows : List α) (column : α → κ) (hf : ∀ r, column (f r) = column r) :
    (updateWhere p f rows).map column = rows.map column := by
  rw [updateWhere, List.map_map]
  apply List.map_congr_left
  intro r _
  show column (if p r then f r else r) = column r
  by_cases hp : p r = true
  · rw [if_pos hp, hf]
  · rw [if_neg hp]

theorem any_updateWhere {p q : α → Bool} (rows : List α)
    (hf : ∀ r, p r = true → q (f r) = q r) : (updateWhere p f rows).any q = rows.any q := by
  rw [updateWhere, List.any_map]
  congr 1
  funext r
  show q (if p r then f r else r) = q r
  split
  · rename_i hp
    exact hf r hp
  · rfl

theorem any_filter_not_self (rows : List α) : (rows.filter (fun r => !p r)).any p = false := by
  rw [List.any_eq_false]
  intro r hr hp
  have hnot := (List.mem_filter.mp hr).2
  rw [hp] at hnot
  cases hnot

theorem find?_updateWhere {p q : α → Bool} (rows : List α) (hf : ∀ r, p r = true → q (f r) = q r) :
    (updateWhere p f rows).find? q = (rows.find? q).map (fun r => if p r then f r else r) := by
  rw [updateWhere, List.find?_map]
  congr 2
  funext r
  show q (if p r then f r else r) = q r
  split
  · rename_i hp
    exact hf r hp
  · rfl

theorem find?_updateWhere_other {p q : α → Bool} (rows : List α)
    (hf : ∀ r, p r = true → q (f r) = false) (hq : ∀ r, q r = true → p r = false) :
    (updateWhere p f rows).find? q = rows.find? q := by
  rw [find?_updateWhere]
  · cases h : rows.find? q with
    | none => rfl
    | some r => rw [Option.map_some, hq r (List.find?_some h), if_neg Bool.false_ne_true]
  · intro r hp
    rw [hf r hp, eq_comm, Bool.eq_false_iff]
    intro hqr
    rw [hq r hqr] at hp
    cases hp

theorem updateWhere_eq_self (h : ∀ r ∈ rows, p r = false) : updateWhere p f rows = rows := by
  rw [updateWhere]
  conv => rhs; rw [← List.map_id rows]
  apply List.map_congr_left
  intro r hr
  rw [h r hr]
  rfl

end RowTable
