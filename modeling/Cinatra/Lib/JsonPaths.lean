import Cinatra.Lib.Json

/-! # JsonPaths — where a value stands inside another

    A path is the list of fields and positions that lead from a JSON value to one of
    its parts.  `nesting` is the height of a value as a tree, its own level included:
    no path is longer (`Reaches.length_lt`), and one is as long
    (`exists_reaches_nesting`). -/

namespace JsonValue

/-- One step down: a field of an object, or a position of an array. -/
inductive Step where
  | field (name : String)
  | item (i : Nat)

/-- `Reaches v p u`: the path `p` leads from `v` to `u`. -/
inductive Reaches : Json → List Step → Json → Prop
  | here (v : Json) : Reaches v [] v
  | field {fs : List (String × Json)} {k : String} {w u : Json} {p : List Step} :
      (k, w) ∈ fs → Reaches w p u → Reaches (.obj fs) (.field k :: p) u
  | item {xs : List Json} {i : Nat} {w u : Json} {p : List Step} :
      xs[i]? = some w → Reaches w p u → Reaches (.arr xs) (.item i :: p) u

/-- `v && typeof v === "object"`: an object or an array. -/
def Json.isContainer : Json → Bool
  | .arr _ => true
  | .obj _ => true
  | _ => false

mutual
/-- The levels of a value, its own included. -/
def nesting : Json → Nat
  | .arr xs => 1 + nestingItems xs
  | .obj fs => 1 + nestingFields fs
  | _ => 1

/-- The levels below an array. -/
def nestingItems : List Json → Nat
  | [] => 0
  | x :: xs => max (nesting x) (nestingItems xs)

/-- The levels below an object. -/
def nestingFields : List (String × Json) → Nat
  | [] => 0
  | (_, x) :: fs => max (nesting x) (nestingFields fs)
end

theorem nesting_arr (xs : List Json) : nesting (.arr xs) = 1 + nestingItems xs := rfl

theorem nesting_obj (fs : List (String × Json)) : nesting (.obj fs) = 1 + nestingFields fs := rfl

theorem nestingItems_cons (x : Json) (xs : List Json) :
    nestingItems (x :: xs) = max (nesting x) (nestingItems xs) := rfl

theorem nestingFields_cons (k : String) (x : Json) (fs : List (String × Json)) :
    nestingFields ((k, x) :: fs) = max (nesting x) (nestingFields fs) := rfl

variable {p : List Step} {q : List Step} {w : Json}

theorem Reaches.append {v u : Json} (h : Reaches v p w)
    (h' : Reaches w q u) : Reaches v (p ++ q) u := by
  induction h with
  | here v => exact h'
  | field hmem _ ih => exact .field hmem (ih h')
  | item hget _ ih => exact .item hget (ih h')

theorem Reaches.split {v u : Json} (h : Reaches v (p ++ q) u) :
    ∃ w, Reaches v p w ∧ Reaches w q u := by
  induction p generalizing v with
  | nil => exact ⟨v, .here v, h⟩
  | cons s p ih =>
    cases h with
    | field hmem hrest =>
      obtain ⟨w, hw, hu⟩ := ih hrest
      exact ⟨w, .field hmem hw, hu⟩
    | item hget hrest =>
      obtain ⟨w, hw, hu⟩ := ih hrest
      exact ⟨w, .item hget hw, hu⟩

theorem Reaches.container {v u : Json} {s : Step} (h : Reaches v (s :: p) u) :
    v.isContainer = true := by
  cases h with
  | field | item => rfl

theorem nesting_pos (v : Json) : 0 < nesting v := by
  cases v with
  | arr xs =>
    rw [nesting_arr]
    omega
  | obj fs =>
    rw [nesting_obj]
    omega
  | null | bool | num | str => exact Nat.one_pos

theorem nesting_le_items {xs : List Json} (h : w ∈ xs) : nesting w ≤ nestingItems xs := by
  induction xs with
  | nil => cases h
  | cons x xs ih =>
    rw [nestingItems_cons]
    rcases List.mem_cons.mp h with rfl | h
    · exact Nat.le_max_left _ _
    · exact Nat.le_trans (ih h) (Nat.le_max_right _ _)

theorem nesting_le_fields {fs : List (String × Json)} {k : String}
    (h : (k, w) ∈ fs) : nesting w ≤ nestingFields fs := by
  induction fs with
  | nil => cases h
  | cons f fs ih =>
    obtain ⟨l, x⟩ := f
    rw [nestingFields_cons]
    rcases List.mem_cons.mp h with he | h
    · rw [(Prod.mk.inj he).2]
      exact Nat.le_max_left _ _
    · exact Nat.le_trans (ih h) (Nat.le_max_right _ _)

theorem Reaches.length_lt {v u : Json} (h : Reaches v p u) : p.length < nesting v := by
  induction h with
  | here v => exact nesting_pos v
  | field hmem _ ih =>
    have hle := nesting_le_fields hmem
    rw [nesting_obj, List.length_cons]
    omega
  | item hget _ ih =>
    have hle := nesting_le_items (List.mem_of_getElem? hget)
    rw [nesting_arr, List.length_cons]
    omega

private theorem items_nil_or (xs : List Json) :
    nestingItems xs = 0 ∨ ∃ (i : Nat) (w : Json), xs[i]? = some w ∧ nesting w = nestingItems xs := by
  induction xs with
  | nil => exact .inl rfl
  | cons x xs ih =>
    refine .inr ?_
    rw [nestingItems_cons]
    by_cases hle : nesting x ≤ nestingItems xs
    · rcases ih with h0 | ⟨i, w, hget, hw⟩
      · have hpos := nesting_pos x
        omega
      · exact ⟨i + 1, w, hget, by rw [Nat.max_eq_right hle, hw]⟩
    · exact ⟨0, x, rfl, by rw [Nat.max_eq_left (by omega)]⟩

private theorem fields_nil_or (fs : List (String × Json)) : nestingFields fs = 0 ∨
      ∃ (k : String) (w : Json), (k, w) ∈ fs ∧ nesting w = nestingFields fs := by
  induction fs with
  | nil => exact .inl rfl
  | cons f fs ih =>
    obtain ⟨l, x⟩ := f
    refine .inr ?_
    rw [nestingFields_cons]
    by_cases hle : nesting x ≤ nestingFields fs
    · rcases ih with h0 | ⟨k, w, hmem, hw⟩
      · have hpos := nesting_pos x
        omega
      · exact ⟨k, w, .tail _ hmem, by rw [Nat.max_eq_right hle, hw]⟩
    · exact ⟨l, x, List.mem_cons_self .., by rw [Nat.max_eq_left (by omega)]⟩

theorem exists_reaches_nesting (v : Json) : ∃ p u, Reaches v p u ∧ p.length + 1 = nesting v := by
  induction hn : nesting v using Nat.strongRecOn generalizing v with
  | ind n ih =>
    cases v with
    | arr xs =>
      rw [nesting_arr] at hn
      rcases items_nil_or xs with h0 | ⟨i, w, hget, hw⟩
      · exact ⟨[], _, .here _, by simp; omega⟩
      · obtain ⟨p, u, hp, hlen⟩ := ih (nesting w) (by omega) w rfl
        exact ⟨.item i :: p, u, .item hget hp, by rw [List.length_cons]; omega⟩
    | obj fs =>
      rw [nesting_obj] at hn
      rcases fields_nil_or fs with h0 | ⟨k, w, hmem, hw⟩
      · exact ⟨[], _, .here _, by simp; omega⟩
      · obtain ⟨p, u, hp, hlen⟩ := ih (nesting w) (by omega) w rfl
        exact ⟨.field k :: p, u, .field hmem hp, by rw [List.length_cons]; omega⟩
    | null | bool | num | str => exact ⟨[], _, .here _, by rw [← hn]; rfl⟩

end JsonValue
