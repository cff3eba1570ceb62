import Mathlib.Data.List.Basic

/-! # OrderedMap — maps that remember the order of insertion

    A JavaScript `Map`: setting a key that is there replaces its value where it
    stands, setting a new one adds it at the end. -/

/-- The entries of a map, in the order its keys were first set. -/
abbrev OrderedMap (κ ν : Type) := List (κ × ν)

namespace OrderedMap

variable {κ ν ν' : Type} [DecidableEq κ]

/-- `map.get(k)`. -/
def get? (k : κ) : OrderedMap κ ν → Option ν
  | [] => none
  | (k', v) :: m => if k' = k then some v else get? k m

/-- `map.set(k, v)`. -/
def set (k : κ) (v : ν) : OrderedMap κ ν → OrderedMap κ ν
  | [] => [(k, v)]
  | (k', v') :: m => if k' = k then (k', v) :: m else (k', v') :: set k v m

/-- `Object.keys`. -/
def keys (m : OrderedMap κ ν) : List κ := m.map Prod.fst

@[simp] theorem get?_nil (k : κ) : get? k ([] : OrderedMap κ ν) = none := rfl

theorem get?_cons (k k' : κ) (v : ν) (m : OrderedMap κ ν) :
    get? k ((k', v) :: m) = if k' = k then some v else get? k m := rfl

theorem set_cons (k k' : κ) (v v' : ν) (m : OrderedMap κ ν) :
    set k v ((k', v') :: m) = if k' = k then (k', v) :: m else (k', v') :: set k v m := rfl

/-- Setting a key replaces its value and leaves the other keys alone. -/
theorem get?_set (k k₁ : κ) (v : ν) (m : OrderedMap κ ν) :
    get? k₁ (set k v m) = if k₁ = k then some v else get? k₁ m := by
  induction m with
  | nil =>
    show (if k = k₁ then some v else none) = if k₁ = k then some v else none
    simp only [eq_comm]
  | cons e m ih =>
    obtain ⟨k', v'⟩ := e
    rw [set_cons, get?_cons]
    by_cases hk : k' = k
    · rw [if_pos hk, get?_cons, hk]
      simp only [eq_comm]
      split <;> rfl
    · rw [if_neg hk, get?_cons, ih]
      by_cases hk₁ : k' = k₁
      · rw [if_pos hk₁, if_pos hk₁, if_neg (fun h => hk (hk₁.trans h))]
      · rw [if_neg hk₁, if_neg hk₁]

@[simp] theorem get?_set_self (k : κ) (v : ν) (m : OrderedMap κ ν) :
    get? k (set k v m) = some v := by
  rw [get?_set, if_pos rfl]

@[simp] theorem get?_set_ne {k k₁ : κ} (h : k₁ ≠ k) (v : ν) (m : OrderedMap κ ν) :
    get? k₁ (set k v m) = get? k₁ m := by
  rw [get?_set, if_neg h]

variable {m : OrderedMap κ ν} {v : ν}

theorem get?_set_of_some {k k₁ : κ} {w : ν} (hnew : get? k m = none)
    (h : get? k₁ m = some w) : get? k₁ (set k v m) = some w := by
  have hne : k₁ ≠ k := by
    rintro rfl
    rw [hnew] at h
    cases h
  rw [get?_set_ne hne, h]

variable {k : κ}

theorem mem_of_get? (h : get? k m = some v) : (k, v) ∈ m := by
  induction m with
  | nil => cases h
  | cons e m ih =>
    obtain ⟨k', v'⟩ := e
    rw [get?_cons] at h
    split at h
    · next hk =>
        obtain rfl := Option.some.inj h
        exact hk ▸ List.mem_cons_self ..
    · exact .tail _ (ih h)

theorem get?_eq_none_iff : get? k m = none ↔ k ∉ keys m := by
  induction m with
  | nil => simp [keys]
  | cons e m ih =>
    obtain ⟨k', v⟩ := e
    rw [get?_cons, keys, List.map_cons, List.mem_cons, not_or]
    split
    · next hk => simp [hk]
    · next hk => exact ih.trans ⟨fun h => ⟨fun hc => hk hc.symm, h⟩, And.right⟩

theorem mem_keys_iff : k ∈ keys m ↔ ∃ v, get? k m = some v := by
  rw [← not_iff_not, ← get?_eq_none_iff, Option.eq_none_iff_forall_ne_some]
  push Not
  rfl

theorem keys_set_of_none (h : get? k m = none) (v : ν) : keys (set k v m) = keys m ++ [k] := by
  induction m with
  | nil => rfl
  | cons e m ih =>
    obtain ⟨k', v'⟩ := e
    rw [get?_cons] at h
    split at h
    · cases h
    next hk =>
      rw [set_cons, if_neg hk, keys, List.map_cons]
      show k' :: keys (set k v m) = _
      rw [ih h]
      rfl

theorem keys_set_of_mem (h : k ∈ keys m) (v : ν) : keys (set k v m) = keys m := by
  induction m with
  | nil => cases h
  | cons e m ih =>
    obtain ⟨k', v'⟩ := e
    rw [set_cons]
    by_cases hk : k' = k
    · rw [if_pos hk]
      rfl
    · rw [if_neg hk]
      have hin : k ∈ keys m := (List.mem_cons.mp h).resolve_left (fun he => hk he.symm)
      exact congrArg (List.cons k') (ih hin)

theorem mem_keys_set {k k₁ : κ} : k₁ ∈ keys (set k v m) ↔ k₁ = k ∨ k₁ ∈ keys m := by
  by_cases h : k ∈ keys m
  · rw [keys_set_of_mem h]
    exact ⟨.inr, fun hor => hor.elim (fun he => he ▸ h) id⟩
  · rw [keys_set_of_none (get?_eq_none_iff.mpr h), List.mem_append, List.mem_singleton]
    exact Or.comm

theorem nodup_keys_set (h : (keys m).Nodup) (k : κ) (v : ν) : (keys (set k v m)).Nodup := by
  by_cases hk : k ∈ keys m
  · rw [keys_set_of_mem hk]
    exact h
  · rw [keys_set_of_none (get?_eq_none_iff.mpr hk)]
    refine List.nodup_append.mpr ⟨h, List.nodup_cons.mpr ⟨List.not_mem_nil, List.nodup_nil⟩, ?_⟩
    rintro a ha b hb rfl
    exact hk (List.mem_singleton.mp hb ▸ ha)

theorem get?_of_mem (hnd : (keys m).Nodup) (h : (k, v) ∈ m) : get? k m = some v := by
  induction m with
  | nil => cases h
  | cons e m ih =>
    obtain ⟨k', v'⟩ := e
    obtain ⟨hnew, hrest⟩ := List.nodup_cons.mp hnd
    rw [get?_cons]
    rcases List.mem_cons.mp h with heq | hin
    · obtain ⟨rfl, rfl⟩ := Prod.mk.inj heq
      rw [if_pos rfl]
    · have hkey : k ∈ keys m := List.mem_map_of_mem hin
      rw [if_neg (fun he : k' = k => hnew (he ▸ hkey))]
      exact ih hrest hin

theorem get?_map (f : κ → ν → ν') (k : κ) (m : OrderedMap κ ν) :
    get? k (m.map (fun e => (e.1, f e.1 e.2))) = (get? k m).map (f k) := by
  induction m with
  | nil => rfl
  | cons e m ih =>
    obtain ⟨k', v⟩ := e
    rw [List.map_cons, get?_cons, get?_cons, ih]
    split
    · next hk => rw [hk, Option.map_some]
    · rfl

end OrderedMap
