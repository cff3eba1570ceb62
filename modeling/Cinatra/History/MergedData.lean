import Cinatra.History.MergeProposals

/-! # MergedData — what an approval composes

    The data of an approval, name by name: a name that is not selected keeps its
    field, a selected one gets what `mergeField` makes of it, once. -/

namespace History

open JsonValue

/-- The names an approval goes through. -/
def selectedNames (proposed : ProposedFields) (selectedFields : Option (List String)) :
    List String := selectedFields.getD (proposed.map Prod.fst)

/-- The current data, overlaid with the fields that are both selected and proposed. -/
def overlay (proposed : ProposedFields) (selectedFields : Option (List String))
    (currentData : Data) (name : String) : Option Json :=
  if name ∈ selectedNames proposed selectedFields then
    (ownProposed proposed name).getD (getField currentData name)
  else getField currentData name

/-- No selected name goes by what `Object.prototype` has under it: one that is not proposed has
    no field to lose, and `__proto__` is proposed with a value only where it is a field. -/
def PlainNames (proposed : ProposedFields) (selectedFields : Option (List String))
    (currentData : Data) : Prop :=
  ∀ name ∈ selectedNames proposed selectedFields,
    (ownProposed proposed name = none → prototypeNames.contains name = true →
      getField currentData name = none) ∧
    (∀ value, name = "__proto__" → ownProposed proposed name = some (some value) →
      hasField currentData name = true)

/-! ## One field -/

theorem hasField_eq (data : Data) (name : String) :
    hasField data name = (getField data name).isSome := by
  rw [hasField, getField, Option.isSome_map, List.isSome_find?]

theorem getField_setField (data : Data) (name other : String) (value : Json) :
    getField (setField data name value) other =
      if other = name then some value else getField data other := by
  have hreplace : ∀ f : String × Json, (if f.1 = name then (name, value) else f).1 = f.1 := by
    intro f
    split
    · rename_i hname
      exact hname.symm
    · rfl
  rw [setField]
  split
  · rename_i hhas
    rw [hasField_eq] at hhas
    rw [getField, List.find?_map, Option.map_map]
    rw [show ((fun f : String × Json => decide (f.1 = other)) ∘
        fun f => if f.1 = name then (name, value) else f) = fun f => decide (f.1 = other) from
      funext fun f => by rw [Function.comp_apply, hreplace]]
    split
    · rename_i hother
      rw [hother]
      cases hfind : data.find? (fun f => decide (f.1 = name)) with
      | none =>
        rw [getField, hfind] at hhas
        cases hhas
      | some f =>
        have hname : f.1 = name := of_decide_eq_true (List.find?_some hfind :)
        rw [Option.map_some, Function.comp_apply, if_pos hname]
    · rename_i hother
      rw [getField]
      cases hfind : data.find? (fun f => decide (f.1 = other)) with
      | none => rfl
      | some f =>
        have hname : f.1 = other := of_decide_eq_true (List.find?_some hfind :)
        rw [Option.map_some, Function.comp_apply, if_neg (by rw [hname]; exact hother)]
        rfl
  · rename_i hhas
    rw [hasField_eq, Bool.not_eq_true, Option.isSome_eq_false_iff, Option.isNone_iff_eq_none]
      at hhas
    rw [getField, List.find?_append, List.find?_singleton]
    by_cases hother : other = name
    · rw [getField, Option.map_eq_none_iff] at hhas
      rw [hother, hhas, Option.none_or, if_pos (decide_eq_true rfl), if_pos rfl]
      rfl
    · rw [if_neg (by rw [decide_eq_true_eq]; exact Ne.symm hother), Option.or_none,
        if_neg hother]
      rfl

theorem getField_eraseField (data : Data) (name other : String) :
    getField (eraseField data name) other = if other = name then none else getField data other := by
  rw [getField, eraseField, List.find?_filter]
  split
  · rename_i hother
    rw [hother, Option.map_eq_none_iff, List.find?_eq_none]
    intro f _ hf
    simp only [ne_eq, decide_not, Bool.not_eq_true', decide_eq_false_iff_not,
      decide_eq_true_eq] at hf
    exact hf.1 hf.2
  · rename_i hother
    rw [getField]
    congr 2
    funext f
    rw [Bool.eq_iff_iff]
    simp only [ne_eq, decide_not, Bool.not_eq_true', decide_eq_false_iff_not,
      decide_eq_true_eq]
    exact ⟨And.right, fun hf => ⟨by rw [hf]; exact hother, hf⟩⟩

/-- What a selected name gets, where it had some field or none. -/
def mergedField (proposed : ProposedFields) (name : String) (old : Option Json) : Option Json :=
  match ownProposed proposed name with
  | some (some value) => if name = "__proto__" && !old.isSome then old else some value
  | some none => none
  | none => if prototypeNames.contains name then none else old

theorem getField_mergeField (proposed : ProposedFields) (data : Data) (name other : String) :
    getField (mergeField proposed data name) other =
      if other = name then mergedField proposed name (getField data name)
      else getField data other := by
  have hsame : getField data other = if other = name then getField data name
      else getField data other := by
    split
    · rename_i hother
      rw [hother]
    · rfl
  unfold mergeField mergedField
  rw [hasField_eq]
  cases ownProposed proposed name with
  | none =>
    dsimp only
    by_cases hname : prototypeNames.contains name = true
    · rw [if_pos hname, if_pos hname]
      exact getField_eraseField data name other
    · rw [if_neg hname, if_neg hname]
      exact hsame
  | some value =>
    cases value with
    | none => exact getField_eraseField data name other
    | some value =>
      dsimp only
      split
      · exact hsame
      · exact getField_setField data name other value

theorem nodup_eraseDups (names : List String) : names.eraseDups.Nodup := by
  induction h : names.length using Nat.strongRecOn generalizing names with
  | _ n ih =>
    cases names with
    | nil => exact List.nodup_nil
    | cons name names =>
      rw [List.eraseDups_cons, List.nodup_cons]
      refine ⟨by simp [List.mem_eraseDups], ih _ ?_ _ rfl⟩
      rw [← h, List.length_cons]
      exact Nat.lt_succ_of_le (List.length_filter_le _ _)

theorem getField_foldl (proposed : ProposedFields) {names : List String} (hnames : names.Nodup)
    (data : Data) (name : String) : getField (names.foldl (mergeField proposed) data) name =
      if name ∈ names then mergedField proposed name (getField data name)
      else getField data name := by
  induction names generalizing data with
  | nil => rfl
  | cons first names ih =>
    obtain ⟨hfirst, hnames⟩ := List.nodup_cons.mp hnames
    rw [List.foldl_cons, ih hnames, getField_mergeField]
    by_cases hname : name = first
    · rw [if_pos hname, hname, if_neg hfirst, if_pos List.mem_cons_self]
    · rw [if_neg hname]
      simp only [List.mem_cons, hname, false_or]

/-- **The composed data are the overlay exactly when the names are plain.** -/
theorem mergedData_overlay (proposed : ProposedFields) (selectedFields : Option (List String))
    (currentData : Data) : (∀ name, getField (mergedData proposed selectedFields currentData) name =
        overlay proposed selectedFields currentData name) ↔
      PlainNames proposed selectedFields currentData := by
  have hmerged : ∀ name, getField (mergedData proposed selectedFields currentData) name =
      if name ∈ selectedNames proposed selectedFields then
        mergedField proposed name (getField currentData name)
      else getField currentData name := by
    intro name
    rw [mergedData, getField_foldl proposed (nodup_eraseDups _)]
    simp only [List.mem_eraseDups]
    rfl
  rw [PlainNames]
  refine forall_congr' fun name => ?_
  rw [hmerged, overlay]
  by_cases hname : name ∈ selectedNames proposed selectedFields
  · rw [if_pos hname, if_pos hname, mergedField, hasField_eq]
    simp only [hname, forall_true_left]
    cases hown : ownProposed proposed name with
    | none =>
      dsimp only
      rw [Option.getD_none]
      by_cases hproto : prototypeNames.contains name = true
      · rw [if_pos hproto]
        refine ⟨fun h => ⟨fun _ _ => h.symm, ?_⟩, fun h => (h.1 rfl hproto).symm⟩
        rintro _ _ ⟨⟩
      · rw [if_neg hproto]
        refine ⟨fun _ => ⟨fun _ h => absurd h hproto, ?_⟩, fun _ => rfl⟩
        rintro _ _ ⟨⟩
    | some value =>
      cases value with
      | none => simp
      | some value =>
        by_cases hproto : name = "__proto__"
        · cases hfield : getField currentData name <;> simp [hproto]
        · simp [hproto]
  · rw [if_neg hname, if_neg hname]
    exact ⟨fun _ h => absurd h hname, fun _ => rfl⟩

end History
