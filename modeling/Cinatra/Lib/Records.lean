import Cinatra.Lib.Json
import Cinatra.Lib.OrderedMap

/-! # Records — the mutable objects of a JSON document

    A general account of `Record<string, unknown>`: reading a property,
    assigning one, and rewriting the entries of a container.  An assignment
    replaces the property where it stands and adds it at the end where it is
    missing, as it does on a JavaScript object. -/

namespace JsonValue

/-- The own properties of an object, in enumeration order. -/
abbrev Record := List (String × Json)

namespace Record

/-- `o.name`, `undefined` when the property is missing. -/
def get? (name : String) : Record → Option Json
  | [] => none
  | (k, v) :: o => if k = name then some v else get? name o

/-- `o.name = v`. -/
def assign (name : String) (v : Json) : Record → Record
  | [] => [(name, v)]
  | (k, w) :: o => if k = name then (k, v) :: o else (k, w) :: assign name v o

@[simp] theorem get?_nil (name : String) : get? name [] = none := rfl

theorem get?_cons (name k : String) (v : Json) (o : Record) :
    get? name ((k, v) :: o) = if k = name then some v else get? name o := rfl

theorem assign_nil (name : String) (v : Json) : assign name v [] = [(name, v)] := rfl

theorem assign_cons (name k : String) (v w : Json) (o : Record) :
    assign name v ((k, w) :: o) = if k = name then (k, v) :: o else (k, w) :: assign name v o := rfl

/-! A record is an ordered map. -/

theorem get?_eq (name : String) (o : Record) : get? name o = OrderedMap.get? name o := by
  induction o with
  | nil => rfl
  | cons f o ih => rw [get?_cons, OrderedMap.get?_cons, ih]

theorem assign_eq (name : String) (v : Json) (o : Record) :
    assign name v o = OrderedMap.set name v o := by
  induction o with
  | nil => rfl
  | cons f o ih => rw [assign_cons, OrderedMap.set_cons, ih]

@[simp] theorem get?_assign_self (name : String) (v : Json) (o : Record) :
    get? name (assign name v o) = some v := by
  rw [get?_eq, assign_eq, OrderedMap.get?_set_self]

variable {name : String}

@[simp] theorem get?_assign_ne {other : String} (h : other ≠ name) (v : Json)
    (o : Record) : get? other (assign name v o) = get? other o := by
  rw [get?_eq, assign_eq, OrderedMap.get?_set_ne h, get?_eq]

variable {o : Record}

theorem assign_of_missing (h : name ∉ o.map Prod.fst) (v : Json) :
    assign name v o = o ++ [(name, v)] := by
  induction o with
  | nil => rfl
  | cons f o ih =>
    obtain ⟨k, w⟩ := f
    rw [List.map_cons, List.mem_cons, not_or] at h
    rw [assign_cons, if_neg (Ne.symm h.1), ih h.2]
    rfl

theorem assign_get? {v : Json} (h : get? name o = some v) : assign name v o = o := by
  induction o with
  | nil => cases h
  | cons f o ih =>
    obtain ⟨k, w⟩ := f
    by_cases hk : k = name
    · simp only [get?_cons, hk, if_pos] at h
      cases h
      simp [assign_cons, hk]
    · simp only [get?_cons, hk, if_neg, not_false_eq_true] at h
      simp [assign_cons, hk, ih h]

@[simp] theorem assign_assign (name : String) (v w : Json) (o : Record) :
    assign name w (assign name v o) = assign name w o := by
  induction o with
  | nil => simp [assign_nil, assign_cons]
  | cons f o ih =>
    obtain ⟨k, u⟩ := f
    by_cases hk : k = name
    · simp [assign_cons, hk]
    · simp [assign_cons, hk, ih]

theorem get?_map (g : Json → Json) (name : String) (o : Record) :
    get? name (o.map (fun e => (e.1, g e.2))) = (get? name o).map g := by
  rw [get?_eq, get?_eq]
  exact OrderedMap.get?_map (fun _ => g) name o

theorem field?_obj (name : String) (o : Record) : (Json.obj o).field? name = get? name o := by
  rw [Json.field?]
  induction o with
  | nil => rfl
  | cons f o ih =>
    obtain ⟨k, v⟩ := f
    by_cases hk : k = name
    · simp [get?_cons, hk]
    · simp [get?_cons, hk, ← ih]

end Record

/-! ## Containers

    `typeof value === "object"` holds of objects and of arrays; both are walked
    with `Object.entries`. -/

/-- The value when it is a non-null object or an array. -/
def container? : Option Json → Option Json
  | some (.obj o) => some (.obj o)
  | some (.arr xs) => some (.arr xs)
  | _ => none

/-- The values `Object.entries` enumerates. -/
def entryValues : Json → List Json
  | .obj o => o.map Prod.snd
  | .arr xs => xs
  | _ => []

/-- Every entry of a container rewritten in place. -/
def mapEntries (g : Json → Json) : Json → Json
  | .obj o => .obj (o.map (fun e => (e.1, g e.2)))
  | .arr xs => .arr (xs.map g)
  | v => v

variable {r : Json} {v? : Option Json}

theorem container?_eq_some (h : container? v? = some r) :
    v? = some r ∧ ((∃ o, r = .obj o) ∨ ∃ xs, r = .arr xs) := by
  cases v? with
  | none => cases h
  | some v =>
    cases v with
    | obj o => cases h; exact ⟨rfl, .inl ⟨o, rfl⟩⟩
    | arr xs => cases h; exact ⟨rfl, .inr ⟨xs, rfl⟩⟩
    | null | bool | num | str => cases h

theorem entryValues_mapEntries (g : Json → Json) (r : Json) :
    entryValues (mapEntries g r) = (entryValues r).map g := by
  cases r <;> simp [entryValues, mapEntries, Function.comp_def]

theorem mapEntries_mapEntries (g h : Json → Json) (r : Json) :
    mapEntries h (mapEntries g r) = mapEntries (fun v => h (g v)) r := by
  cases r <;> simp [mapEntries, Function.comp_def]

/-- A rewriting that leaves every entry as it is leaves the container as it is. -/
theorem mapEntries_eq_self {g : Json → Json}
    (h : ∀ v ∈ entryValues r, g v = v) : mapEntries g r = r := by
  cases r with
  | obj o =>
    have hmap : o.map (fun e => (e.1, g e.2)) = o.map id := by
      apply List.map_congr_left
      intro e he
      rw [h e.2 (List.mem_map_of_mem he)]
      rfl
    rw [mapEntries, hmap, List.map_id]
  | arr xs =>
    have hmap : xs.map g = xs.map id := List.map_congr_left h
    rw [mapEntries, hmap, List.map_id]
  | null | bool | num | str => rfl

/-- Rewritings that agree on the entries rewrite the container alike. -/
theorem mapEntries_congr {g h : Json → Json}
    (hgh : ∀ v ∈ entryValues r, g v = h v) : mapEntries g r = mapEntries h r := by
  cases r with
  | obj o =>
    rw [mapEntries, mapEntries]
    congr 1
    apply List.map_congr_left
    intro e he
    rw [hgh e.2 (List.mem_map_of_mem he)]
  | arr xs =>
    rw [mapEntries, mapEntries]
    congr 1
    exact List.map_congr_left hgh
  | null | bool | num | str => rfl

theorem container?_mapEntries (g : Json → Json)
    (h : container? v? = some r) : container? (some (mapEntries g r)) = some (mapEntries g r) := by
  rcases (container?_eq_some h).2 with ⟨o, rfl⟩ | ⟨xs, rfl⟩ <;> rfl

/-! ## Induction over the parts of a value -/

variable {v : Json} {name : String} {o : Record}

theorem Record.get?_mem (h : Record.get? name o = some v) : (name, v) ∈ o :=
  OrderedMap.mem_of_get? (Record.get?_eq name o ▸ h)

theorem sizeOf_get? (h : Record.get? name o = some v) : sizeOf v < sizeOf (Json.obj o) := by
  have hmem := List.sizeOf_lt_of_mem (Record.get?_mem h)
  simp only [Prod.mk.sizeOf_spec, Json.obj.sizeOf_spec] at hmem ⊢
  omega

theorem sizeOf_entryValues (h : v ∈ entryValues r) : sizeOf v < sizeOf r := by
  cases r with
  | obj o =>
    obtain ⟨e, he, rfl⟩ := List.mem_map.mp h
    obtain ⟨k, w⟩ := e
    have hmem := List.sizeOf_lt_of_mem he
    simp only [Prod.mk.sizeOf_spec, Json.obj.sizeOf_spec] at hmem ⊢
    omega
  | arr xs =>
    have hmem := List.sizeOf_lt_of_mem (show v ∈ xs from h)
    simp only [Json.arr.sizeOf_spec]
    omega
  | null | bool | num | str => cases h

variable {P : Json → Prop}

/-- A property holds of every value when it follows, for an object, from the
    values of its properties and from their entries. -/
theorem Json.parts_induction (step : ∀ v, (∀ o name r, v = .obj o → Record.get? name o = some r →
      P r ∧ ∀ w ∈ entryValues r, P w) → P v) (v : Json) : P v := by
  induction hn : sizeOf v using Nat.strong_induction_on generalizing v with
  | _ n ih =>
    apply step
    rintro o name r rfl hr
    have hlt := sizeOf_get? hr
    refine ⟨ih _ (by omega) r rfl, ?_⟩
    intro w hw
    have hlt' := sizeOf_entryValues hw
    exact ih _ (by omega) w rfl

/-- A property holds of every value when it follows from the values in it. -/
theorem Json.entries_induction (step : ∀ v, (∀ w ∈ entryValues v, P w) → P v) (v : Json) : P v := by
  induction hn : sizeOf v using Nat.strong_induction_on generalizing v with
  | _ n ih => exact step v fun w hw => ih _ (hn ▸ sizeOf_entryValues hw) w rfl

/-- `{ ...v }` on any value: an array or a string spreads its items. -/
def spread : Json → Record
  | .obj o => o
  | .arr xs => xs.zipIdx.map (fun x => (toString x.2, x.1))
  | .str s => s.toList.zipIdx.map (fun c => (toString c.2, .str (String.singleton c.1)))
  | _ => []

mutual
/-- The text of a value in a template: items joined with commas. -/
def toText : Json → String
  | .null => "null"
  | .bool true => "true"
  | .bool false => "false"
  | .num n => String.ofList n.text
  | .str s => s
  | .arr xs => itemsText xs
  | .obj _ => "[object Object]"

def itemsText : List Json → String
  | [] => ""
  | [x] => itemText x
  | x :: y :: xs => itemText x ++ "," ++ itemsText (y :: xs)

/-- An item's text; a `null` is written as nothing. -/
def itemText : Json → String
  | .null => ""
  | .bool true => "true"
  | .bool false => "false"
  | .num n => String.ofList n.text
  | .str s => s
  | .arr xs => itemsText xs
  | .obj _ => "[object Object]"
end

/-! ## `JSON.parse` -/

/-- The index that a property name is, if it is one. -/
def arrayIndex? (name : String) : Option Nat :=
  let value := name.toList.foldl (fun n c => 10 * n + (c.toNat - 48)) 0
  if name.toList.all Char.isDigit && name.toList != [] &&
    (name.toList.head? != some '0' || name.toList.length == 1) && value < 4294967295
  then some value else none

/-- The properties that assigning the fields leaves, as they are enumerated: indices
    first, in their order. -/
def ownFields (fs : Record) : Record :=
  let o := fs.foldl (fun o f => Record.assign f.1 f.2 o) []
  ((o.filter (fun f => (arrayIndex? f.1).isSome)).insertionSort
      (fun f g => (arrayIndex? f.1).getD 0 ≤ (arrayIndex? g.1).getD 0)) ++
    o.filter (fun f => !(arrayIndex? f.1).isSome)

/-- `JSON.parse`, with the number that a numeral denotes. -/
def parseJson (number : List Char → Option JsNumber) (text : String) : Option Json :=
  parseWith number ownFields text.toList

theorem foldl_assign (fs : Record) : ∀ o : Record, ((o ++ fs).map Prod.fst).Nodup →
    fs.foldl (fun o f => Record.assign f.1 f.2 o) o = o ++ fs := by
  induction fs with
  | nil => exact fun o _ => (List.append_nil o).symm
  | cons f fs ih =>
    intro o hnd
    have hassoc : o ++ f :: fs = (o ++ [f]) ++ fs := by simp
    have hnew : f.1 ∉ o.map Prod.fst := by
      rw [List.map_append, List.map_cons, List.nodup_append] at hnd
      exact fun hin => hnd.2.2 f.1 hin f.1 (.head _) rfl
    rw [List.foldl_cons, Record.assign_of_missing hnew, hassoc]
    exact ih _ (hassoc ▸ hnd)

variable {fs : Record}

theorem ownFields_eq_self (hnd : (fs.map Prod.fst).Nodup)
    (hnames : ∀ f ∈ fs, arrayIndex? f.1 = none) : ownFields fs = fs := by
  have hnone : fs.filter (fun f => (arrayIndex? f.1).isSome) = [] :=
    List.filter_eq_nil_iff.mpr (fun f hf => by rw [hnames f hf]; exact Bool.false_ne_true)
  have hall : fs.filter (fun f => !(arrayIndex? f.1).isSome) = fs :=
    List.filter_eq_self.mpr (fun f hf => by rw [hnames f hf]; rfl)
  simp only [ownFields, foldl_assign fs [] hnd, List.nil_append, hnone, hall]
  rfl

private def isIndex (f : String × Json) : Bool := (arrayIndex? f.1).isSome

private def indexLe (f g : String × Json) : Prop :=
  (arrayIndex? f.1).getD 0 ≤ (arrayIndex? g.1).getD 0

private instance : DecidableRel indexLe := fun _ _ => Nat.decLe _ _

private theorem ownFields_nodup (hnd : (fs.map Prod.fst).Nodup) : ownFields fs =
    (fs.filter isIndex).insertionSort indexLe ++ fs.filter (fun f => !isIndex f) := by
  simp only [ownFields, foldl_assign fs [] hnd, List.nil_append]
  rfl

theorem ownFields_perm (hnd : (fs.map Prod.fst).Nodup) : (ownFields fs).Perm fs := by
  rw [ownFields_nodup hnd]
  exact ((List.perm_insertionSort _ _).append_right _).trans (List.filter_append_perm _ fs)

theorem ownFields_ownFields (hnd : (fs.map Prod.fst).Nodup) :
    ownFields (ownFields fs) = ownFields fs := by
  have : Std.Total indexLe := ⟨fun f g => le_total ((arrayIndex? f.1).getD 0) _⟩
  have : IsTrans _ indexLe := ⟨fun _ _ _ h h' => le_trans (b := (arrayIndex? _).getD 0) h h'⟩
  have hindex : ∀ f ∈ (fs.filter isIndex).insertionSort indexLe, isIndex f = true :=
    fun f hf => (List.mem_filter.mp ((List.mem_insertionSort _).mp hf)).2
  have hnot : ((fs.filter isIndex).insertionSort indexLe).filter (fun f => !isIndex f) = [] :=
    List.filter_eq_nil_iff.mpr (fun f hf => by rw [hindex f hf]; exact Bool.false_ne_true)
  have hrest : (fs.filter (fun f => !isIndex f)).filter isIndex = [] := by
    simp [List.filter_filter]
  rw [ownFields_nodup (((ownFields_perm hnd).map Prod.fst).nodup_iff.mpr hnd), ownFields_nodup hnd,
    List.filter_append, List.filter_append, List.filter_eq_self.mpr hindex, hnot, hrest,
    List.append_nil, List.nil_append, (List.pairwise_insertionSort indexLe _).insertionSort_eq,
    List.filter_filter]
  simp only [Bool.and_self]

/-- `Boolean(v)`. -/
def jsTruthy : Json → Bool
  | .null => false
  | .bool b => b
  | .num n => (n.text.takeWhile (· != 'e')).any fun c => c.isDigit && c != '0'
  | .str s => s != ""
  | .arr _ => true
  | .obj _ => true

end JsonValue
