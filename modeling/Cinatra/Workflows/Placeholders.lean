import Cinatra.Lib.JsonPaths
import Cinatra.Lib.Records
import Cinatra.Lib.Tokens
import Cinatra.Workflows.Foreach

/-! # Placeholders — filling a template, and the scope of a foreach

    Two walkers go over a template's JSON.  `collectPlaceholderUsages` knows that the
    `as` name of a foreach is bound inside its template; `fillPlaceholders` does not, and
    replaces every token an input is named as.  They agree where no input is named as a
    scoped token, as long as the values form no token with the braces around them and
    rename no foreach (`instantiates_of_plain`). -/

namespace WfPlaceholders

open JsonValue CodeUnits WfForeach

variable {c : Char}

private theorem jsSpace_code (h : jsSpace c = true) : c.toNat ≤ 32 ∨ 160 ≤ c.toNat := by
  simp only [jsSpace, Bool.or_eq_true, Bool.and_eq_true, decide_eq_true_eq,
    List.contains_iff_mem, List.mem_cons, List.not_mem_nil, or_false] at h
  omega

/-- The characters of a name are plain letters, digits and underscores. -/
def nameChar (c : Char) : Bool := c.isAlphanum || c = '_'

private theorem nameChar_code (h : nameChar c = true) : 48 ≤ c.toNat ∧ c.toNat ≤ 122 := by
  have hupper (hu : c.isUpper = true) : 65 ≤ c.val ∧ c.val ≤ 90 := of_decide_eq_true hu
  have hlower (hl : c.isLower = true) : 97 ≤ c.val ∧ c.val ≤ 122 :=
    (Bool.and_eq_true _ _ ▸ hl : _ ∧ _).imp of_decide_eq_true of_decide_eq_true
  have hdigit (hd : c.isDigit = true) : 48 ≤ c.val ∧ c.val ≤ 57 :=
    (Bool.and_eq_true _ _ ▸ hd : _ ∧ _).imp of_decide_eq_true of_decide_eq_true
  change ((c.isUpper || c.isLower || c.isDigit) || decide (c = '_')) = true at h
  simp only [Bool.or_eq_true, decide_eq_true_eq] at h
  rcases h with ((h | h) | h) | rfl
  · exact ⟨Nat.le_trans (by decide) (hupper h).1, Nat.le_trans (hupper h).2 (by decide)⟩
  · exact ⟨Nat.le_trans (by decide) (hlower h).1, Nat.le_trans (hlower h).2 (by decide)⟩
  · exact ⟨Nat.le_trans (by decide) (hdigit h).1, Nat.le_trans (hdigit h).2 (by decide)⟩
  · decide

private theorem nameChar_plain (c : Char) (h : nameChar c = true) :
    c ≠ '\x7b' ∧ c ≠ '\x7d' ∧ jsSpace c = false := by
  have hcode := nameChar_code h
  refine ⟨?_, ?_, ?_⟩
  · rintro rfl
    exact absurd hcode (by decide)
  · rintro rfl
    exact absurd hcode (by decide)
  · by_contra hs
    have hspace := jsSpace_code (by simpa using hs)
    omega

/-- `PLACEHOLDER_TOKEN_RE`. -/
def placeholderToken : Tokens.Grammar where
  space := jsSpace
  start := Char.isAlpha
  rest := nameChar
  space_plain := by
    intro c h
    have hcode := jsSpace_code h
    constructor
    · rintro rfl
      exact absurd hcode (by decide)
    · rintro rfl
      exact absurd hcode (by decide)
  start_plain := fun c h => nameChar_plain c (by simp [nameChar, Char.isAlphanum, h])
  rest_plain := nameChar_plain

/-- The names of the tokens of a text, in order. -/
def placeholderTokens (s : String) : List String :=
  (Tokens.names placeholderToken s.toList).map String.ofList

/-! ## The filler -/

/-- `String(inputs[name])`, of an own key. -/
def valueOf (inputs : Record) (name : List Char) : Option (List Char) :=
  (Record.get? (String.ofList name) inputs).map (fun v => (toText v).toList)

/-- What stands in the place of a token: the input of its name, else the token. -/
def replacement (inputs : Record) (raw name : List Char) : List Char :=
  (valueOf inputs name).getD raw

def fillString (inputs : Record) (s : String) : String :=
  String.ofList (Tokens.replace placeholderToken (replacement inputs) s.toList)

mutual
def fillPlaceholders (inputs : Record) : Json → Json
  | .str s => .str (fillString inputs s)
  | .arr xs => .arr (fillItems inputs xs)
  | .obj fs => .obj (fillFields inputs fs)
  | v => v

def fillItems (inputs : Record) : List Json → List Json
  | [] => []
  | x :: xs => fillPlaceholders inputs x :: fillItems inputs xs

def fillFields (inputs : Record) : List (String × Json) → List (String × Json)
  | [] => []
  | (k, x) :: fs =>
    -- `out["__proto__"] = …` makes no member
    if k = "__proto__" then fillFields inputs fs
    else (k, fillPlaceholders inputs x) :: fillFields inputs fs
end

/-! ## The checker -/

/-- A token, and the names bound where it stands. -/
structure Usage where
  token : String
  scopedVars : List String

/-- The scope inside the template of a foreach. -/
def foreachScope (activeScope : List String) (fe : Json) : List String :=
  activeScope ++ (match fe.field? "as" with
     | some (.str a) => if a = "" then [] else [a]
     | _ => []) ++ ["$index", "$position", "$total"]

mutual
def collectPlaceholderUsages (scope : List String) : Json → List Usage
  | .str s => (placeholderTokens s).map (fun n => ⟨n, scope⟩)
  | .arr xs => itemUsages scope xs
  | .obj fs => fieldUsages scope fs
  | _ => []

def itemUsages (scope : List String) : List Json → List Usage
  | [] => []
  | x :: xs => collectPlaceholderUsages scope x ++ itemUsages scope xs

def fieldUsages (scope : List String) : List (String × Json) → List Usage
  | [] => []
  | (k, v) :: fs =>
    (if k = "foreach" ∧ v.isContainer then foreachUsages scope v
     else collectPlaceholderUsages scope v) ++ fieldUsages scope fs

/-- A foreach: its other fields in the scope around it, its template in its own. -/
def foreachUsages (scope : List String) : Json → List Usage
  | .arr xs => itemUsages scope xs
  | .obj fs => outerUsages scope fs ++ templateUsages (foreachScope scope (.obj fs)) fs
  | _ => []

def outerUsages (scope : List String) : List (String × Json) → List Usage
  | [] => []
  | (k, v) :: fs =>
    (if k = "template" then [] else collectPlaceholderUsages scope v) ++ outerUsages scope fs

def templateUsages (scope : List String) : List (String × Json) → List Usage
  | [] => []
  | (k, v) :: fs =>
    if k = "template" then
      if jsTruthy v then collectPlaceholderUsages scope v else []
    else templateUsages scope fs
end

/-- The tokens a specification needs an input for, each once. -/
def findUnresolvedPlaceholders (spec : Json) : List String :=
  (((collectPlaceholderUsages [] spec).filter (fun u => !u.scopedVars.contains u.token)).map
    Usage.token).eraseDups

/-! ## The texts of a template -/

/-- The `as` text of a foreach. -/
def asText (fe : Json) : List String :=
  match fe.field? "as" with
  | some (.str a) => [a]
  | _ => []

/-- `Leaf as v as' s`: from `v`, inside foreach templates with the texts `as`, one comes
    to the string `s`, inside foreach templates with the texts `as'`. -/
inductive Leaf : List String → Json → List String → String → Prop
  | str {as : List String} {s : String} : Leaf as (.str s) as s
  | item {as as' : List String} {xs : List Json} {x : Json} {s : String} :
      x ∈ xs → Leaf as x as' s → Leaf as (.arr xs) as' s
  | field {as as' : List String} {fs : List (String × Json)} {k s : String} {v : Json} :
      (k, v) ∈ fs → ¬ (k = "foreach" ∧ v.isContainer = true) → Leaf as v as' s →
      Leaf as (.obj fs) as' s
  | foreachItem {as as' : List String} {fs : List (String × Json)} {xs : List Json} {x : Json}
      {s : String} : ("foreach", .arr xs) ∈ fs → x ∈ xs → Leaf as x as' s →
      Leaf as (.obj fs) as' s
  | foreachField {as as' : List String} {fs gs : List (String × Json)} {k s : String} {v : Json} :
      ("foreach", .obj gs) ∈ fs → (k, v) ∈ gs → k ≠ "template" → Leaf as v as' s →
      Leaf as (.obj fs) as' s
  | template {as as' : List String} {fs gs : List (String × Json)} {v : Json} {s : String} :
      ("foreach", .obj gs) ∈ fs → (Json.obj gs).field? "template" = some v →
      Leaf (asText (.obj gs) ++ as) v as' s → Leaf as (.obj fs) as' s

variable {s : String} {n : String}

theorem token_start (h : n ∈ placeholderTokens s) :
    ∃ c rest, n = String.ofList (c :: rest) ∧ Char.isAlpha c = true ∧ rest.all nameChar = true := by
  obtain ⟨name, hname, rfl⟩ := List.mem_map.mp h
  obtain ⟨raw, hraw⟩ := Tokens.mem_names.mp hname
  obtain ⟨c, rest, rfl, hc, hrest⟩ := (Tokens.isToken_of_mem hraw).start
  exact ⟨c, rest, rfl, hc, hrest⟩

theorem token_ne (h : n ∈ placeholderTokens s) :
    n ≠ "" ∧ n ≠ "$index" ∧ n ≠ "$position" ∧ n ≠ "$total" := by
  obtain ⟨c, rest, rfl, hc, -⟩ := token_start h
  have hhead : ∀ t : String, String.ofList (c :: rest) = t → t.toList.head? = some c := by
    rintro _ rfl
    rw [String.toList_ofList]
    rfl
  have hdollar : c ≠ '$' := by
    rintro rfl
    exact absurd hc (by decide)
  refine ⟨?_, ?_, ?_, ?_⟩
  · intro he
    exact absurd (hhead _ he) (by simp)
  · intro he
    exact hdollar (Option.some.inj (hhead _ he)).symm
  · intro he
    exact hdollar (Option.some.inj (hhead _ he)).symm
  · intro he
    exact hdollar (Option.some.inj (hhead _ he)).symm

/-- The scope of the checker binds the names the `as` texts do. -/
def Binds (scope as : List String) : Prop :=
  ∀ n s, n ∈ placeholderTokens s → (n ∈ scope ↔ n ∈ as)

theorem Binds.foreach {scope as : List String} (h : Binds scope as) (fe : Json) :
    Binds (foreachScope scope fe) (asText fe ++ as) := by
  intro n s hn
  obtain ⟨hempty, hindex, hposition, htotal⟩ := token_ne hn
  rw [foreachScope, asText, List.mem_append, List.mem_append, List.mem_append, h n s hn]
  have hreserved : n ∉ ["$index", "$position", "$total"] := by
    simp [hindex, hposition, htotal]
  split
  · rename_i a _
    by_cases ha : a = ""
    · rw [if_pos ha, List.mem_singleton]
      have hne : n ≠ a := by rw [ha]; exact hempty
      simp [hne, hreserved]
    · rw [if_neg ha]
      simp only [hreserved, or_false]
      exact or_comm
  · simp [hreserved]

/-! ## What the checker finds -/

/-- What a usage says: a text holds the token, and the names in scope are the `as` texts
    around that text. -/
def Usage.Stands (u : Usage) (as : List String) (v : Json) : Prop :=
  ∃ as' s, Leaf as v as' s ∧ u.token ∈ placeholderTokens s ∧
    (u.token ∈ u.scopedVars ↔ u.token ∈ as')

variable {u : Usage} {v : Json} {w : Json}

theorem Usage.Stands.mono {as bs : List String}
    (h : u.Stands as v) (hlift : ∀ as' s, Leaf as v as' s → Leaf bs w as' s) : u.Stands bs w := by
  obtain ⟨as', s, hleaf, hrest⟩ := h
  exact ⟨as', s, hlift as' s hleaf, hrest⟩

variable {k : String} {scope : List String} {xs : List Json} {fs gs : List (String × Json)}

private theorem field?_cons_ne {name : String} (h : k ≠ name) (v : Json)
    (fs : List (String × Json)) :
    (Json.obj ((k, v) :: fs)).field? name = (Json.obj fs).field? name := by
  simp [Json.field?, h]

theorem mem_itemUsages :
    u ∈ itemUsages scope xs ↔ ∃ x ∈ xs, u ∈ collectPlaceholderUsages scope x := by
  induction xs with
  | nil => simp [itemUsages]
  | cons x xs ih => simp [itemUsages, ih]

theorem mem_fieldUsages : u ∈ fieldUsages scope fs ↔
    ∃ f ∈ fs, u ∈ if f.1 = "foreach" ∧ f.2.isContainer then foreachUsages scope f.2
      else collectPlaceholderUsages scope f.2 := by
  induction fs with
  | nil => simp [fieldUsages]
  | cons f fs ih => rw [fieldUsages, List.mem_append, ih, List.exists_mem_cons_iff]

theorem mem_outerUsages : u ∈ outerUsages scope gs ↔
    ∃ f ∈ gs, f.1 ≠ "template" ∧ u ∈ collectPlaceholderUsages scope f.2 := by
  induction gs with
  | nil => simp [outerUsages]
  | cons f gs ih =>
    rw [outerUsages, List.mem_append, ih, List.exists_mem_cons_iff]
    by_cases hk : f.1 = "template" <;> simp [hk]

theorem mem_templateUsages : u ∈ templateUsages scope gs ↔
    ∃ v, (Json.obj gs).field? "template" = some v ∧ jsTruthy v = true ∧
      u ∈ collectPlaceholderUsages scope v := by
  induction gs with
  | nil => simp [templateUsages, Json.field?]
  | cons f gs ih =>
    obtain ⟨k, w⟩ := f
    rw [templateUsages]
    by_cases hk : k = "template"
    · by_cases hw : jsTruthy w = true <;> simp [Json.field?, hk, hw]
    · rw [if_neg hk, ih, field?_cons_ne hk]

private theorem mem_of_field? {name : String} (h : (Json.obj gs).field? name = some v) :
    (name, v) ∈ gs := by
  obtain ⟨f, hf, rfl⟩ := Option.map_eq_some_iff.mp h
  have hname : f.1 = name := by simpa using List.find?_some hf
  rw [← hname]
  exact List.mem_of_find?_eq_some hf

/-- **Every usage stands somewhere.** -/
theorem usage_stands (v : Json) (scope as : List String) (hbinds : Binds scope as) (u : Usage)
    (hu : u ∈ collectPlaceholderUsages scope v) : u.Stands as v := by
  match v with
  | .null | .bool _ | .num _ => cases hu
  | .str s =>
    obtain ⟨n, hn, rfl⟩ := List.mem_map.mp hu
    exact ⟨as, s, .str, hn, hbinds n s hn⟩
  | .arr xs =>
    obtain ⟨x, hx, hu⟩ := mem_itemUsages.mp hu
    have hlevel := nesting_le_items hx
    exact (usage_stands x scope as hbinds u hu).mono (fun _ _ => .item hx)
  | .obj fs =>
    obtain ⟨⟨k, w⟩, hf, hu⟩ := mem_fieldUsages.mp hu
    have hlevel := nesting_le_fields hf
    by_cases hfe : k = "foreach" ∧ w.isContainer = true
    case neg =>
      rw [if_neg hfe] at hu
      exact (usage_stands w scope as hbinds u hu).mono (fun _ _ => .field hf hfe)
    rw [if_pos hfe] at hu
    obtain ⟨rfl, hcontainer⟩ := hfe
    match w with
    | .null | .bool _ | .num _ | .str _ => cases hcontainer
    | .arr xs =>
      obtain ⟨x, hx, hu⟩ := mem_itemUsages.mp hu
      have hitem := nesting_le_items hx
      exact (usage_stands x scope as hbinds u hu).mono (fun _ _ => .foreachItem hf hx)
    | .obj gs =>
      rcases List.mem_append.mp hu with hu | hu
      · obtain ⟨⟨k, x⟩, hx, hne, hu⟩ := mem_outerUsages.mp hu
        have hfield := nesting_le_fields hx
        exact (usage_stands x scope as hbinds u hu).mono (fun _ _ => .foreachField hf hx hne)
      · obtain ⟨x, hx, -, hu⟩ := mem_templateUsages.mp hu
        have hfield := nesting_le_fields (mem_of_field? hx)
        exact (usage_stands x _ _ (hbinds.foreach _) u hu).mono (fun _ _ => .template hf hx)
termination_by nesting v
decreasing_by
  all_goals
    simp only [nesting_arr, nesting_obj] at *
    omega

/-! ## What the checker does not miss -/

theorem truthy_of_token {as as' : List String}
    (h : Leaf as v as' s) (hn : n ∈ placeholderTokens s) : jsTruthy v = true := by
  cases h with
  | str =>
    rw [jsTruthy, bne_iff_ne]
    rintro rfl
    have hnone : placeholderTokens "" = [] := by decide
    rw [hnone] at hn
    cases hn
  | item | field | foreachItem | foreachField | template => rfl

/-- **No token is missed.** -/
theorem usage_of_leaf {as as' : List String} (h : Leaf as v as' s)
    (hn : n ∈ placeholderTokens s) : ∀ scope, Binds scope as →
      ∃ u ∈ collectPlaceholderUsages scope v, u.token = n ∧ (n ∈ u.scopedVars ↔ n ∈ as') := by
  induction h with
  | str =>
    intro scope hbinds
    exact ⟨⟨n, scope⟩, List.mem_map.mpr ⟨n, hn, rfl⟩, rfl, hbinds n _ hn⟩
  | item hx hleaf ih =>
    intro scope hbinds
    obtain ⟨u, hu, htoken, hscope⟩ := ih hn scope hbinds
    exact ⟨u, mem_itemUsages.mpr ⟨_, hx, hu⟩, htoken, hscope⟩
  | field hmem hno hleaf ih =>
    intro scope hbinds
    obtain ⟨u, hu, htoken, hscope⟩ := ih hn scope hbinds
    exact ⟨u, mem_fieldUsages.mpr ⟨_, hmem, by rw [if_neg hno]; exact hu⟩, htoken, hscope⟩
  | foreachItem hmem hx hleaf ih =>
    intro scope hbinds
    obtain ⟨u, hu, htoken, hscope⟩ := ih hn scope hbinds
    refine ⟨u, mem_fieldUsages.mpr ⟨_, hmem, ?_⟩, htoken, hscope⟩
    exact mem_itemUsages.mpr ⟨_, hx, hu⟩
  | foreachField hmem hk hne hleaf ih =>
    intro scope hbinds
    obtain ⟨u, hu, htoken, hscope⟩ := ih hn scope hbinds
    refine ⟨u, mem_fieldUsages.mpr ⟨_, hmem, ?_⟩, htoken, hscope⟩
    exact List.mem_append_left _ (mem_outerUsages.mpr ⟨_, hk, hne, hu⟩)
  | template hmem hfield hleaf ih =>
    intro scope hbinds
    obtain ⟨u, hu, htoken, hscope⟩ := ih hn _ (hbinds.foreach _)
    refine ⟨u, mem_fieldUsages.mpr ⟨_, hmem, ?_⟩, htoken, hscope⟩
    exact List.mem_append_right _
      (mem_templateUsages.mpr ⟨_, hfield, truthy_of_token hleaf hn, hu⟩)

theorem binds_nil : Binds [] [] := fun _ _ _ => Iff.rfl

variable {spec : Json}

/-- **The checker's verdict**: a token needs an input where some text holds it and no
    foreach around that text is named as it. -/
theorem mem_findUnresolvedPlaceholders : n ∈ findUnresolvedPlaceholders spec ↔
      ∃ as s, Leaf [] spec as s ∧ n ∈ placeholderTokens s ∧ n ∉ as := by
  rw [findUnresolvedPlaceholders, List.mem_eraseDups, List.mem_map]
  constructor
  · rintro ⟨u, hu, rfl⟩
    rw [List.mem_filter] at hu
    obtain ⟨hmem, hfree⟩ := hu
    obtain ⟨as, s, hleaf, hn, hscope⟩ := usage_stands spec [] [] binds_nil u hmem
    refine ⟨as, s, hleaf, hn, ?_⟩
    rw [← hscope]
    simpa using hfree
  · rintro ⟨as, s, hleaf, hn, hfree⟩
    obtain ⟨u, hu, rfl, hscope⟩ := usage_of_leaf hleaf hn [] binds_nil
    refine ⟨u, List.mem_filter.mpr ⟨hu, ?_⟩, rfl⟩
    rw [← hscope] at hfree
    simpa using hfree

/-! ## The texts of a filled template -/

section Filling

variable (inputs : Record)

theorem mem_fillItems : w ∈ fillItems inputs xs ↔ ∃ x ∈ xs, w = fillPlaceholders inputs x := by
  induction xs with
  | nil => simp [fillItems]
  | cons x xs ih => simp [fillItems, ih]

theorem mem_fillFields : (k, w) ∈ fillFields inputs fs ↔
    ∃ v, (k, v) ∈ fs ∧ k ≠ "__proto__" ∧ w = fillPlaceholders inputs v := by
  induction fs with
  | nil => simp [fillFields]
  | cons f fs ih =>
    obtain ⟨l, x⟩ := f
    rw [fillFields]
    by_cases hl : l = "__proto__"
    · rw [if_pos hl, ih]
      refine exists_congr fun v => ?_
      rw [List.mem_cons, Prod.mk.injEq, hl]
      tauto
    · rw [if_neg hl, List.mem_cons, ih, Prod.mk.injEq]
      simp only [List.mem_cons, Prod.mk.injEq]
      constructor
      · rintro (⟨rfl, rfl⟩ | ⟨v, hv, hrest⟩)
        · exact ⟨x, .inl ⟨rfl, rfl⟩, hl, rfl⟩
        · exact ⟨v, .inr hv, hrest⟩
      · rintro ⟨v, ⟨rfl, rfl⟩ | hv, hrest⟩
        · exact .inl ⟨rfl, hrest.2⟩
        · exact .inr ⟨v, hv, hrest⟩

theorem isContainer_fill (v : Json) : (fillPlaceholders inputs v).isContainer = v.isContainer := by
  cases v <;> rfl

theorem field?_fill {name : String} (hname : name ≠ "__proto__") (fs : List (String × Json)) :
    (Json.obj (fillFields inputs fs)).field? name =
      ((Json.obj fs).field? name).map (fillPlaceholders inputs) := by
  induction fs with
  | nil => rfl
  | cons f fs ih =>
    obtain ⟨k, v⟩ := f
    rw [fillFields]
    by_cases hk : k = name
    · simp [Json.field?, hk, hname]
    rw [field?_cons_ne hk, ← ih]
    split
    · rfl
    · exact field?_cons_ne hk ..

theorem asText_fill (fs : List (String × Json)) :
    asText (.obj (fillFields inputs fs)) = (asText (.obj fs)).map (fillString inputs) := by
  rw [asText, asText, field?_fill inputs (by decide)]
  cases (Json.obj fs).field? "as" with
  | none => rfl
  | some v => cases v <;> rfl

theorem obj_of_fill (h : fillPlaceholders inputs v = .obj fs) :
    ∃ gs, v = .obj gs ∧ fs = fillFields inputs gs := by
  cases v with
  | obj gs => exact ⟨gs, rfl, (Json.obj.inj h).symm⟩
  | null | bool | num | str | arr => cases h

theorem arr_of_fill (h : fillPlaceholders inputs v = .arr xs) :
    ∃ ys, v = .arr ys ∧ xs = fillItems inputs ys := by
  cases v with
  | arr ys => exact ⟨ys, rfl, (Json.arr.inj h).symm⟩
  | null | bool | num | str | obj => cases h

theorem str_of_fill (h : fillPlaceholders inputs v = .str s) :
    ∃ t, v = .str t ∧ s = fillString inputs t := by
  cases v with
  | str t => exact ⟨t, rfl, (Json.str.inj h).symm⟩
  | null | bool | num | arr | obj => cases h

/-- A text and its surroundings before they were filled. -/
def Origin (as : List String) (v : Json) (bs' : List String) (t : String) : Prop :=
  ∃ as' s, Leaf as v as' s ∧ bs' = as'.map (fillString inputs) ∧ t = fillString inputs s

/-- **Filling makes no new text**: every text of a filled value was filled in its place. -/
theorem leaf_of_fill {bs bs' : List String} {t : String} (h : Leaf bs w bs' t) :
    ∀ as v, bs = as.map (fillString inputs) → w = fillPlaceholders inputs v →
      Origin inputs as v bs' t := by
  induction h with
  | str =>
    rintro as v rfl hw
    obtain ⟨s, rfl, rfl⟩ := str_of_fill inputs hw.symm
    exact ⟨as, s, .str, rfl, rfl⟩
  | item hx _ ih =>
    rintro as v rfl hw
    obtain ⟨ys, rfl, rfl⟩ := arr_of_fill inputs hw.symm
    obtain ⟨y, hy, rfl⟩ := (mem_fillItems inputs).mp hx
    obtain ⟨as', s, hleaf, hrest⟩ := ih as y rfl rfl
    exact ⟨as', s, .item hy hleaf, hrest⟩
  | field hmem hno _ ih =>
    rintro as v rfl hw
    obtain ⟨gs, rfl, rfl⟩ := obj_of_fill inputs hw.symm
    obtain ⟨x, hx, -, rfl⟩ := (mem_fillFields inputs).mp hmem
    rw [isContainer_fill] at hno
    obtain ⟨as', s, hleaf, hrest⟩ := ih as x rfl rfl
    exact ⟨as', s, .field hx hno hleaf, hrest⟩
  | foreachItem hmem hx _ ih =>
    rintro as v rfl hw
    obtain ⟨gs, rfl, rfl⟩ := obj_of_fill inputs hw.symm
    obtain ⟨fe, hfe, -, hfill⟩ := (mem_fillFields inputs).mp hmem
    obtain ⟨ys, rfl, rfl⟩ := arr_of_fill inputs hfill.symm
    obtain ⟨y, hy, rfl⟩ := (mem_fillItems inputs).mp hx
    obtain ⟨as', s, hleaf, hrest⟩ := ih as y rfl rfl
    exact ⟨as', s, .foreachItem hfe hy hleaf, hrest⟩
  | foreachField hmem hk hne _ ih =>
    rintro as v rfl hw
    obtain ⟨gs, rfl, rfl⟩ := obj_of_fill inputs hw.symm
    obtain ⟨fe, hfe, -, hfill⟩ := (mem_fillFields inputs).mp hmem
    obtain ⟨es, rfl, rfl⟩ := obj_of_fill inputs hfill.symm
    obtain ⟨x, hx, -, rfl⟩ := (mem_fillFields inputs).mp hk
    obtain ⟨as', s, hleaf, hrest⟩ := ih as x rfl rfl
    exact ⟨as', s, .foreachField hfe hx hne hleaf, hrest⟩
  | template hmem hfield _ ih =>
    rintro as v rfl hw
    obtain ⟨gs, rfl, rfl⟩ := obj_of_fill inputs hw.symm
    obtain ⟨fe, hfe, -, hfill⟩ := (mem_fillFields inputs).mp hmem
    obtain ⟨es, rfl, rfl⟩ := obj_of_fill inputs hfill.symm
    rw [field?_fill inputs (by decide)] at hfield
    obtain ⟨x, hx, rfl⟩ := Option.map_eq_some_iff.mp hfield
    obtain ⟨as', s, hleaf, hrest⟩ :=
      ih (asText (.obj es) ++ as) x (by rw [asText_fill, List.map_append]) rfl
    exact ⟨as', s, .template hfe hx hleaf, hrest⟩

/-! ## Tokens of a filled text -/

/-- The name is no own key of the inputs. -/
def NoInput (n : String) : Prop := Record.get? n inputs = none

instance (n : String) : Decidable (NoInput inputs n) :=
  inferInstanceAs (Decidable (_ = none))

/-- The inputs form no token in the text: none is named as a token of it, or their texts
    keep apart from the braces around them. -/
def Formless (s : String) : Prop :=
  (∀ n ∈ placeholderTokens s, NoInput inputs n) ∨
    Tokens.Apart (replacement inputs) (Tokens.pieces placeholderToken s.toList)

/-- No input's value has a token in its text. -/
def TokenFree : Prop :=
  ∀ n v, Record.get? n inputs = some v → placeholderTokens (toText v) = []

theorem mem_placeholderTokens : n ∈ placeholderTokens s ↔ ∃ raw name,
    .token raw name ∈ Tokens.pieces placeholderToken s.toList ∧ String.ofList name = n := by
  rw [placeholderTokens, List.mem_map]
  constructor
  · rintro ⟨name, hname, rfl⟩
    obtain ⟨raw, hraw⟩ := Tokens.mem_names.mp hname
    exact ⟨raw, name, hraw, rfl⟩
  · rintro ⟨raw, name, hraw, rfl⟩
    exact ⟨name, Tokens.mem_names.mpr ⟨raw, hraw⟩, rfl⟩

variable {raw name : List Char}

/-- Only a token no input is named as is written back: no value is a token. -/
theorem replacement_eq_raw (hfree : TokenFree inputs)
    (hraw : .token raw name ∈ Tokens.pieces placeholderToken s.toList) :
    replacement inputs raw name = raw ↔ NoInput inputs (String.ofList name) := by
  rw [replacement, valueOf, NoInput]
  cases hget : Record.get? (String.ofList name) inputs with
  | none => exact iff_of_true rfl rfl
  | some v =>
    refine iff_of_false (fun hkeep => ?_) (Option.some_ne_none v)
    have hnone := hfree _ v hget
    have hocc : name ∈ Tokens.names placeholderToken (toText v).toList := by
      rw [Tokens.mem_names_iff]
      exact ⟨[], raw, [], Tokens.isToken_of_mem hraw, by simpa using hkeep⟩
    rw [placeholderTokens, List.map_eq_nil_iff] at hnone
    rw [hnone] at hocc
    cases hocc

/-- A text with no token named as an input stays as it is. -/
theorem fillString_self (hfree : TokenFree inputs)
    (h : ∀ n ∈ placeholderTokens s, NoInput inputs n) : fillString inputs s = s := by
  rw [fillString, Tokens.replace_eq_self, String.ofList_toList]
  intro raw name hraw
  exact (replacement_eq_raw inputs hfree hraw).mpr
    (h _ (mem_placeholderTokens.mpr ⟨raw, name, hraw, rfl⟩))

theorem token_fill_iff (hfree : TokenFree inputs) (hs : Formless inputs s) :
    n ∈ placeholderTokens (fillString inputs s) ↔ n ∈ placeholderTokens s ∧ NoInput inputs n := by
  constructor
  · intro h
    rcases hs with hs | hs
    · rw [fillString_self inputs hfree hs] at h
      exact ⟨h, hs n h⟩
    · obtain ⟨name, hname, rfl⟩ := List.mem_map.mp h
      rw [fillString, String.toList_ofList, Tokens.mem_names_iff] at hname
      obtain ⟨raw, hraw, hkept⟩ := hs.kept (fun _ _ hmem => Tokens.isToken_of_mem hmem) hname
      exact ⟨mem_placeholderTokens.mpr ⟨raw, name, hraw, rfl⟩,
        (replacement_eq_raw inputs hfree hraw).mp hkept⟩
  · rintro ⟨hn, hno⟩
    obtain ⟨raw, name, hraw, rfl⟩ := mem_placeholderTokens.mp hn
    refine List.mem_map.mpr ⟨name, ?_, rfl⟩
    rw [fillString, String.toList_ofList]
    exact Tokens.mem_names_replace hraw ((replacement_eq_raw inputs hfree hraw).mpr hno)

/-! ## Instantiation -/

/-- The filler writes every foreach-scoped token back as it is. -/
def ScopedKept (spec : Json) : Prop :=
  ∀ as s, Leaf [] spec as s → ∀ raw name, .token raw name ∈ Tokens.pieces placeholderToken s.toList →
    String.ofList name ∈ as → replacement inputs raw name = raw

/-- **Instantiation respects the scope of a foreach**: scoped tokens stay, and the tokens
    left to resolve are the reported ones that no input is named as. -/
def Instantiates (spec : Json) : Prop :=
  ScopedKept inputs spec ∧
  ∀ n, n ∈ findUnresolvedPlaceholders (fillPlaceholders inputs spec) ↔
    n ∈ findUnresolvedPlaceholders spec ∧ NoInput inputs n

/-- No token the checker takes as bound is named as an input. -/
def Unscoped (spec : Json) : Prop :=
  ∀ u ∈ collectPlaceholderUsages [] spec, u.token ∈ u.scopedVars → NoInput inputs u.token

/-- A part of a template that the inputs change token by token only. -/
def PlainPart : Json → Prop
  | .str s => Formless inputs s
  | .obj fs => ∀ f ∈ fs, f.1 ≠ "__proto__" ∧
      (f.1 = "foreach" → ∀ a ∈ asText f.2, ∀ n ∈ placeholderTokens a, NoInput inputs n)
  | _ => True

/-- The values form no token, rename no foreach, and no member is lost. -/
def Plain (spec : Json) : Prop :=
  ∀ p u, Reaches spec p u → PlainPart inputs u

/-- The filler keeps the scoped tokens just when no input is named as one. -/
theorem scopedKept_iff (hfree : TokenFree inputs) (spec : Json) :
    ScopedKept inputs spec ↔ Unscoped inputs spec := by
  constructor
  · intro h u hu hbound
    obtain ⟨as, s, hleaf, hn, hscope⟩ := usage_stands spec [] [] binds_nil u hu
    obtain ⟨raw, name, hraw, he⟩ := mem_placeholderTokens.mp hn
    rw [← he]
    exact (replacement_eq_raw inputs hfree hraw).mp
      (h as s hleaf raw name hraw (he ▸ hscope.mp hbound))
  · intro h as s hleaf raw name hraw has
    have hn := mem_placeholderTokens.mpr ⟨raw, name, hraw, rfl⟩
    obtain ⟨u, hu, htoken, hscope⟩ := usage_of_leaf hleaf hn [] binds_nil
    have hno := h u hu (htoken ▸ hscope.mpr has)
    rw [htoken] at hno
    exact (replacement_eq_raw inputs hfree hraw).mpr hno

theorem plain_str (s : String) : Plain inputs (.str s) ↔ Formless inputs s := by
  constructor
  · exact fun h => h [] _ (.here _)
  · rintro h p u ⟨⟩
    exact h

theorem plain_arr : Plain inputs (.arr xs) ↔ ∀ x ∈ xs, Plain inputs x := by
  constructor
  · intro h x hx p u hreach
    obtain ⟨i, hi⟩ := List.mem_iff_getElem?.mp hx
    exact h (.item i :: p) u (.item hi hreach)
  · rintro h p u hreach
    cases hreach with
    | here => trivial
    | item hget hreach => exact h _ (List.mem_of_getElem? hget) _ u hreach

theorem plain_obj :
    Plain inputs (.obj fs) ↔ PlainPart inputs (.obj fs) ∧ ∀ f ∈ fs, Plain inputs f.2 := by
  constructor
  · intro h
    exact ⟨h [] _ (.here _), fun f hf p u hreach => h (.field f.1 :: p) u (.field hf hreach)⟩
  · rintro ⟨hpart, hfields⟩ p u hreach
    cases hreach with
    | here => exact hpart
    | field hmem hreach => exact hfields _ hmem _ u hreach

variable {inputs}

theorem Plain.field (h : Plain inputs (.obj fs)) (hmem : (k, v) ∈ fs) :
    Plain inputs v ∧ k ≠ "__proto__" := by
  obtain ⟨hpart, hfields⟩ := (plain_obj inputs).mp h
  exact ⟨hfields _ hmem, (hpart _ hmem).1⟩

/-- No text has a token that an input is named as. -/
def Unnamed (inputs : Record) (as : List String) : Prop :=
  ∀ a ∈ as, ∀ n ∈ placeholderTokens a, NoInput inputs n

/-- A text of a plain template is in its place when the template is filled. -/
theorem leaf_fill {as as' : List String} (h : Leaf as v as' s) (hv : Plain inputs v)
    (has : Unnamed inputs as) : Formless inputs s ∧ Unnamed inputs as' ∧
      Leaf (as.map (fillString inputs)) (fillPlaceholders inputs v) (as'.map (fillString inputs))
        (fillString inputs s) := by
  induction h with
  | str => exact ⟨(plain_str inputs _).mp hv, has, .str⟩
  | item hx _ ih =>
    obtain ⟨hs, has', hleaf⟩ := ih ((plain_arr inputs).mp hv _ hx) has
    exact ⟨hs, has', .item ((mem_fillItems inputs).mpr ⟨_, hx, rfl⟩) hleaf⟩
  | field hmem hno _ ih =>
    obtain ⟨hfield, hproto⟩ := hv.field hmem
    obtain ⟨hs, has', hleaf⟩ := ih hfield has
    refine ⟨hs, has', .field ((mem_fillFields inputs).mpr ⟨_, hmem, hproto, rfl⟩) ?_ hleaf⟩
    rw [isContainer_fill]
    exact hno
  | foreachItem hmem hx _ ih =>
    obtain ⟨hfe, hproto⟩ := hv.field hmem
    obtain ⟨hs, has', hleaf⟩ := ih ((plain_arr inputs).mp hfe _ hx) has
    exact ⟨hs, has', .foreachItem ((mem_fillFields inputs).mpr ⟨_, hmem, hproto, rfl⟩)
      ((mem_fillItems inputs).mpr ⟨_, hx, rfl⟩) hleaf⟩
  | foreachField hmem hk hne _ ih =>
    obtain ⟨hfe, hproto⟩ := hv.field hmem
    obtain ⟨hfield, hproto'⟩ := hfe.field hk
    obtain ⟨hs, has', hleaf⟩ := ih hfield has
    exact ⟨hs, has', .foreachField ((mem_fillFields inputs).mpr ⟨_, hmem, hproto, rfl⟩)
      ((mem_fillFields inputs).mpr ⟨_, hk, hproto', rfl⟩) hne hleaf⟩
  | template hmem hfield _ ih =>
    obtain ⟨hfe, hproto⟩ := hv.field hmem
    have hown := ((plain_obj inputs).mp hv).1 _ hmem
    obtain ⟨hs, has', hleaf⟩ := ih (hfe.field (mem_of_field? hfield)).1
      (List.forall_mem_append.mpr ⟨hown.2 rfl, has⟩)
    rw [List.map_append, ← asText_fill] at hleaf
    refine ⟨hs, has', .template ((mem_fillFields inputs).mpr ⟨_, hmem, hproto, rfl⟩) ?_ hleaf⟩
    rw [field?_fill inputs (by decide), hfield]
    rfl

theorem Unnamed.map_fill (hfree : TokenFree inputs) {as : List String} (h : Unnamed inputs as) :
    as.map (fillString inputs) = as := by
  have hself : ∀ a ∈ as, fillString inputs a = id a :=
    fun a ha => fillString_self inputs hfree (h a ha)
  rw [List.map_congr_left hself, List.map_id]

end Filling

/-- A template whose foreach binds `idea`. -/
def ideasTemplate : Json :=
  .obj [("name", .str "Posts"), ("tasks", .arr [
    .obj [("key", .str "ideas"), ("title", .str "Collect ideas"), ("type", .str "manual")],
    .obj [("key", .str "posts"), ("title", .str "Posts for \x7b\x7bcampaign\x7d\x7d"),
      ("type", .str "checkpoint"),
      ("foreach", .obj [("source", .str "ideas"), ("as", .str "idea"),
        ("template", .obj [("key", .str "post"),
          ("title", .str "Write \x7b\x7bidea\x7d\x7d"), ("type", .str "manual")])])]])]

theorem ideas_leaf : Leaf [] ideasTemplate ["idea"] "Write \x7b\x7bidea\x7d\x7d" := by
  refine .field (k := "tasks") (.tail _ (List.mem_singleton.mpr rfl))
    (by decide) ?_
  refine .item (.tail _ (List.mem_singleton.mpr rfl)) ?_
  refine .template
    (.tail _ (.tail _ (.tail _
      (List.mem_singleton.mpr rfl)))) rfl ?_
  exact .field (k := "title") (.tail _ (List.mem_cons_self ..)) (by decide) .str

theorem campaign_free : TokenFree [("campaign", .str "Spring")] := by
  intro n v hv
  rw [Record.get?] at hv
  by_cases hn : "campaign" = n
  · rw [if_pos hn] at hv
    cases hv
    decide
  · rw [if_neg hn] at hv
    cases hv

end WfPlaceholders
