import Cinatra.Workflows.Placeholders

/-! # PlaceholderParity — the placeholders an ApiNode is checked against

    The validator looks for placeholders in the JSON text of a node's fields.  A match
    lies within one string of the fields (`occurs_print`), but JSON writes a line break or
    a tab as an escape, which is no blank.  So the set is that of the strings themselves
    exactly when each name has a match without such characters
    (`inferPlaceholderSet_exact_iff`). -/

namespace AgentOas

open JsonValue Tokens WfPlaceholders

/-- `PLACEHOLDER_REGEX`. -/
def placeholderRegex : Grammar :=
  { placeholderToken with start := nameChar, start_plain := placeholderToken.rest_plain }

/-- `ENV_VAR_PLACEHOLDER`. -/
def envVarPlaceholder (name : List Char) : Bool :=
  name.head?.any (fun c => c.isUpper || c = '_') &&
    name.all (fun c => c.isUpper || c.isDigit || c = '_')

/-- `APINODE_PLACEHOLDER_SOURCES`. -/
def apiNodePlaceholderSources : List String :=
  ["url", "http_method", "api_spec_uri", "data", "query_params", "headers"]

def sourceValues (apiNode : Record) : List Json :=
  apiNodePlaceholderSources.filterMap (fun key => Record.get? key apiNode)

def serializeApiNodePlaceholderSources (apiNode : Record) : List Char :=
  ['\n'].intercalate ((sourceValues apiNode).map print)

def inferPlaceholderSet (text : List Char) : List (List Char) :=
  ((names placeholderRegex text).filter (fun name => !envVarPlaceholder name)).eraseDups

/-! ## The strings of a value -/

mutual
/-- The string values and the keys in a value. -/
def strings : Json → List String
  | .str s => [s]
  | .arr xs => itemStrings xs
  | .obj fs => fieldStrings fs
  | _ => []

def itemStrings : List Json → List String
  | [] => []
  | x :: xs => strings x ++ itemStrings xs

def fieldStrings : Record → List String
  | [] => []
  | (k, x) :: fs => k :: (strings x ++ fieldStrings fs)
end

/-- A match with no character that JSON writes as an escape. -/
def OccursUnescaped (name cs : List Char) : Prop :=
  ∃ raw, IsToken placeholderRegex raw name ∧ raw <:+: cs ∧ ∀ c ∈ raw, escape c = [c]

/-! ## Matches in a literal -/

theorem escape_cases (c : Char) :
    escape c = [c] ∨ ∃ t, escape c = '\\' :: t ∧ ∀ d ∈ t, d ≠ '\x7b' := by
  have hdigit : ∀ n < 16, hexDigit n ≠ '\x7b' := by decide
  rw [escape]
  split_ifs
  iterate 7 exact .inr ⟨_, rfl, by simp⟩
  · refine .inr ⟨_, rfl, ?_⟩
    simp [hdigit _ (by omega : c.toNat / 16 < 16), hdigit _ (by omega : c.toNat % 16 < 16)]
  · exact .inl rfl

theorem prefix_escape {raw : List Char} (hplain : ∀ c ∈ raw, c ≠ '\\') (cs : List Char) :
    raw <+: cs.flatMap escape ↔ raw <+: cs ∧ ∀ c ∈ raw, escape c = [c] := by
  induction cs generalizing raw with
  | nil =>
    rw [List.flatMap_nil, List.prefix_nil, iff_self_and]
    rintro rfl c hc
    cases hc
  | cons c cs ih =>
    cases raw with
    | nil => simp
    | cons a raw =>
      obtain ⟨ha, hplain⟩ := List.forall_mem_cons.mp hplain
      rw [List.flatMap_cons, List.cons_prefix_cons, List.forall_mem_cons]
      rcases escape_cases c with he | ⟨t, he, -⟩
      · rw [he, List.singleton_append, List.cons_prefix_cons, ih hplain]
        constructor
        · rintro ⟨rfl, hcs, hall⟩
          exact ⟨⟨rfl, hcs⟩, he, hall⟩
        · rintro ⟨⟨rfl, hcs⟩, -, hall⟩
          exact ⟨rfl, hcs, hall⟩
      · rw [he, List.cons_append, List.cons_prefix_cons]
        refine iff_of_false (fun h => ha h.1) ?_
        rintro ⟨⟨rfl, -⟩, hself, -⟩
        exact ha (List.cons.inj (hself.symm.trans he)).1

/-! ## Matches in a JSON text -/

section Match

variable {raw : List Char} (hopen : ∃ body, raw = '\x7b' :: '\x7b' :: body)

include hopen

theorem match_skip {c : Char} (hc : c ≠ '\x7b') (r : List Char) : raw <:+: c :: r ↔ raw <:+: r := by
  obtain ⟨body, rfl⟩ := hopen
  rw [List.infix_cons_iff, List.cons_prefix_cons]
  exact or_iff_right fun h => hc h.1.symm

theorem match_open {d : Char} (hd : d ≠ '\x7b') (r : List Char) :
    raw <:+: '\x7b' :: d :: r ↔ raw <:+: d :: r := by
  obtain ⟨body, rfl⟩ := hopen
  rw [List.infix_cons_iff, List.cons_prefix_cons, List.cons_prefix_cons]
  exact or_iff_right fun h => hd h.2.1.symm

theorem match_past {xs : List Char} (hxs : ∀ c ∈ xs, c ≠ '\x7b') (r : List Char) :
    raw <:+: xs ++ r ↔ raw <:+: r := by
  induction xs with
  | nil => rfl
  | cons c xs ih =>
    rw [List.forall_mem_cons] at hxs
    rw [List.cons_append, match_skip hopen hxs.1, ih hxs.2]

variable (hplain : ∀ c ∈ raw, c ≠ '"' ∧ c ≠ '\\')

include hplain

theorem match_escape (cs : List Char) :
    raw <:+: cs.flatMap escape ↔ raw <:+: cs ∧ ∀ c ∈ raw, escape c = [c] := by
  induction cs with
  | nil =>
    obtain ⟨body, rfl⟩ := hopen
    simp
  | cons c cs ih =>
    have hhead := prefix_escape (fun c hc => (hplain c hc).2) (c :: cs)
    rw [List.flatMap_cons] at hhead ⊢
    rcases escape_cases c with he | ⟨t, he, ht⟩
    · rw [he, List.singleton_append] at hhead ⊢
      rw [List.infix_cons_iff, List.infix_cons_iff, hhead, ih, or_and_right]
    have hne : c ≠ '\x7b' := by
      rintro rfl
      cases he
    rw [he, match_past hopen (List.forall_mem_cons.mpr ⟨by decide, ht⟩), ih,
      match_skip hopen hne]

theorem match_quoted (s : String) (r : List Char) :
    raw <:+: quoted s ++ r ↔ raw <:+: s.toList.flatMap escape ∨ raw <:+: r := by
  rw [quoted, List.cons_append, match_skip hopen (by decide), List.append_assoc,
    List.singleton_append, List.infix_append_iff, match_skip hopen (by decide)]
  constructor
  · rintro (h | h | ⟨l₁, l₂, rfl, h₁, h₂⟩)
    · exact .inl h
    · exact .inr h
    · cases l₂ with
      | nil => exact .inl (by simpa using h₁.isInfix)
      | cons d l₂ =>
        exact absurd (List.cons_prefix_cons.mp h₂).1 (hplain d (by simp)).1
  · exact fun h => h.imp_right .inl

def InStrings (raw : List Char) (ss : List String) : Prop :=
  ∃ s ∈ ss, raw <:+: s.toList.flatMap escape

omit hopen hplain in
theorem inStrings_append (ss ts : List String) :
    InStrings raw (ss ++ ts) ↔ InStrings raw ss ∨ InStrings raw ts := by
  simp only [InStrings, List.mem_append, or_and_right, exists_or]

theorem match_field {x : Json} {ss ts : List String} {rest : List Char} (k : String)
    (hx : ∀ r, raw <:+: print x ++ r ↔ InStrings raw ss ∨ raw <:+: r) (r : List Char)
    (hrest : raw <:+: rest ++ r ↔ InStrings raw ts ∨ raw <:+: r) :
    raw <:+: quoted k ++ ':' :: (print x ++ rest) ++ r ↔
      InStrings raw (k :: (ss ++ ts)) ∨ raw <:+: r := by
  have hkey : InStrings raw (k :: (ss ++ ts)) ↔
      raw <:+: k.toList.flatMap escape ∨ InStrings raw (ss ++ ts) := by
    simp [InStrings]
  rw [List.append_assoc, match_quoted hopen hplain, List.cons_append, match_skip hopen (by decide),
    List.append_assoc, hx, hrest, hkey, inStrings_append, or_assoc, or_assoc]

-- `match_items` uses `hplain` through `match_print` only
set_option linter.unusedSectionVars false in
mutual
/-- **A match in a JSON text lies in one of its strings**, or behind it. -/
theorem match_print (v : Json) (r : List Char) :
    raw <:+: print v ++ r ↔ InStrings raw (strings v) ∨ raw <:+: r := by
  match v with
  | .null | .bool true | .bool false =>
    rw [print, match_past hopen (by simp)]
    simp [InStrings, strings]
  | .num n =>
    rw [print, match_past hopen fun c hc =>
      numeric_ne (List.all_eq_true.mp n.chars c hc) (by decide)]
    simp [InStrings, strings]
  | .str s =>
    rw [print, match_quoted hopen hplain]
    simp [InStrings, strings]
  | .arr [] =>
    rw [print, match_past hopen (by simp)]
    simp [InStrings, strings, itemStrings]
  | .arr (x :: xs) =>
    rw [print, List.cons_append, match_skip hopen (by decide), List.append_assoc, match_print x,
      match_items xs, strings, itemStrings, inStrings_append, or_assoc]
  | .obj [] =>
    rw [print, List.cons_append, List.singleton_append, match_open hopen (by decide),
      match_skip hopen (by decide)]
    simp [InStrings, strings, fieldStrings]
  | .obj ((k, x) :: fs) =>
    rw [print, List.cons_append]
    refine (match_open hopen (by decide) _).trans ?_
    exact match_field hopen hplain k (match_print x) r (match_fields fs r)

theorem match_items (xs : List Json) (r : List Char) :
    raw <:+: printItems xs ++ r ↔ InStrings raw (itemStrings xs) ∨ raw <:+: r := by
  match xs with
  | [] =>
    rw [printItems, match_past hopen (by simp)]
    simp [InStrings, itemStrings]
  | x :: xs =>
    rw [printItems, List.cons_append, match_skip hopen (by decide), List.append_assoc,
      match_print x, match_items xs, itemStrings, inStrings_append, or_assoc]

theorem match_fields (fs : Record) (r : List Char) :
    raw <:+: printFields fs ++ r ↔ InStrings raw (fieldStrings fs) ∨ raw <:+: r := by
  match fs with
  | [] =>
    rw [printFields, match_past hopen (by simp)]
    simp [InStrings, fieldStrings]
  | (k, x) :: fs =>
    rw [printFields, List.cons_append, match_skip hopen (by decide)]
    exact match_field hopen hplain k (match_print x) r (match_fields fs r)
end

theorem match_joined (vs : List Json) : raw <:+: ['\n'].intercalate (vs.map print) ↔
    InStrings raw (vs.flatMap strings) := by
  have hnil : ¬ raw <:+: [] := by
    obtain ⟨body, rfl⟩ := hopen
    simp
  induction vs with
  | nil => simp [InStrings, hnil]
  | cons v vs ih =>
    cases vs with
    | nil =>
      have hone := match_print hopen hplain v []
      rw [List.append_nil, or_iff_left hnil] at hone
      simpa using hone
    | cons w vs =>
      rw [List.map_cons, List.map_cons, List.intercalate_cons_cons, ← List.map_cons,
        List.append_assoc, match_print hopen hplain, List.singleton_append,
        match_skip hopen (by decide)]
      rw [List.flatMap_cons, inStrings_append]
      exact or_congr_right ih

end Match

/-! ## The set -/

theorem token_avoids {name raw : List Char} (h : IsToken placeholderRegex raw name) {q : Char}
    (hspace : placeholderRegex.space q = false) (hrest : placeholderRegex.rest q = false)
    (hbrace : q ≠ '\x7b' ∧ q ≠ '\x7d') : q ∉ raw := by
  obtain ⟨hbefore, hstart, hname, hafter⟩ := h
  change placeholderRegex.rest _ = true at hstart
  rw [List.all_eq_true] at hbefore hname hafter
  simp only [List.mem_append, List.mem_cons, List.not_mem_nil, or_false]
  grind

theorem mem_inferPlaceholderSet (apiNode : Record) (name : List Char) :
    name ∈ inferPlaceholderSet (serializeApiNodePlaceholderSources apiNode) ↔
      envVarPlaceholder name = false ∧
        ∃ s ∈ (sourceValues apiNode).flatMap strings, OccursUnescaped name s.toList := by
  have hopen : ∀ raw, IsToken placeholderRegex raw name → ∃ body, raw = '\x7b' :: '\x7b' :: body := by
    intro raw h
    obtain ⟨c, body, rfl, -⟩ := h.body
    exact ⟨_, rfl⟩
  have hplain : ∀ raw, IsToken placeholderRegex raw name → ∀ c ∈ raw, c ≠ '"' ∧ c ≠ '\\' :=
    fun raw h c hc => ⟨fun he => token_avoids h (by decide) (by decide) (by decide) (he ▸ hc),
      fun he => token_avoids h (by decide) (by decide) (by decide) (he ▸ hc)⟩
  have hoccurs : ∀ cs, Occurs placeholderRegex name cs ↔
      ∃ raw, IsToken placeholderRegex raw name ∧ raw <:+: cs := fun cs => by
    simp only [Occurs, List.IsInfix, List.append_assoc, eq_comm (a := cs)]
    exact ⟨fun ⟨pre, raw, post, h, he⟩ => ⟨raw, h, pre, post, he⟩,
      fun ⟨raw, h, pre, post, he⟩ => ⟨pre, raw, post, h, he⟩⟩
  rw [inferPlaceholderSet, List.mem_eraseDups, List.mem_filter, and_comm, Bool.not_eq_true',
    mem_names_iff, hoccurs, serializeApiNodePlaceholderSources]
  refine and_congr_right fun _ => ?_
  constructor
  · rintro ⟨raw, h, hin⟩
    obtain ⟨s, hs, hraw⟩ := (match_joined (hopen raw h) (hplain raw h) _).mp hin
    exact ⟨s, hs, raw, h, (match_escape (hopen raw h) (hplain raw h) _).mp hraw⟩
  · rintro ⟨s, hs, raw, h, hraw⟩
    exact ⟨raw, h, (match_joined (hopen raw h) (hplain raw h) _).mpr
      ⟨s, hs, (match_escape (hopen raw h) (hplain raw h) _).mpr hraw⟩⟩

/-- **The set is that of the strings exactly when** no name stands only in matches with a
    character that JSON escapes. -/
theorem inferPlaceholderSet_exact_iff (apiNode : Record) :
    (∀ name, name ∈ inferPlaceholderSet (serializeApiNodePlaceholderSources apiNode) ↔
      envVarPlaceholder name = false ∧ ∃ s ∈ (sourceValues apiNode).flatMap strings,
        Occurs placeholderRegex name s.toList) ↔ ∀ name, envVarPlaceholder name = false →
      (∃ s ∈ (sourceValues apiNode).flatMap strings, Occurs placeholderRegex name s.toList) →
      ∃ s ∈ (sourceValues apiNode).flatMap strings, OccursUnescaped name s.toList := by
  simp only [mem_inferPlaceholderSet]
  constructor
  · exact fun h name henv hin => ((h name).mpr ⟨henv, hin⟩).2
  · refine fun h name => and_congr_right fun henv => ⟨?_, h name henv⟩
    rintro ⟨s, hs, raw, htoken, ⟨pre, post, he⟩, -⟩
    exact ⟨s, hs, pre, raw, post, htoken, by rw [← he, List.append_assoc]⟩

/-- A placeholder over two lines. -/
def brokenLine : Record := [("data", .str "\x7b\x7b\nname \x7d\x7d")]

theorem brokenLine_missed :
    ¬ (∀ name, name ∈ inferPlaceholderSet (serializeApiNodePlaceholderSources brokenLine) ↔
      envVarPlaceholder name = false ∧ ∃ s ∈ (sourceValues brokenLine).flatMap strings,
        Occurs placeholderRegex name s.toList) := by
  intro h
  have hin := (h "name".toList).mpr ⟨by decide, _, List.mem_singleton.mpr rfl,
    mem_names_iff.mp (by decide)⟩
  exact absurd hin (by decide)

end AgentOas
