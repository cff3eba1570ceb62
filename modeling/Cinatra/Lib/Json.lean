import Mathlib.Data.List.Lex
import Mathlib.Data.List.Sort

/-! # JSON values — the printer, the reader, canonical order and stored order

    A general account of the values a JavaScript program serialises.  An object
    is its field list in enumeration order, so `JSON.stringify` is a function of
    the value: `print`.  What is printed is read back (`read_print`), so two values with
    one serialisation are equal (`print_injective`).  `canonical` sorts the fields of every
    object, at every depth; `stored` is the order a `jsonb` column hands back. -/

namespace JsonValue

/-- The characters a serialised number is made of. -/
def numeric (c : Char) : Bool :=
  c.isDigit || c == '-' || c == '+' || c == '.' || c == 'e'

/-- A JavaScript number, carried as the text `String(n)` gives it. -/
structure JsNumber where
  text : List Char
  nonempty : text ≠ []
  chars : text.all numeric = true
deriving DecidableEq

theorem JsNumber.head (a : JsNumber) : ∃ c rest, a.text = c :: rest ∧ numeric c = true := by
  cases h : a.text with
  | nil => exact absurd h a.nonempty
  | cons c rest =>
    have hall := a.chars
    rw [h, List.all_cons, Bool.and_eq_true] at hall
    exact ⟨c, rest, rfl, hall.1⟩

/-- The whole number `n` as a JavaScript number. -/
def JsNumber.ofNat (n : Nat) : JsNumber where
  text := Nat.toDigits 10 n
  nonempty := Nat.toDigits_ne_nil
  chars := by
    rw [List.all_eq_true]
    intro c hc
    have hd := Nat.isDigit_of_mem_toDigits (by decide) (by decide) hc
    rw [numeric]
    rw [hd]
    rfl

/-- A JSON value; an object is its field list in enumeration order. -/
inductive Json where
  | null
  | bool (b : Bool)
  | num (n : JsNumber)
  | str (s : String)
  | arr (xs : List Json)
  | obj (fields : List (String × Json))

namespace Json

/-- The value of a field, `undefined` when the value has no such field. -/
def field? (name : String) : Json → Option Json
  | .obj fields => (fields.find? (fun f => f.1 = name)).map Prod.snd
  | _ => none

def str? : Json → Option String
  | .str s => some s
  | _ => none

def arr? : Json → Option (List Json)
  | .arr xs => some xs
  | _ => none

def isObj : Json → Bool
  | .obj _ => true
  | _ => false

/-- A field read through `?? null`: an absent field and a `null` are one. -/
def fieldOrNull (name : String) (v : Json) : Option Json :=
  match v.field? name with
  | some .null => none
  | other => other

end Json

mutual
def Json.decEq : (u v : Json) → Decidable (u = v)
  | .null, .null => isTrue rfl
  | .bool a, .bool b => decidable_of_iff (a = b) (by simp)
  | .num a, .num b => decidable_of_iff (a = b) (by simp)
  | .str a, .str b => decidable_of_iff (a = b) (by simp)
  | .arr xs, .arr ys =>
    match Json.decEqList xs ys with
    | isTrue h => isTrue (by rw [h])
    | isFalse h => isFalse (by intro e; exact h (by injection e))
  | .obj xs, .obj ys =>
    match Json.decEqFields xs ys with
    | isTrue h => isTrue (by rw [h])
    | isFalse h => isFalse (by intro e; exact h (by injection e))
  | .null, .bool _ | .null, .num _ | .null, .str _ | .null, .arr _ | .null, .obj _
  | .bool _, .null | .bool _, .num _ | .bool _, .str _ | .bool _, .arr _ | .bool _, .obj _
  | .num _, .null | .num _, .bool _ | .num _, .str _ | .num _, .arr _ | .num _, .obj _
  | .str _, .null | .str _, .bool _ | .str _, .num _ | .str _, .arr _ | .str _, .obj _
  | .arr _, .null | .arr _, .bool _ | .arr _, .num _ | .arr _, .str _ | .arr _, .obj _
  | .obj _, .null | .obj _, .bool _ | .obj _, .num _ | .obj _, .str _ | .obj _, .arr _ =>
    isFalse (by intro e; cases e)

def Json.decEqList : (xs ys : List Json) → Decidable (xs = ys)
  | [], [] => isTrue rfl
  | [], _ :: _ | _ :: _, [] => isFalse (by intro e; cases e)
  | x :: xs, y :: ys =>
    match Json.decEq x y, Json.decEqList xs ys with
    | isTrue h, isTrue h' => isTrue (by rw [h, h'])
    | isFalse h, _ => isFalse (by intro e; injection e with e₁ e₂; exact h e₁)
    | _, isFalse h => isFalse (by intro e; injection e with e₁ e₂; exact h e₂)

def Json.decEqFields : (xs ys : List (String × Json)) → Decidable (xs = ys)
  | [], [] => isTrue rfl
  | [], _ :: _ | _ :: _, [] => isFalse (by intro e; cases e)
  | (k, x) :: xs, (l, y) :: ys =>
    match instDecidableEqString k l, Json.decEq x y, Json.decEqFields xs ys with
    | isTrue h, isTrue h', isTrue h'' => isTrue (by rw [h, h', h''])
    | isFalse h, _, _ =>
      isFalse (by intro e; injection e with e₁ e₂; exact h (congrArg Prod.fst e₁))
    | _, isFalse h, _ =>
      isFalse (by intro e; injection e with e₁ e₂; exact h (congrArg Prod.snd e₁))
    | _, _, isFalse h => isFalse (by intro e; injection e with e₁ e₂; exact h e₂)
end

instance : DecidableEq Json := Json.decEq

/-! ## `JSON.stringify` -/

/-- One hexadecimal digit, lower case. -/
def hexDigit (n : Nat) : Char :=
  if n < 10 then Char.ofNat ('0'.toNat + n) else Char.ofNat ('a'.toNat + (n - 10))

/-- The characters one character of a string literal is written with. -/
def escape (c : Char) : List Char :=
  if c = '"' then ['\\', '"']
  else if c = '\\' then ['\\', '\\']
  else if c = '\n' then ['\\', 'n']
  else if c = '\r' then ['\\', 'r']
  else if c = '\t' then ['\\', 't']
  else if c.toNat = 8 then ['\\', 'b']
  else if c.toNat = 12 then ['\\', 'f']
  else if c.toNat < 32 then
    ['\\', 'u', '0', '0', hexDigit (c.toNat / 16), hexDigit (c.toNat % 16)]
  else [c]

/-- A string literal. -/
def quoted (s : String) : List Char :=
  '"' :: (s.toList.flatMap escape ++ ['"'])

mutual
/-- `JSON.stringify`. -/
def print : Json → List Char
  | .null => ['n', 'u', 'l', 'l']
  | .bool true => ['t', 'r', 'u', 'e']
  | .bool false => ['f', 'a', 'l', 's', 'e']
  | .num n => n.text
  | .str s => quoted s
  | .arr [] => ['[', ']']
  | .arr (x :: xs) => '[' :: (print x ++ printItems xs)
  | .obj [] => ['{', '}']
  | .obj ((k, x) :: fs) =>
    '{' :: (quoted k ++ ':' :: (print x ++ printFields fs))

/-- The items after the first one, and the closing bracket. -/
def printItems : List Json → List Char
  | [] => [']']
  | x :: xs => ',' :: (print x ++ printItems xs)

/-- The fields after the first one, and the closing brace. -/
def printFields : List (String × Json) → List Char
  | [] => ['}']
  | (k, x) :: fs => ',' :: (quoted k ++ ':' :: (print x ++ printFields fs))
end

/-! ## `JSON.parse` -/

def blank (c : Char) : Bool := c = ' ' || c = '\t' || c = '\n' || c = '\r'

def skip (cs : List Char) : List Char := cs.dropWhile blank

def hexDigit? (c : Char) : Option Nat :=
  if c.isDigit then some (c.toNat - 48)
  else if 97 ≤ c.toNat ∧ c.toNat ≤ 102 then some (c.toNat - 87)
  else if 65 ≤ c.toNat ∧ c.toNat ≤ 70 then some (c.toNat - 55)
  else none

/-- Four hexadecimal digits. -/
def codeUnit : List Char → Option (Nat × List Char)
  | a :: b :: c :: d :: r =>
    (hexDigit? a).bind (fun a => (hexDigit? b).bind (fun b => (hexDigit? c).bind (fun c =>
      (hexDigit? d).map (fun d => (((a * 16 + b) * 16 + c) * 16 + d, r)))))
  | _ => none

/-- A code unit, or the two of a character beyond the first plane.  A surrogate by
    itself is no text here. -/
def readUnicode (cs : List Char) : Option (Char × List Char) :=
  (codeUnit cs).bind (fun u =>
    if 0xD800 ≤ u.1 ∧ u.1 < 0xDC00 then
      if ['\\', 'u'].isPrefixOf u.2 then
        (codeUnit (u.2.drop 2)).bind (fun l =>
          if 0xDC00 ≤ l.1 ∧ l.1 < 0xE000 then
            some (Char.ofNat (0x10000 + (u.1 - 0xD800) * 0x400 + (l.1 - 0xDC00)), l.2)
          else none)
      else none
    else if 0xDC00 ≤ u.1 ∧ u.1 < 0xE000 then none
    else some (Char.ofNat u.1, u.2))

/-- What follows a backslash. -/
def readEscape : List Char → Option (Char × List Char)
  | [] => none
  | c :: r =>
    if c = '"' ∨ c = '\\' ∨ c = '/' then some (c, r)
    else if c = 'n' then some ('\n', r)
    else if c = 'r' then some ('\r', r)
    else if c = 't' then some ('\t', r)
    else if c = 'b' then some (Char.ofNat 8, r)
    else if c = 'f' then some (Char.ofNat 12, r)
    else if c = 'u' then readUnicode r
    else none

/-- One character of a string literal. -/
def readChar : List Char → Option (Char × List Char)
  | [] => none
  | c :: r =>
    if c = '\\' then readEscape r
    else if c = '"' ∨ c.toNat < 32 then none
    else some (c, r)

/-- The characters up to the closing quote. -/
def readChars : Nat → List Char → Option (List Char × List Char)
  | 0, _ => none
  | n + 1, cs =>
    if cs.head? = some '"' then some ([], cs.tail)
    else (readChar cs).bind (fun c => (readChars n c.2).map (fun s => (c.1 :: s.1, s.2)))

def readWord (word : List Char) (v : Json) (cs : List Char) : Option (Json × List Char) :=
  if word.isPrefixOf cs then some (v, cs.drop word.length) else none

section Read

variable (number : List Char → Option JsNumber)
  (own : List (String × Json) → List (String × Json))

/-- A numeral: all that is numeric, which `number` has to know. -/
def readNumber (cs : List Char) : Option (Json × List Char) :=
  let mine := fun c => numeric c || c = 'E'
  (number (cs.takeWhile mine)).map (fun n => (.num n, cs.dropWhile mine))

mutual
/-- A value and what is behind it, with so many turns; `own` is what an object makes of
    the fields assigned to it. -/
def readValue : Nat → List Char → Option (Json × List Char)
  | 0, _ => none
  | n + 1, cs =>
    let cs := skip cs
    if cs.head? = some '"' then (readChars n cs.tail).map (fun s => (.str (String.ofList s.1), s.2))
    else if cs.head? = some '[' then
      let r := skip cs.tail
      if r.head? = some ']' then some (.arr [], r.tail)
      else (readValue n r).bind (fun x =>
        (readItems n x.2).map (fun xs => (.arr (x.1 :: xs.1), xs.2)))
    else if cs.head? = some '\x7b' then
      let r := skip cs.tail
      if r.head? = some '\x7d' then some (.obj (own []), r.tail)
      else (readField n r).bind (fun f =>
        (readFields n f.2).map (fun fs => (.obj (own (f.1 :: fs.1)), fs.2)))
    else if cs.head? = some 'n' then readWord ['n', 'u', 'l', 'l'] .null cs
    else if cs.head? = some 't' then readWord ['t', 'r', 'u', 'e'] (.bool true) cs
    else if cs.head? = some 'f' then readWord ['f', 'a', 'l', 's', 'e'] (.bool false) cs
    else readNumber number cs

/-- The items after the first one. -/
def readItems : Nat → List Char → Option (List Json × List Char)
  | 0, _ => none
  | n + 1, cs =>
    let cs := skip cs
    if cs.head? = some ']' then some ([], cs.tail)
    else if cs.head? = some ',' then
      (readValue n cs.tail).bind (fun x =>
        (readItems n x.2).map (fun xs => (x.1 :: xs.1, xs.2)))
    else none

def readField : Nat → List Char → Option ((String × Json) × List Char)
  | 0, _ => none
  | n + 1, cs =>
    let cs := skip cs
    if cs.head? = some '"' then
      (readChars n cs.tail).bind (fun k =>
        let r := skip k.2
        if r.head? = some ':' then
          (readValue n r.tail).map (fun x => ((String.ofList k.1, x.1), x.2))
        else none)
    else none

/-- The fields after the first one. -/
def readFields : Nat → List Char → Option (List (String × Json) × List Char)
  | 0, _ => none
  | n + 1, cs =>
    let cs := skip cs
    if cs.head? = some '\x7d' then some ([], cs.tail)
    else if cs.head? = some ',' then
      (readField n cs.tail).bind (fun f =>
        (readFields n f.2).map (fun fs => (f.1 :: fs.1, fs.2)))
    else none
end

/-- The value of a text, with nothing behind it. -/
def parseWith (cs : List Char) : Option Json :=
  (readValue number own (cs.length + 1) cs).bind (fun v => if skip v.2 = [] then some v.1 else none)

end Read

/-! ## Reading back what was printed -/

private theorem hexDigit?_hexDigit : ∀ n < 16, hexDigit? (hexDigit n) = some n := by
  decide

private theorem codeUnit_hexDigit {n : Nat} (hn : n < 256) (r : List Char) :
    codeUnit ('0' :: '0' :: hexDigit (n / 16) :: hexDigit (n % 16) :: r) = some (n, r) := by
  rw [codeUnit, hexDigit?_hexDigit _ (by omega), hexDigit?_hexDigit _ (by omega)]
  show some (((0 * 16 + 0) * 16 + n / 16) * 16 + n % 16, r) = some (n, r)
  congr 2
  omega

/-- Reading back what was written gives the character and leaves the rest. -/
theorem readChar_escape (c : Char) (r : List Char) : readChar (escape c ++ r) = some (c, r) := by
  rw [escape]
  by_cases hq : c = '"'
  · subst hq; rfl
  rw [if_neg hq]
  by_cases hb : c = '\\'
  · subst hb; rfl
  rw [if_neg hb]
  by_cases hn : c = '\n'
  · subst hn; rfl
  rw [if_neg hn]
  by_cases hr : c = '\r'
  · subst hr; rfl
  rw [if_neg hr]
  by_cases ht : c = '\t'
  · subst ht; rfl
  rw [if_neg ht]
  have hchar : Char.ofNat c.toNat = c := Char.ofNat_toNat c
  by_cases h8 : c.toNat = 8
  · rw [if_pos h8]
    show some (Char.ofNat 8, r) = some (c, r)
    rw [← h8, hchar]
  rw [if_neg h8]
  by_cases h12 : c.toNat = 12
  · rw [if_pos h12]
    show some (Char.ofNat 12, r) = some (c, r)
    rw [← h12, hchar]
  rw [if_neg h12]
  by_cases h32 : c.toNat < 32
  · rw [if_pos h32]
    show readUnicode ('0' :: '0' :: hexDigit (c.toNat / 16) :: hexDigit (c.toNat % 16) :: r) = _
    rw [readUnicode, codeUnit_hexDigit (by omega), Option.bind_some, if_neg (by omega),
      if_neg (by omega), hchar]
  · rw [if_neg h32, List.singleton_append, readChar, if_neg hb, if_neg]
    exact fun h => h.elim hq h32

theorem escape_head_ne_quote (c : Char) (r : List Char) : (escape c ++ r).head? ≠ some '"' := by
  intro h
  obtain ⟨rest, hrest⟩ := List.head?_eq_some_iff.mp h
  have hread := readChar_escape c r
  rw [hrest] at hread
  cases hread

theorem readChars_escape (xs : List Char) : ∀ (n : Nat) (r : List Char),
    (xs.flatMap escape).length < n →
      readChars n (xs.flatMap escape ++ '"' :: r) = some (xs, r) := by
  induction xs with
  | nil =>
    intro n r hn
    obtain ⟨n, rfl⟩ := Nat.exists_eq_succ_of_ne_zero (Nat.ne_of_gt hn)
    rfl
  | cons c xs ih =>
    intro n r hn
    obtain ⟨n, rfl⟩ := Nat.exists_eq_succ_of_ne_zero (Nat.ne_of_gt (Nat.zero_lt_of_lt hn))
    have hpos : 0 < (escape c).length := by
      rw [List.length_pos_iff]
      intro hnil
      have hread := readChar_escape c []
      rw [hnil] at hread
      cases hread
    rw [List.flatMap_cons, List.length_append] at hn
    rw [List.flatMap_cons, List.append_assoc, readChars, if_neg (escape_head_ne_quote c _),
      readChar_escape, Option.bind_some, ih n r (by omega)]
    rfl

/-- A text that cannot continue a number. -/
def Stop (r : List Char) : Prop := ∀ c ∈ r.head?, (numeric c || c = 'E') = false

theorem stop_nil : Stop [] := fun c hc => by cases hc

variable {c : Char}

theorem stop_cons (hc : (numeric c || c = 'E') = false) (r : List Char) : Stop (c :: r) := by
  intro d hd
  rw [← Option.some.inj hd]
  exact hc

theorem stop_printItems (xs : List Json) (r : List Char) : Stop (printItems xs ++ r) := by
  cases xs with
  | nil => exact stop_cons (by decide) _
  | cons x xs => rw [printItems]; exact stop_cons (by decide) _

theorem stop_printFields (fs : List (String × Json)) (r : List Char) :
    Stop (printFields fs ++ r) := by
  cases fs with
  | nil => exact stop_cons (by decide) _
  | cons f fs =>
    obtain ⟨k, x⟩ := f
    rw [printFields]
    exact stop_cons (by decide) _

theorem skip_cons (hc : blank c = false) (r : List Char) : skip (c :: r) = c :: r :=
  List.dropWhile_cons_of_neg (by rw [hc]; exact Bool.false_ne_true)

variable {d : Char}

theorem head_ne (h : c ≠ d) (r : List Char) : (c :: r).head? ≠ some d :=
  fun heq => h (Option.some.inj heq)

theorem numeric_ne (hc : numeric c = true) (hd : numeric d = false) : c ≠ d := by
  rintro rfl
  rw [hc] at hd
  cases hd

/-- What is printed opens with neither a blank nor a closing bracket. -/
theorem print_head (u : Json) : ∃ c rest, print u = c :: rest ∧ blank c = false ∧ c ≠ ']' := by
  cases u with
  | null => exact ⟨'n', _, rfl, by decide, by decide⟩
  | bool b =>
    cases b with
    | true => exact ⟨'t', _, rfl, by decide, by decide⟩
    | false => exact ⟨'f', _, rfl, by decide, by decide⟩
  | num n =>
    obtain ⟨c, rest, htext, hc⟩ := n.head
    refine ⟨c, rest, by rw [print, htext], ?_, numeric_ne hc (by decide)⟩
    rw [blank, decide_eq_false (numeric_ne hc (by decide)), decide_eq_false (numeric_ne hc (by decide)),
      decide_eq_false (numeric_ne hc (by decide)), decide_eq_false (numeric_ne hc (by decide))]
    rfl
  | str s => exact ⟨'"', _, rfl, by decide, by decide⟩
  | arr xs =>
    cases xs with
    | nil => exact ⟨'[', _, rfl, by decide, by decide⟩
    | cons x xs => exact ⟨'[', _, by rw [print], by decide, by decide⟩
  | obj fs =>
    cases fs with
    | nil => exact ⟨'\x7b', _, rfl, by decide, by decide⟩
    | cons f fs =>
      obtain ⟨k, x⟩ := f
      exact ⟨'\x7b', _, by rw [print], by decide, by decide⟩

section Read

variable {number : List Char → Option JsNumber}
  {own : List (String × Json) → List (String × Json)}

/-- Numbers that `number` knows, and objects whose fields stand as `own` puts them. -/
inductive Readable (number : List Char → Option JsNumber)
    (own : List (String × Json) → List (String × Json)) : Json → Prop
  | null : Readable number own .null
  | bool (b : Bool) : Readable number own (.bool b)
  | num {n : JsNumber} : number n.text = some n → Readable number own (.num n)
  | str (s : String) : Readable number own (.str s)
  | arr {xs : List Json} : (∀ x ∈ xs, Readable number own x) → Readable number own (.arr xs)
  | obj {fs : List (String × Json)} : own fs = fs → (∀ f ∈ fs, Readable number own f.2) →
      Readable number own (.obj fs)

theorem readNumber_text {n : JsNumber} (h : number n.text = some n) {r : List Char} (hr : Stop r) :
    readNumber number (n.text ++ r) = some (.num n, r) := by
  have hall : ∀ c ∈ n.text, (numeric c || c = 'E') = true := fun c hc => by
    rw [List.all_eq_true.mp n.chars c hc]
    rfl
  have hstop : r.takeWhile (fun c => numeric c || c = 'E') = [] ∧
      r.dropWhile (fun c => numeric c || c = 'E') = r := by
    cases r with
    | nil => exact ⟨rfl, rfl⟩
    | cons c r =>
      have hc : ¬ (numeric c || c = 'E') = true := by
        rw [hr c rfl]
        exact Bool.false_ne_true
      exact ⟨List.takeWhile_cons_of_neg hc, List.dropWhile_cons_of_neg hc⟩
  simp only [readNumber]
  rw [List.takeWhile_append_of_pos hall, List.dropWhile_append_of_pos hall, hstop.1, hstop.2,
    List.append_nil, h]
  rfl

theorem readString_quoted (s : String) {n : Nat} {r : List Char} (hn : (quoted s).length ≤ n + 1) :
    readChars n (s.toList.flatMap escape ++ ['"'] ++ r) = some (s.toList, r) := by
  rw [quoted, List.length_cons, List.length_append, List.length_singleton] at hn
  rw [List.append_assoc]
  exact readChars_escape s.toList n r (by omega)

theorem read_field {k : String} {x : Json} {n : Nat} {r : List Char}
    (hn : (quoted k).length ≤ n + 1) (hx : readValue number own n (print x ++ r) = some (x, r)) :
    readField number own (n + 1) (quoted k ++ ':' :: (print x ++ r)) = some ((k, x), r) := by
  have hskip : skip (quoted k ++ ':' :: (print x ++ r)) = quoted k ++ ':' :: (print x ++ r) :=
    skip_cons (by decide) _
  have hkey : readChars n (quoted k ++ ':' :: (print x ++ r)).tail =
      some (k.toList, ':' :: (print x ++ r)) := readString_quoted k hn
  simp only [readField, hskip]
  rw [if_pos (show (quoted k ++ ':' :: (print x ++ r)).head? = some '"' from rfl), hkey,
    Option.bind_some]
  simp only [skip_cons (by decide : blank ':' = false), List.head?_cons, if_true, List.tail_cons]
  rw [hx, Option.map_some, String.ofList_toList]

mutual
/-- **A value is read back from what it is printed as**, and the rest is left. -/
theorem read_print (v : Json) (h : Readable number own v) {n : Nat} {r : List Char}
    (hn : (print v).length ≤ n) (hr : Stop r) : readValue number own n (print v ++ r) = some (v, r) := by
  obtain ⟨c, rest, hhead, hblank, _⟩ := print_head v
  have hskip : skip (print v ++ r) = print v ++ r := by
    rw [hhead]
    exact skip_cons hblank _
  have hpos : (print v).length ≠ 0 := by
    rw [hhead]
    exact Nat.succ_ne_zero _
  obtain ⟨n, rfl⟩ : ∃ m, n = m + 1 := ⟨n - 1, by omega⟩
  simp only [readValue, hskip]
  match v, h with
  | .null, _ => rfl
  | .bool true, _ => rfl
  | .bool false, _ => rfl
  | .num m, .num hm =>
    obtain ⟨d, tail, htext, hd⟩ := m.head
    have hne : ∀ e, numeric e = false → (print (.num m) ++ r).head? ≠ some e := by
      intro e he heq
      rw [print, htext] at heq
      exact numeric_ne hd he (Option.some.inj heq)
    rw [if_neg (hne _ (by decide)), if_neg (hne _ (by decide)), if_neg (hne _ (by decide)),
      if_neg (hne _ (by decide)), if_neg (hne _ (by decide)), if_neg (hne _ (by decide))]
    exact readNumber_text hm hr
  | .str s, _ =>
    show (readChars n (s.toList.flatMap escape ++ ['"'] ++ r)).map _ = _
    rw [readString_quoted s hn, Option.map_some, String.ofList_toList]
  | .arr [], _ => rfl
  | .arr (x :: xs), .arr hall =>
    obtain ⟨hx, hxs⟩ := List.forall_mem_cons.mp hall
    rw [print, List.length_cons, List.length_append] at hn
    obtain ⟨d, tail, hd, hdblank, hdclose⟩ := print_head x
    have htail : skip (print x ++ (printItems xs ++ r)) = print x ++ (printItems xs ++ r) := by
      rw [hd]
      exact skip_cons hdblank _
    have hopen : (print x ++ (printItems xs ++ r)).head? ≠ some ']' := by
      rw [hd]
      exact head_ne hdclose _
    rw [print, List.cons_append, List.append_assoc, if_neg (head_ne (by decide) _),
      if_pos List.head?_cons, List.tail_cons, htail, if_neg hopen,
      read_print x hx (by omega) (stop_printItems xs r), Option.bind_some,
      read_printItems xs hxs (by omega)]
    rfl
  | .obj [], .obj hown _ =>
    show some (Json.obj (own []), r) = _
    rw [hown]
  | .obj ((k, x) :: fs), .obj hown hall =>
    obtain ⟨hx, hfs⟩ := List.forall_mem_cons.mp hall
    rw [print, List.length_cons, List.length_append, List.length_cons, List.length_append] at hn
    have hquoted : 0 < (quoted k).length := Nat.succ_pos _
    obtain ⟨n, rfl⟩ : ∃ m, n = m + 1 := ⟨n - 1, by omega⟩
    have htail : skip (quoted k ++ ':' :: (print x ++ (printFields fs ++ r))) =
        quoted k ++ ':' :: (print x ++ (printFields fs ++ r)) := skip_cons (by decide) _
    have hopen : (quoted k ++ ':' :: (print x ++ (printFields fs ++ r))).head? ≠ some '\x7d' :=
      head_ne (by decide) _
    rw [print, List.cons_append, List.append_assoc, List.cons_append, List.append_assoc,
      if_neg (head_ne (by decide) _), if_neg (head_ne (by decide) _), if_pos List.head?_cons,
      List.tail_cons, htail, if_neg hopen,
      read_field (by omega) (read_print x hx (by omega) (stop_printFields fs r)),
      Option.bind_some, read_printFields fs hfs (by omega), Option.map_some, hown]

theorem read_printItems (xs : List Json) (h : ∀ x ∈ xs, Readable number own x) {n : Nat}
    {r : List Char} (hn : (printItems xs).length ≤ n) :
    readItems number own n (printItems xs ++ r) = some (xs, r) := by
  match xs with
  | [] =>
    obtain ⟨n, rfl⟩ := Nat.exists_eq_succ_of_ne_zero (Nat.ne_of_gt hn)
    rfl
  | x :: xs =>
    obtain ⟨hx, hxs⟩ := List.forall_mem_cons.mp h
    rw [printItems, List.length_cons, List.length_append] at hn
    obtain ⟨n, rfl⟩ : ∃ m, n = m + 1 := ⟨n - 1, by omega⟩
    simp only [printItems, List.cons_append, List.append_assoc, readItems,
      skip_cons (by decide : blank ',' = false)]
    rw [if_neg (head_ne (by decide) _), if_pos List.head?_cons, List.tail_cons,
      read_print x hx (by omega) (stop_printItems xs r), Option.bind_some,
      read_printItems xs hxs (by omega)]
    rfl

theorem read_printFields (fs : List (String × Json)) (h : ∀ f ∈ fs, Readable number own f.2)
    {n : Nat} {r : List Char} (hn : (printFields fs).length ≤ n) :
    readFields number own n (printFields fs ++ r) = some (fs, r) := by
  match fs with
  | [] =>
    obtain ⟨n, rfl⟩ := Nat.exists_eq_succ_of_ne_zero (Nat.ne_of_gt hn)
    rfl
  | (k, x) :: fs =>
    obtain ⟨hx, hfs⟩ := List.forall_mem_cons.mp h
    rw [printFields, List.length_cons, List.length_append, List.length_cons,
      List.length_append] at hn
    have hquoted : 0 < (quoted k).length := Nat.succ_pos _
    obtain ⟨n, rfl⟩ : ∃ m, n = m + 1 := ⟨n - 1, by omega⟩
    simp only [printFields, List.cons_append, List.append_assoc, readFields,
      skip_cons (by decide : blank ',' = false)]
    obtain ⟨n, rfl⟩ : ∃ m, n = m + 1 := ⟨n - 1, by omega⟩
    rw [if_neg (head_ne (by decide) _), if_pos List.head?_cons, List.tail_cons,
      read_field (by omega) (read_print x hx (by omega) (stop_printFields fs r)),
      Option.bind_some, read_printFields fs hfs (by omega)]
    rfl
end

theorem parseWith_print {v : Json} (h : Readable number own v) :
    parseWith number own (print v) = some v := by
  have hread : readValue number own ((print v).length + 1) (print v ++ []) = some (v, []) :=
    read_print v h (Nat.le_succ _) stop_nil
  rw [List.append_nil] at hread
  rw [parseWith, hread]
  rfl

end Read

/-- A numeral as it stands. -/
def anyNumeral (text : List Char) : Option JsNumber :=
  if h : text ≠ [] ∧ text.all numeric = true then some ⟨text, h.1, h.2⟩ else none

mutual
theorem readable_any : (v : Json) → Readable anyNumeral id v
  | .null => .null
  | .bool b => .bool b
  | .num n => .num (dif_pos ⟨n.nonempty, n.chars⟩)
  | .str s => .str s
  | .arr xs => .arr (readable_items xs)
  | .obj fs => .obj rfl (readable_fields fs)

theorem readable_items : (xs : List Json) → ∀ x ∈ xs, Readable anyNumeral id x
  | [] => fun _ h => by cases h
  | x :: xs => List.forall_mem_cons.mpr ⟨readable_any x, readable_items xs⟩

theorem readable_fields : (fs : List (String × Json)) → ∀ f ∈ fs, Readable anyNumeral id f.2
  | [] => fun _ h => by cases h
  | (_, x) :: fs => List.forall_mem_cons.mpr ⟨readable_any x, readable_fields fs⟩
end

/-- **`JSON.stringify` loses nothing**: what is printed can be read back. -/
theorem print_injective {u v : Json} (h : print u = print v) : u = v := by
  have hu := parseWith_print (readable_any u)
  rw [h, parseWith_print (readable_any v)] at hu
  exact (Option.some.inj hu).symm

/-! ## Field order -/

section SortFields

variable (rank : String → List Nat)

/-- Fields compared by the rank of their names. -/
def fieldLe (f g : String × Json) : Prop := rank f.1 ≤ rank g.1

instance : DecidableRel (fieldLe rank) :=
  fun f g => inferInstanceAs (Decidable (rank f.1 ≤ rank g.1))

instance : Std.Total (fieldLe rank) := ⟨fun f g => le_total (rank f.1) (rank g.1)⟩

instance : IsTrans (String × Json) (fieldLe rank) :=
  ⟨fun _ _ _ h h' => le_trans (a := rank _) h h'⟩

mutual
/-- Sort the fields of every object, at every depth, by rank of their names. -/
def sortFields : Json → Json
  | .arr xs => .arr (sortFieldsItems xs)
  | .obj fs => .obj ((sortFieldsFields fs).insertionSort (fieldLe rank))
  | v => v

def sortFieldsItems : List Json → List Json
  | [] => []
  | x :: xs => sortFields x :: sortFieldsItems xs

def sortFieldsFields : List (String × Json) → List (String × Json)
  | [] => []
  | (k, x) :: fs => (k, sortFields x) :: sortFieldsFields fs
end

theorem sortFields_arr (xs : List Json) :
    sortFields rank (.arr xs) = .arr (xs.map (sortFields rank)) := by
  rw [sortFields]
  congr 1
  induction xs with
  | nil => rfl
  | cons x xs ih => rw [sortFieldsItems, ih, List.map_cons]

theorem sortFields_obj (fs : List (String × Json)) : sortFields rank (.obj fs) =
    .obj ((fs.map fun f => (f.1, sortFields rank f.2)).insertionSort (fieldLe rank)) := by
  rw [sortFields]
  congr 2
  induction fs with
  | nil => rfl
  | cons f fs ih => rw [sortFieldsFields, ih, List.map_cons]

end SortFields

/-- The order of `Object.keys(o).sort()`. -/
def sortRank (name : String) : List Nat := name.toList.map Char.toNat

/-- A name that enumerates as an array index, before every other name. -/
def isIndexName (name : String) : Bool :=
  name.toList.all Char.isDigit && name.toList != [] &&
    (name.toList.head? != some '0' || name.toList.length == 1) &&
    decide (name.toList.length < 10)

/-- The order a `jsonb` column enumerates in once parsed again: indices first,
    then shorter names before longer ones, then byte order. -/
def storedRank (name : String) : List Nat :=
  (if isIndexName name then 0 else 1) ::
    name.toList.foldl (fun n c => n + c.utf8Size) 0 :: name.toList.map Char.toNat

/-- Field order removed: names sorted in every object. -/
def canonical (v : Json) : Json := sortFields sortRank v

/-- The value a `jsonb` column hands back. -/
def stored (v : Json) : Json := sortFields storedRank v

/-- The order-independent serialisation, `null` for an absent value. -/
def canonicalize : Option Json → List Char
  | none => ['n', 'u', 'l', 'l']
  | some v => print (canonical v)

/-- A nullable value up to field order. -/
def canonicalValue (v : Option Json) : Json := canonical (v.getD .null)

end JsonValue
