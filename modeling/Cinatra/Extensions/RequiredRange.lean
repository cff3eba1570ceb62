import Mathlib.Algebra.Order.Ring.Nat
import Mathlib.Data.List.DropRight
import Cinatra.Lib.CodeUnits
import Cinatra.Lib.Split
import Cinatra.Workflows.Host

/-! # RequiredRange — version ranges of required extensions

    A range is matched by one regular expression and turned into bounds.  Where its
    numbers are safe integers the bounds are npm's, but for one kind: a number behind a
    wildcard is matched too, and counts (`follows_iff`). -/

namespace ReqRange

open CodeUnits (jsSpace trim trim_eq_self)
open WfHost (number)

abbrev Triple := Nat × Nat × Nat

def maxSafeInteger : Nat := 9007199254740991

/-- `Number` of a run of digits: the nearest double, the even one of two.  `2 ^ 1024` is
    Infinity. -/
def nearest (n : Nat) : Nat :=
  if n ≤ maxSafeInteger then n
  else
    let ulp := 2 ^ (n.log2 - 52)
    let q := n / ulp
    let r := n % ulp
    min (2 ^ 1024) ((if ulp < 2 * r ∨ 2 * r = ulp ∧ q % 2 = 1 then q + 1 else q) * ulp)

/-- `\d+`. -/
def digits (t : List Char) : Bool := t ≠ [] && t.all Char.isDigit

def wilds : List (List Char) := [['x'], ['X'], ['*']]

def parseTriple (v : List Char) : Option Triple :=
  match Split.split '.' (trim v) with
  | [a, b, c] =>
    if digits a ∧ digits b ∧ digits c then
      some (nearest (number a), nearest (number b), nearest (number c))
    else none
  | _ => none

def cmp (a b : Triple) : Int :=
  if a.1 ≠ b.1 then (if a.1 < b.1 then -1 else 1)
  else if a.2.1 ≠ b.2.1 then (if a.2.1 < b.2.1 then -1 else 1)
  else if a.2.2 ≠ b.2.2 then (if a.2.2 < b.2.2 then -1 else 1)
  else 0

/-- The operators; a bare range is one with `=`. -/
inductive Op
  | exact | caret | tilde | atLeast
deriving DecidableEq

/-- `(\^|~|>=|=)?`. -/
def stripOp : List Char → Op × List Char
  | '^' :: cs => (.caret, cs)
  | '~' :: cs => (.tilde, cs)
  | '>' :: '=' :: cs => (.atLeast, cs)
  | '=' :: cs => (.exact, cs)
  | cs => (.exact, cs)

/-- `(\d+)(?:\.(\d+|x|X|\*))?(?:\.(\d+|x|X|\*))?`, between the dots. -/
def components : List (List Char) → Bool
  | major :: rest => digits major && rest.all (fun t => digits t || t ∈ wilds) && rest.length ≤ 2
  | [] => false

/-- The match of a range. -/
def matchRange (range : List Char) : Option (Op × List (List Char)) :=
  let body := (stripOp range).2.dropWhile jsSpace
  if components (Split.split '.' body) then some ((stripOp range).1, Split.split '.' body) else none

/-- A component that is there and no wildcard. -/
def value (t : Option (List Char)) : Option Nat :=
  t.bind (fun t => if t ∈ wilds then none else some (nearest (number t)))

/-- From the lower bound on, and below the upper one. -/
def boundsFor (op : Op) (maj : Nat) (min pat : Option Nat) : Triple × Option Triple :=
  let lower := (maj, min.getD 0, pat.getD 0)
  match op with
  | .atLeast => (lower, none)
  | .caret =>
    if 0 < maj then (lower, some (nearest (maj + 1), 0, 0))
    else if 0 < min.getD 0 then (lower, some (0, nearest (min.getD 0 + 1), 0))
    else match pat with
      | some pat => (lower, some (0, 0, nearest (pat + 1)))
      | none => (lower, some (if min = none then (1, 0, 0) else (0, 1, 0)))
  | .tilde => match min with
      | none => (lower, some (nearest (maj + 1), 0, 0))
      | some min => (lower, some (maj, nearest (min + 1), 0))
  | .exact => match min, pat with
      | none, _ => (lower, some (nearest (maj + 1), 0, 0))
      | some min, none => (lower, some (maj, nearest (min + 1), 0))
      | some min, some pat => (lower, some (maj, min, nearest (pat + 1)))

def requiredRangeBounds (range : List Char) : Option (Triple × Option Triple) :=
  (matchRange (trim range)).map (fun m =>
    boundsFor m.1 ((value m.2[0]?).getD 0) (value m.2[1]?) (value m.2[2]?))

def satisfiesRequiredVersionRange (version range : List Char) : Bool :=
  let r := trim range
  match parseTriple version with
  | none => false
  | some v =>
    if r = ['*'] then true
    else match requiredRangeBounds r with
      | none => false
      | some (lower, upper) =>
        decide (0 ≤ cmp v lower) && upper.all (fun upper => decide (cmp v upper < 0))

/-! ## npm's ranges -/

/-- How an operator is written. -/
def Op.symbols : Op → List (List Char)
  | .exact => [[], ['=']]
  | .caret => [['^']]
  | .tilde => [['~']]
  | .atLeast => [['>', '=']]

/-- A trimmed range of an operator and components with dots between. -/
def Parts (range : List Char) (op : Op) (comps : List (List Char)) : Prop :=
  ∃ sym ws, sym ∈ op.symbols ∧ (∀ c ∈ ws, jsSpace c = true) ∧ components comps = true ∧
    range = sym ++ ws ++ Split.join '.' comps

/-- What a range may mean: every version, or the numbers that are given. -/
inductive Range
  | any
  | of (op : Op) (nums : List Nat)

/-- **The documented grammar**: wildcards stand behind the numbers, if at all. -/
def Denotes (range : List Char) : Range → Prop
  | .any => trim range = ['*']
  | .of op nums => ∃ texts tail, Parts (trim range) op (texts ++ tail) ∧
      (∀ t ∈ texts, digits t = true) ∧ (∀ t ∈ tail, t ∈ wilds) ∧ nums = texts.map number

def pad (nums : List Nat) : Triple := (nums.getD 0 0, nums.getD 1 0, nums.getD 2 0)

/-- Which of the numbers may grow: the last one, the minor one, the first that is not 0. -/
def widened (nums : List Nat) : Op → Option Nat
  | .exact => some (nums.length - 1)
  | .tilde => some (min 1 (nums.length - 1))
  | .caret => some (min (nums.findIdx (· ≠ 0)) (nums.length - 1))
  | .atLeast => none

/-- The numbers up to one, which is a step further. -/
def bump (nums : List Nat) (i : Nat) : Triple := pad (nums.take i ++ [nums.getD i 0 + 1])

def Before (a b : Triple) : Prop :=
  a.1 < b.1 ∨ a.1 = b.1 ∧ (a.2.1 < b.2.1 ∨ a.2.1 = b.2.1 ∧ a.2.2 < b.2.2)

/-- **npm's interval.** -/
def Admits (v : Triple) : Range → Prop
  | .any => True
  | .of op nums => ¬ Before v (pad nums) ∧ ∀ i, widened nums op = some i → Before v (bump nums i)

/-- A concrete version, of numbers of any size. -/
def Version (version : List Char) (v : Triple) : Prop :=
  ∃ a b c, trim version = Split.join '.' [a, b, c] ∧ digits a = true ∧ digits b = true ∧
    digits c = true ∧ v = (number a, number b, number c)

/-- **A range is followed**: what admits a version is in the grammar, and a range of the
    grammar admits what npm admits. -/
def Follows (range : List Char) : Prop :=
  ∀ version v, Version version v →
    (satisfiesRequiredVersionRange version range = true → ∃ r, Denotes range r) ∧
    ∀ r, Denotes range r → (satisfiesRequiredVersionRange version range = true ↔ Admits v r)

/-- Its numbers are safe integers. -/
def Safe (range : List Char) : Prop :=
  ∀ op comps, Parts (trim range) op comps → ∀ t ∈ comps, digits t = true → number t ≤ maxSafeInteger

/-- A number behind a wildcard. -/
def Misplaced (range : List Char) : Prop :=
  ∃ op major wild t, Parts (trim range) op [major, wild, t] ∧ wild ∈ wilds ∧ digits t = true

theorem nearest_of_le {n : Nat} (h : n ≤ maxSafeInteger + 1) : nearest n = n := by
  rcases Nat.lt_or_eq_of_le h with hlt | rfl
  · rw [nearest, if_pos (Nat.le_of_lt_succ hlt)]
  · decide +kernel

theorem lt_nearest {n : Nat} (h : maxSafeInteger < n) : maxSafeInteger < nearest n := by
  have hne : n ≠ 0 := Nat.ne_of_gt (Nat.zero_lt_of_lt h)
  have hlog : 53 ≤ n.log2 := (Nat.le_log2 hne).mpr h
  have hulp : 2 ^ 1 ≤ 2 ^ (n.log2 - 52) := Nat.pow_le_pow_right (by decide) (by omega)
  have hq : 2 ^ 52 ≤ n / 2 ^ (n.log2 - 52) := by
    rw [Nat.le_div_iff_mul_le (by omega), ← Nat.pow_add, show 52 + (n.log2 - 52) = n.log2 by omega]
    exact Nat.log2_self_le hne
  have hprod : ∀ q, 2 ^ 52 ≤ q → maxSafeInteger < q * 2 ^ (n.log2 - 52) := fun q h =>
    Nat.lt_of_lt_of_le (by decide) (Nat.mul_le_mul h hulp)
  rw [nearest, if_neg (Nat.not_le.mpr h)]
  refine lt_min (by decide +kernel) (hprod _ ?_)
  split
  · exact Nat.le_succ_of_le hq
  · exact hq

/-- Bounds that rounding leaves alone. -/
def Exact (t : Triple) : Prop :=
  t.1 ≤ maxSafeInteger + 1 ∧ t.2.1 ≤ maxSafeInteger + 1 ∧ t.2.2 ≤ maxSafeInteger + 1 ∧
    (t.1 = maxSafeInteger + 1 → t.2.1 = 0 ∧ t.2.2 = 0) ∧ (t.2.1 = maxSafeInteger + 1 → t.2.2 = 0)

/-- **Comparing with a bound** is exact, however large the version is. -/
theorem cmp_lt_iff {v t : Triple} (ht : Exact t) :
    cmp (nearest v.1, nearest v.2.1, nearest v.2.2) t < 0 ↔ Before v t := by
  have hnum : ∀ n, n ≤ maxSafeInteger ∧ nearest n = n ∨ maxSafeInteger < n ∧ maxSafeInteger < nearest n := by
    intro n
    rcases Nat.lt_or_ge maxSafeInteger n with h | h
    · exact .inr ⟨h, lt_nearest h⟩
    · exact .inl ⟨h, nearest_of_le (Nat.le_succ_of_le h)⟩
  obtain ⟨x, y, z⟩ := v
  obtain ⟨a, b, c⟩ := t
  obtain ⟨ha, hb, hc, hab, hbc⟩ := ht
  have hx := hnum x
  have hy := hnum y
  have hz := hnum z
  unfold cmp Before
  simp only at *
  split_ifs <;> omega

/-! ## Texts -/

theorem trim_trim (cs : List Char) : trim (trim cs) = trim cs := by
  have hfront : (trim cs).dropWhile jsSpace = trim cs := by
    refine List.dropWhile_eq_self_iff.mpr fun hl => ?_
    obtain ⟨rest, hrest⟩ : trim cs <+: cs.dropWhile jsSpace := by
      have := (List.dropWhile_suffix jsSpace (l := (cs.dropWhile jsSpace).reverse)).reverse
      rwa [List.reverse_reverse] at this
    have hlong : 0 < (cs.dropWhile jsSpace).length := by
      rw [← hrest, List.length_append]
      omega
    have hat := List.dropWhile_eq_self_iff.mp (List.dropWhile_idempotent _ _) hlong
    simp only [← hrest, List.getElem_append_left hl] at hat
    exact hat
  rw [trim, hfront, trim, List.reverse_reverse, List.dropWhile_idempotent]

variable {t : List Char}

theorem digits_iff : digits t = true ↔ t ≠ [] ∧ ∀ c ∈ t, c.isDigit = true := by
  rw [digits, Bool.and_eq_true, decide_eq_true_iff, List.all_eq_true]

variable {c : Char}

theorem digit_ne (h : c.isDigit = true) : c ≠ '.' ∧ c ≠ '^' ∧ c ≠ '~' ∧ c ≠ '>' ∧ c ≠ '=' := by
  refine ⟨?_, ?_, ?_, ?_, ?_⟩ <;> (rintro rfl; exact absurd h (by decide))

theorem digit_space (h : c.isDigit = true) : jsSpace c = false := by
  rw [Char.isDigit, Bool.and_eq_true, decide_eq_true_iff, decide_eq_true_iff] at h
  have hlow : 48 ≤ c.toNat := h.1
  have hhigh : c.toNat ≤ 57 := h.2
  simp [jsSpace]
  omega

theorem not_wild (h : digits t = true) : t ∉ wilds := by
  intro hin
  simp only [wilds, List.mem_cons, List.not_mem_nil, or_false] at hin
  rcases hin with rfl | rfl | rfl <;> exact absurd h (by decide)

variable {comps : List (List Char)}

theorem components_iff : components comps = true ↔
    ∃ major rest, comps = major :: rest ∧ digits major = true ∧
      (∀ t ∈ rest, digits t = true ∨ t ∈ wilds) ∧ rest.length ≤ 2 := by
  cases comps with
  | nil => exact iff_of_false (fun h => by cases h) (by rintro ⟨_, _, h, _⟩; cases h)
  | cons major rest => simp [components, and_assoc]

/-- Components have no dots in them, and the first one opens with a digit. -/
theorem components_join (h : components comps = true) :
    Split.split '.' (Split.join '.' comps) = comps ∧
      ∃ c cs, Split.join '.' comps = c :: cs ∧ c.isDigit = true := by
  obtain ⟨major, rest, rfl, hmajor, hrest, _⟩ := components_iff.mp h
  have hdot : ∀ t, digits t = true → '.' ∉ t := fun t ht hin =>
    (digit_ne ((digits_iff.mp ht).2 _ hin)).1 rfl
  constructor
  · refine Split.split_join (List.cons_ne_nil _ _) (List.forall_mem_cons.mpr ⟨hdot major hmajor, ?_⟩)
    intro t ht
    rcases hrest t ht with ht | ht
    · exact hdot t ht
    · simp only [wilds, List.mem_cons, List.not_mem_nil, or_false] at ht
      rcases ht with rfl | rfl | rfl <;> decide
  · obtain ⟨hne, hall⟩ := digits_iff.mp hmajor
    obtain ⟨c, cs, rfl⟩ := List.exists_cons_of_ne_nil hne
    cases rest with
    | nil => exact ⟨c, cs, rfl, hall c (.head _)⟩
    | cons t ts => exact ⟨c, _, rfl, hall c (.head _)⟩

theorem stripOp_ok (range : List Char) :
    ∃ sym ∈ (stripOp range).1.symbols, range = sym ++ (stripOp range).2 := by
  unfold stripOp
  split
  · exact ⟨_, List.mem_singleton_self _, rfl⟩
  · exact ⟨_, List.mem_singleton_self _, rfl⟩
  · exact ⟨_, List.mem_singleton_self _, rfl⟩
  · exact ⟨_, List.mem_pair.mpr (.inr rfl), rfl⟩
  · exact ⟨_, List.mem_pair.mpr (.inl rfl), rfl⟩

variable {op : Op}

/-- **The match is read off a text in one way.** -/
theorem matchRange_ok {range : List Char} :
    matchRange range = some (op, comps) ↔ Parts range op comps := by
  constructor
  · intro h
    rw [matchRange] at h
    split at h
    · next hcomps =>
        obtain ⟨rfl, rfl⟩ := Prod.ext_iff.mp (Option.some.inj h)
        obtain ⟨sym, hsym, hrange⟩ := stripOp_ok range
        refine ⟨sym, (stripOp range).2.takeWhile jsSpace, hsym, fun c hc => List.mem_takeWhile_imp hc,
          hcomps, ?_⟩
        rw [Split.join_split, List.append_assoc, List.takeWhile_append_dropWhile, ← hrange]
    · cases h
  · rintro ⟨sym, ws, hsym, hws, hcomps, rfl⟩
    obtain ⟨hsplit, c, cs, hjoin, hc⟩ := components_join hcomps
    have hstrip : stripOp (sym ++ ws ++ Split.join '.' comps) = (op, ws ++ Split.join '.' comps) := by
      cases op with
      | caret | tilde | atLeast => rw [List.mem_singleton.mp hsym]; rfl
      | exact =>
        rcases List.mem_pair.mp hsym with rfl | rfl
        · have hfirst : ∃ d ds, ws ++ Split.join '.' comps = d :: ds ∧
              d ≠ '^' ∧ d ≠ '~' ∧ d ≠ '>' ∧ d ≠ '=' := by
            cases ws with
            | nil => exact ⟨c, cs, hjoin, (digit_ne hc).2⟩
            | cons d ws =>
              have hd := hws d (.head _)
              refine ⟨d, _, rfl, ?_, ?_, ?_, ?_⟩ <;> (rintro rfl; exact absurd hd (by decide))
          obtain ⟨d, ds, hds, hne⟩ := hfirst
          rw [List.nil_append, hds, stripOp]
          all_goals simp_all
        · rfl
    have hbody : (ws ++ Split.join '.' comps).dropWhile jsSpace = Split.join '.' comps := by
      rw [List.dropWhile_append_of_pos hws, hjoin, List.dropWhile_cons_of_neg]
      rw [digit_space hc]
      exact Bool.false_ne_true
    rw [matchRange, hstrip]
    simp only [hbody, hsplit, if_pos hcomps]

theorem value_append {texts tail : List (List Char)} (htexts : ∀ t ∈ texts, digits t = true)
    (htail : ∀ t ∈ tail, t ∈ wilds) (hsafe : ∀ t ∈ texts, number t ≤ maxSafeInteger) (i : Nat) :
    value (texts ++ tail)[i]? = (texts.map number)[i]? := by
  rw [List.getElem?_append, List.getElem?_map]
  split
  · next hi =>
      have hin := List.getElem_mem hi
      rw [List.getElem?_eq_getElem hi, value, Option.bind_some, if_neg (not_wild (htexts _ hin)),
        nearest_of_le (Nat.le_succ_of_le (hsafe _ hin))]
      rfl
  · next hi =>
      rw [List.getElem?_eq_none (Nat.le_of_not_lt hi), Option.map_none]
      cases hat : tail[i - texts.length]? with
      | none => rfl
      | some t => rw [value, Option.bind_some, if_pos (htail t (List.mem_of_getElem? hat))]

variable {nums : List Nat}

/-- **The bounds are npm's.** -/
theorem boundsFor_eq (op : Op) (hne : nums ≠ []) (hlen : nums.length ≤ 3)
    (hsafe : ∀ n ∈ nums, n ≤ maxSafeInteger) : boundsFor op (nums[0]?.getD 0) nums[1]? nums[2]? =
      (pad nums, (widened nums op).map (bump nums)) := by
  have hstep : ∀ n ∈ nums, nearest (n + 1) = n + 1 := fun n hn =>
    nearest_of_le (Nat.succ_le_succ (hsafe n hn))
  obtain _ | ⟨a, _ | ⟨b, _ | ⟨c, _ | ⟨d, rest⟩⟩⟩⟩ := nums
  · exact absurd rfl hne
  · have ha := hstep a (by simp)
    cases op <;> by_cases ha0 : a = 0 <;>
      simp_all [boundsFor, widened, bump, pad, Nat.pos_iff_ne_zero]
  · have ha := hstep a (by simp)
    have hb := hstep b (by simp)
    cases op <;> by_cases ha0 : a = 0 <;> by_cases hb0 : b = 0 <;>
      simp_all [boundsFor, widened, bump, pad, List.findIdx_cons, Nat.pos_iff_ne_zero]
  · have ha := hstep a (by simp)
    have hb := hstep b (by simp)
    have hc := hstep c (by simp)
    cases op <;> by_cases ha0 : a = 0 <;> by_cases hb0 : b = 0 <;> by_cases hc0 : c = 0 <;>
      simp_all [boundsFor, widened, bump, pad, List.findIdx_cons, Nat.pos_iff_ne_zero]
  · simp only [List.length_cons] at hlen
    omega

theorem exact_pad (hsafe : ∀ n ∈ nums, n ≤ maxSafeInteger) : Exact (pad nums) := by
  have hget : ∀ i, nums.getD i 0 ≤ maxSafeInteger := by
    intro i
    rw [List.getD_eq_getElem?_getD]
    cases hat : nums[i]? with
    | none => exact Nat.zero_le _
    | some n => exact hsafe n (List.mem_of_getElem? hat)
  have h0 := hget 0
  have h1 := hget 1
  have h2 := hget 2
  simp only [Exact, pad]
  omega

theorem exact_bump (hlen : nums.length ≤ 3)
    (hsafe : ∀ n ∈ nums, n ≤ maxSafeInteger) (hne : nums ≠ []) {i : Nat}
    (hi : widened nums op = some i) : Exact (bump nums i) := by
  have hlt : i < nums.length := by
    have := List.length_pos_of_ne_nil hne
    cases op <;> simp only [widened, Option.some.injEq, reduceCtorEq] at hi <;> omega
  obtain _ | ⟨a, _ | ⟨b, _ | ⟨c, _ | ⟨d, rest⟩⟩⟩⟩ := nums
  all_goals simp only [List.forall_mem_cons, List.length_cons, List.length_nil] at hsafe hlt hlen
  all_goals rcases i with _ | _ | _ | i <;> simp [bump, pad, Exact] <;> omega

/-! ## Ranges -/

variable {version range : List Char} {v : Triple} {op : Op} {comps : List (List Char)}

theorem parseTriple_version (h : Version version v) :
    parseTriple version = some (nearest v.1, nearest v.2.1, nearest v.2.2) := by
  obtain ⟨a, b, c, hversion, ha, hb, hc, rfl⟩ := h
  have hcomps : components [a, b, c] = true :=
    components_iff.mpr ⟨a, [b, c], rfl, ha, by simp [hb, hc], Nat.le_refl 2⟩
  rw [parseTriple, hversion, (components_join hcomps).1]
  exact if_pos ⟨ha, hb, hc⟩

theorem Parts.ne_star (h : Parts (trim range) op comps) : trim range ≠ ['*'] := by
  intro hstar
  have hmatch := matchRange_ok.mpr h
  rw [hstar] at hmatch
  exact absurd hmatch (by rw [show matchRange ['*'] = none by decide]; exact Option.some_ne_none _ ∘ Eq.symm)

theorem satisfies_parts (hversion : Version version v) (h : Parts (trim range) op comps) :
    satisfiesRequiredVersionRange version range = true ↔
      let v' := (nearest v.1, nearest v.2.1, nearest v.2.2)
      let bounds := boundsFor op ((value comps[0]?).getD 0) (value comps[1]?) (value comps[2]?)
      ¬ cmp v' bounds.1 < 0 ∧ ∀ upper, bounds.2 = some upper → cmp v' upper < 0 := by
  have hbounds : requiredRangeBounds (trim range) =
      some (boundsFor op ((value comps[0]?).getD 0) (value comps[1]?) (value comps[2]?)) := by
    rw [requiredRangeBounds, trim_trim, matchRange_ok.mpr h]
    rfl
  rw [satisfiesRequiredVersionRange, parseTriple_version hversion]
  simp only [if_neg h.ne_star, hbounds]
  rw [Bool.and_eq_true, decide_eq_true_iff, Option.all_eq_true]
  simp only [decide_eq_true_iff, Int.not_lt]

theorem parts_of_satisfies (h : satisfiesRequiredVersionRange version range = true)
    (hstar : trim range ≠ ['*']) : ∃ op comps, Parts (trim range) op comps := by
  rw [satisfiesRequiredVersionRange] at h
  cases hmatch : matchRange (trim range) with
  | some m => exact ⟨m.1, m.2, matchRange_ok.mp hmatch⟩
  | none =>
    have hbounds : requiredRangeBounds (trim range) = none := by
      rw [requiredRangeBounds, trim_trim, hmatch]
      rfl
    simp only [if_neg hstar, hbounds] at h
    split at h <;> cases h

/-- **A range of the grammar admits what npm admits.** -/
theorem satisfies_iff_admits (hversion : Version version v) (hsafe : Safe range) {r : Range}
    (hr : Denotes range r) : satisfiesRequiredVersionRange version range = true ↔ Admits v r := by
  cases r with
  | any =>
    have hstar : trim range = ['*'] := hr
    refine iff_of_true ?_ trivial
    rw [satisfiesRequiredVersionRange, parseTriple_version hversion]
    exact if_pos hstar
  | of op nums =>
    obtain ⟨texts, tail, hparts, htexts, htail, rfl⟩ := hr
    obtain ⟨_, _, _, _, hcomps, _⟩ := id hparts
    obtain ⟨major, rest, hlist, hmajor, _, hshort⟩ := components_iff.mp hcomps
    have hbound : ∀ t ∈ texts, number t ≤ maxSafeInteger := fun t ht =>
      hsafe op _ hparts t (List.mem_append_left _ ht) (htexts t ht)
    have hnums : ∀ n ∈ texts.map number, n ≤ maxSafeInteger := List.forall_mem_map.mpr hbound
    have hne : texts ≠ [] := by
      rintro rfl
      exact not_wild hmajor (htail major ((List.nil_append tail).symm.trans hlist ▸ List.mem_cons_self))
    have hlen : (texts.map number).length ≤ 3 := by
      have := congrArg List.length hlist
      rw [List.length_append, List.length_cons] at this
      rw [List.length_map]
      omega
    have hmap : texts.map number ≠ [] := fun h => hne (List.map_eq_nil_iff.mp h)
    rw [satisfies_parts hversion hparts]
    simp only [value_append htexts htail hbound, boundsFor_eq op hmap hlen hnums]
    rw [Admits, cmp_lt_iff (exact_pad hnums)]
    refine and_congr_right fun _ => ?_
    simp only [Option.map_eq_some_iff]
    constructor
    · exact fun h i hi => (cmp_lt_iff (exact_bump hlen hnums hmap hi)).mp (h _ ⟨i, hi, rfl⟩)
    · rintro h _ ⟨i, hi, rfl⟩
      exact (cmp_lt_iff (exact_bump hlen hnums hmap hi)).mpr (h i hi)

/-- A number behind a wildcard admits the version with 0 for the wildcard. -/
theorem misplaced_satisfied {major wild : List Char} (hsafe : Safe range)
    (h : Parts (trim range) op [major, wild, t]) (hwild : wild ∈ wilds) (ht : digits t = true) :
    Version (Split.join '.' [major, ['0'], t]) (number major, 0, number t) ∧
      satisfiesRequiredVersionRange (Split.join '.' [major, ['0'], t]) range = true := by
  obtain ⟨_, _, _, _, hcomps, _⟩ := id h
  have hmajor : digits major = true := by
    obtain ⟨_, _, hlist, hmajor, _, _⟩ := components_iff.mp hcomps
    exact (List.cons.inj hlist).1 ▸ hmajor
  have hclean : trim (Split.join '.' [major, ['0'], t]) = Split.join '.' [major, ['0'], t] := by
    refine trim_eq_self fun c hc => ?_
    have hc : c ∈ major ∨ c = '.' ∨ c = '0' ∨ c = '.' ∨ c ∈ t := by simpa [Split.join] using hc
    rcases hc with hc | rfl | rfl | rfl | hc
    · exact digit_space ((digits_iff.mp hmajor).2 c hc)
    · decide
    · decide
    · decide
    · exact digit_space ((digits_iff.mp ht).2 c hc)
  have hversion : Version (Split.join '.' [major, ['0'], t]) (number major, 0, number t) :=
    ⟨major, ['0'], t, hclean, hmajor, by decide, ht, rfl⟩
  refine ⟨hversion, (satisfies_parts hversion h).mpr ?_⟩
  have hvalues : value (some wild) = none := if_pos hwild
  have hread : ∀ u ∈ [major, wild, t], digits u = true →
      value (some u) = some (number u) ∧ nearest (number u) = number u ∧
        nearest (number u + 1) = number u + 1 := by
    intro u hu hdigits
    have hle := hsafe op _ h u hu hdigits
    have hu' := nearest_of_le (Nat.le_succ_of_le hle)
    refine ⟨?_, hu', nearest_of_le (Nat.succ_le_succ hle)⟩
    rw [value, Option.bind_some, if_neg (not_wild hdigits), hu']
  obtain ⟨hv, hn, hs⟩ := hread major (by simp) hmajor
  obtain ⟨hv', hn', hs'⟩ := hread t (by simp) ht
  have hzero : nearest 0 = 0 := rfl
  simp only [List.getElem?_cons_zero, List.getElem?_cons_succ, hv, hv', hvalues, hn, hn', hzero]
  cases op <;> by_cases hpos : 0 < number major <;> simp [boundsFor, cmp, hpos, hs, hs']; omega

theorem safe_of_match (h : matchRange (trim range) = some (op, comps))
    (hall : ∀ t ∈ comps, digits t = true → number t ≤ maxSafeInteger) : Safe range := by
  intro op' comps' hparts
  obtain ⟨_, rfl⟩ := Prod.ext_iff.mp (Option.some.inj (h.symm.trans (matchRange_ok.mpr hparts)))
  exact hall

end ReqRange
