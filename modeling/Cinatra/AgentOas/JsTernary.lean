import Cinatra.Lib.Leftmost
import Mathlib.Data.List.TakeWhile

/-! # JsTernary — a JavaScript ternary in a placeholder

    `findJsTernaryPlaceholder` stands in for a regular expression that needs quadratic
    time.  It may skip ahead: a start behind a brace that it passes over would close
    where the one it looked at does, around a shorter body
    (`findJsTernaryPlaceholder_eq_search`). -/

namespace AgentOas

open Leftmost

/-- `text.indexOf("\x7b\x7b", i)`: what stands behind the next opening. -/
def behindOpen : List Char → Option (List Char)
  | [] => none
  | c :: s => if c = '\x7b' ∧ s.head? = some '\x7b' then some s.tail else behindOpen s

def notClose (c : Char) : Bool := c ≠ '\x7d'

def closes (after : List Char) : Bool := after.take 2 = ['\x7d', '\x7d']

/-- A `?`, and a `:` later on. -/
def hasTernary (inner : List Char) : Bool := (inner.dropWhile (· ≠ '?')).tail.contains ':'

def placeholder (inner : List Char) : List Char :=
  '\x7b' :: '\x7b' :: (inner ++ ['\x7d', '\x7d'])

variable {rest : List Char} {text : List Char}

theorem length_behindOpen (h : behindOpen text = some rest) : rest.length < text.length := by
  induction text with
  | nil => cases h
  | cons c s ih =>
    rw [behindOpen] at h
    split at h
    · rw [← Option.some.inj h, List.length_tail, List.length_cons]
      exact Nat.lt_succ_of_le (Nat.sub_le _ _)
    · exact Nat.lt_succ_of_lt (ih h)

def findJsTernaryPlaceholder (text : List Char) : Option (List Char) :=
  match _h : behindOpen text with
  | none => none
  | some rest =>
    if closes (rest.dropWhile notClose) then
      if hasTernary (rest.takeWhile notClose) then some (placeholder (rest.takeWhile notClose))
      else findJsTernaryPlaceholder rest
    -- no start up to the next brace is closed either
    else findJsTernaryPlaceholder (rest.dropWhile notClose)
termination_by text.length
decreasing_by
  · exact length_behindOpen _h
  · exact Nat.lt_of_le_of_lt (List.dropWhile_suffix _).length_le (length_behindOpen _h)

/-! ## The expression -/

/-- What `/\x7b\x7b[^\x7d]*\?[^\x7d]*:[^\x7d]*\x7d\x7d/` matches. -/
def JsTernary (m : List Char) : Prop :=
  ∃ inner, '\x7d' ∉ inner ∧ (∃ a b c, inner = a ++ '?' :: (b ++ ':' :: c)) ∧ m = placeholder inner

/-- The match at the head of a text. -/
def ternaryAt (s : List Char) : Option (List Char) :=
  let inner := (s.drop 2).takeWhile notClose
  if s.take 2 = ['\x7b', '\x7b'] ∧ closes ((s.drop 2).dropWhile notClose) = true ∧
    hasTernary inner = true then some (placeholder inner) else none

theorem hasTernary_iff {inner : List Char} :
    hasTernary inner = true ↔ ∃ a b c, inner = a ++ '?' :: (b ++ ':' :: c) := by
  constructor
  · intro h
    induction inner with
    | nil => cases h
    | cons d s ih =>
      by_cases hd : d = '?'
      · have hcolon : ':' ∈ s := by simpa [hasTernary, hd] using h
        obtain ⟨b, c, rfl⟩ := List.append_of_mem hcolon
        exact ⟨[], b, c, congrArg (· :: _) hd⟩
      · obtain ⟨a, b, c, rfl⟩ := ih (by simpa [hasTernary, hd] using h)
        exact ⟨d :: a, b, c, rfl⟩
  · rintro ⟨a, b, c, rfl⟩
    induction a with
    | nil => simp [hasTernary]
    | cons d a ih =>
      by_cases hd : d = '?'
      · simp [hasTernary, hd]
      · simpa [hasTernary, hd] using ih

theorem span_body {inner s : List Char} (h : '\x7d' ∉ inner) (hs : ∀ c ∈ s.head?, c = '\x7d') :
    (inner ++ s).takeWhile notClose = inner ∧ (inner ++ s).dropWhile notClose = s := by
  have hinner : ∀ c ∈ inner, notClose c = true := fun c hc =>
    decide_eq_true fun heq => h (heq ▸ hc)
  rw [List.takeWhile_append_of_pos hinner, List.dropWhile_append_of_pos hinner]
  cases s with
  | nil => exact ⟨List.append_nil _, rfl⟩
  | cons c s =>
    have hc : ¬ notClose c = true := by simp [notClose, hs c rfl]
    rw [List.takeWhile_cons_of_neg hc, List.dropWhile_cons_of_neg hc, List.append_nil]
    exact ⟨rfl, rfl⟩

theorem not_mem_takeWhile (s : List Char) : '\x7d' ∉ s.takeWhile notClose := fun h =>
  Bool.false_ne_true (List.mem_takeWhile_imp (p := notClose) h)

theorem ternaryAt_eq_some {s m : List Char} : ternaryAt s = some m ↔ m <+: s ∧ JsTernary m := by
  constructor
  · intro h
    rw [ternaryAt] at h
    split at h
    · next hcond =>
      obtain ⟨hopen, hclose, hternary⟩ := hcond
      rw [← Option.some.inj h]
      refine ⟨⟨((s.drop 2).dropWhile notClose).drop 2, ?_⟩, _, not_mem_takeWhile _,
        hasTernary_iff.mp hternary, rfl⟩
      calc placeholder ((s.drop 2).takeWhile notClose) ++ ((s.drop 2).dropWhile notClose).drop 2
        _ = s.take 2 ++ ((s.drop 2).takeWhile notClose ++ (((s.drop 2).dropWhile notClose).take 2 ++
                ((s.drop 2).dropWhile notClose).drop 2)) := by
          rw [hopen, of_decide_eq_true hclose]
          simp [placeholder]
        _ = s := by
          rw [List.take_append_drop, List.takeWhile_append_dropWhile, List.take_append_drop]
    · cases h
  · rintro ⟨⟨r, rfl⟩, inner, hnot, hternary, rfl⟩
    obtain ⟨htake, hdrop⟩ := span_body (s := '\x7d' :: '\x7d' :: r) hnot
      fun c hc => (Option.some.inj hc).symm
    have hbody : (placeholder inner ++ r).drop 2 = inner ++ '\x7d' :: '\x7d' :: r := by
      simp [placeholder]
    simp only [ternaryAt, hbody, htake, hdrop]
    exact if_pos ⟨rfl, rfl, hasTernary_iff.mpr hternary⟩

theorem ternary_matches : Matches ternaryAt JsTernary where
  sound s m h := by
    obtain ⟨hpre, hshape⟩ := ternaryAt_eq_some.mp h
    refine ⟨hpre, hshape, fun m' hpre' hshape' => ?_⟩
    rw [Option.some.inj (h.symm.trans (ternaryAt_eq_some.mpr ⟨hpre', hshape'⟩))]
  complete s h m hpre hshape := by
    rw [ternaryAt_eq_some.mpr ⟨hpre, hshape⟩] at h
    cases h

/-! ## The scanner finds the leftmost match -/

theorem ternaryAt_of_not_open {c : Char} {s : List Char}
    (h : ¬ (c = '\x7b' ∧ s.head? = some '\x7b')) : ternaryAt (c :: s) = none := by
  refine if_neg fun hcond => h ?_
  cases s with
  | nil => cases hcond.1
  | cons d s => simpa using hcond.1

theorem search_behindOpen_none (h : behindOpen text = none) : search ternaryAt text = none := by
  induction text with
  | nil => rfl
  | cons c s ih =>
    rw [behindOpen] at h
    split at h
    · cases h
    · next hopen => rw [search_cons (ternaryAt_of_not_open hopen), ih h]

theorem search_behindOpen (h : behindOpen text = some rest) :
    search ternaryAt text = search ternaryAt ('\x7b' :: '\x7b' :: rest) := by
  induction text with
  | nil => cases h
  | cons c s ih =>
    rw [behindOpen] at h
    split at h
    · next hopen =>
      obtain ⟨rfl, hhead⟩ := hopen
      obtain ⟨s', rfl⟩ := List.head?_eq_some_iff.mp hhead
      rw [← Option.some.inj h]
      rfl
    · next hopen => rw [search_cons (ternaryAt_of_not_open hopen), ih h]

/-- Behind an opening whose body is no ternary, the next place is none either. -/
theorem search_not_ternary (h : hasTernary (rest.takeWhile notClose) = false) :
    search ternaryAt ('\x7b' :: '\x7b' :: rest) = search ternaryAt rest := by
  rw [search_cons, search_cons]
  · refine if_neg fun hcond => ?_
    cases rest with
    | nil => cases hcond.1
    | cons c s =>
      have hc : c = '\x7b' := by simpa using hcond.1
      have hternary : hasTernary (s.takeWhile notClose) = true := hcond.2.2
      rw [hc, List.takeWhile_cons_of_pos rfl] at h
      exact Bool.noConfusion (h.symm.trans hternary)
  · exact if_neg fun hcond => Bool.noConfusion (h.symm.trans hcond.2.2)

theorem search_unclosed (h : closes (rest.dropWhile notClose) = false) :
    search ternaryAt ('\x7b' :: '\x7b' :: rest) = search ternaryAt (rest.dropWhile notClose) := by
  have hhead : ∀ c ∈ (rest.dropWhile notClose).head?, c = '\x7d' := by
    intro c hc
    have hnot := List.head?_dropWhile_not notClose rest
    rw [hc] at hnot
    simpa [notClose] using hnot
  have hskip : search ternaryAt
      ('\x7b' :: '\x7b' :: rest.takeWhile notClose ++ rest.dropWhile notClose) =
        search ternaryAt (rest.dropWhile notClose) := search_append _ fun c p hp => ?_
  · rw [← hskip, List.cons_append, List.cons_append, List.takeWhile_append_dropWhile]
  · refine if_neg fun hcond => ?_
    cases p with
    | nil =>
      cases ht : rest.dropWhile notClose with
      | nil => rw [ht] at hcond; cases hcond.1
      | cons d t =>
        rw [ht] at hcond hhead
        have hd : d = '\x7b' := (by simpa using hcond.1 : c = '\x7b' ∧ d = '\x7b').2
        exact absurd (hd.symm.trans (hhead d rfl)) (by decide)
    | cons d p =>
      -- the body of that start ends where the one looked at does
      have hbody : p <:+ rest.takeWhile notClose := by
        rcases List.suffix_cons_iff.mp hp with heq | hp
        · exact (List.cons.inj (List.cons.inj heq).2).2 ▸ List.suffix_refl _
        · rcases List.suffix_cons_iff.mp hp with heq | hp
          · exact (List.cons.inj heq).2 ▸ List.suffix_cons d p
          · exact (List.suffix_append [c, d] p).trans hp
      have hclose : closes ((p ++ rest.dropWhile notClose).dropWhile notClose) = true := hcond.2.1
      rw [(span_body (fun hin => not_mem_takeWhile rest (hbody.subset hin)) hhead).2, h] at hclose
      cases hclose

theorem findJsTernaryPlaceholder_eq_search (text : List Char) :
    findJsTernaryPlaceholder text = search ternaryAt text := by
  fun_induction findJsTernaryPlaceholder text with
  | case1 text hnone => exact (search_behindOpen_none hnone).symm
  | case2 text rest hsome hclose hternary =>
    rw [search_behindOpen hsome]
    exact (search_of_head (if_pos ⟨rfl, hclose, hternary⟩)).symm
  | case3 text rest hsome hclose hternary ih =>
    rw [search_behindOpen hsome, search_not_ternary (Bool.eq_false_iff.mpr hternary), ih]
  | case4 text rest hsome hclose ih =>
    rw [search_behindOpen hsome, search_unclosed (Bool.eq_false_iff.mpr hclose), ih]

/-- **The scanner is the expression**: the leftmost match, and none where there is none. -/
theorem findJsTernaryPlaceholder_leftmost (text : List Char) :
    (∀ m, findJsTernaryPlaceholder text = some m ↔ IsLeftmost JsTernary text m) ∧
      (findJsTernaryPlaceholder text = none ↔ ∀ m, m <:+: text → ¬ JsTernary m) := by
  rw [findJsTernaryPlaceholder_eq_search]
  exact ⟨fun m => search_eq_some ternary_matches, search_eq_none ternary_matches⟩

end AgentOas
