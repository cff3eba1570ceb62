import Cinatra.Lib.Leftmost
import Cinatra.Lib.Split
import Mathlib.Data.List.TakeWhile

/-! # JwtShape — a token with a JWT's shape in a text

    `matchJwtShape` stands in for `/eyJ[A-Za-z0-9_-]+\.eyJ[A-Za-z0-9_-]+\.[A-Za-z0-9_-]+/`.
    It cuts the text at the dots and looks at the first `eyJ` of a part only; the
    expression goes on to a later one, where the first has a foreign character behind it
    (`matchJwtShape_leftmost`). -/

namespace AgentOas

open Leftmost Split

def base64url (c : Char) : Bool := c.isAlphanum || c == '_' || c == '-'

def header : List Char := ['e', 'y', 'J']

/-- `JWT_FULL_SEGMENT_RE`, with the header and a character behind it. -/
def headerSegment (seg : List Char) : Bool :=
  decide (4 ≤ seg.length) && header.isPrefixOf seg && seg.all base64url

/-- `part.slice(part.indexOf("eyJ"))`. -/
def fromHeader (part : List Char) : Option (List Char) :=
  search (fun s => if header.isPrefixOf s then some s else none) part

/-- The token of a first segment and of what stands behind its dot. -/
def token (seg0 : List Char) : List (List Char) → Option (List Char)
  | seg1 :: part :: _ =>
    if headerSegment seg1 = true ∧ part.takeWhile base64url ≠ [] then
      some (seg0 ++ '.' :: (seg1 ++ '.' :: part.takeWhile base64url))
    else none
  | _ => none

/-- A round of the loop. -/
def scanTriple : List (List Char) → Option (List Char)
  | [] => none
  | part :: rest => ((fromHeader part).filter headerSegment).bind (token · rest)

def matchJwtShape (value : List Char) : Option (List Char) :=
  if fromHeader value = none then none else search scanTriple (split '.' value)

/-! ## The expression -/

/-- What the expression matches. -/
def JwtShape (m : List Char) : Prop :=
  ∃ a b c, headerSegment a = true ∧ headerSegment b = true ∧ c ≠ [] ∧ c.all base64url = true ∧
    m = a ++ '.' :: (b ++ '.' :: c)

/-- The match at the head of a text. -/
def jwtAt (s : List Char) : Option (List Char) :=
  match split '.' s with
  | [] => none
  | part :: rest => if headerSegment part then token part rest else none

variable {s : List Char}

theorem dot_not_mem (h : s.all base64url = true) : '.' ∉ s :=
  fun hin => Bool.false_ne_true (List.all_eq_true.mp h _ hin)

theorem all_of_headerSegment {seg : List Char} (h : headerSegment seg = true) :
    seg.all base64url = true := (Bool.and_eq_true_iff.mp h).2

variable {rest : List (List Char)} {m : List Char} {seg0 : List Char}

theorem token_eq_some : token seg0 rest = some m ↔ ∃ seg1 part ps, rest = seg1 :: part :: ps ∧
      headerSegment seg1 = true ∧ part.takeWhile base64url ≠ [] ∧
      m = seg0 ++ '.' :: (seg1 ++ '.' :: part.takeWhile base64url) := by
  rcases rest with _ | ⟨seg1, _ | ⟨part, ps⟩⟩
  · simp [token]
  · simp [token]
  rw [token, Option.ite_none_right_eq_some]
  constructor
  · rintro ⟨⟨hseg, hne⟩, heq⟩
    exact ⟨seg1, part, ps, rfl, hseg, hne, (Option.some.inj heq).symm⟩
  · rintro ⟨_, _, _, heq, hseg, hne, rfl⟩
    cases heq
    exact ⟨⟨hseg, hne⟩, rfl⟩

theorem token_eq_none (h : token seg0 rest = none) (seg : List Char) : token seg rest = none := by
  rw [Option.eq_none_iff_forall_ne_some] at h ⊢
  intro m hm
  obtain ⟨seg1, part, ps, hrest, hseg, hne, -⟩ := token_eq_some.mp hm
  exact h _ (token_eq_some.mpr ⟨seg1, part, ps, hrest, hseg, hne, rfl⟩)

theorem token_heads (h : token seg0 rest = some m) : m <+: join '.' (seg0 :: rest) := by
  obtain ⟨seg1, q, ps, rfl, hseg, hne, rfl⟩ := token_eq_some.mp h
  rw [join_cons (List.cons_ne_nil _ _), join_cons (List.cons_ne_nil _ _)]
  have hq : q.takeWhile base64url <+: join '.' (q :: ps) := by
    refine (List.takeWhile_prefix _).trans ?_
    cases ps with
    | nil => exact List.prefix_refl _
    | cons p ps => exact List.prefix_append _ _
  obtain ⟨t, ht⟩ := hq
  exact ⟨t, by simp [← ht]⟩

theorem jwtAt_eq_some (h : jwtAt s = some m) : m <+: s ∧ JwtShape m := by
  rw [jwtAt] at h
  split at h
  · cases h
  next part rest hsplit =>
  obtain ⟨hpart, htoken⟩ := Option.ite_none_right_eq_some.mp h
  have hhead := token_heads htoken
  obtain ⟨seg1, q, ps, rfl, hseg, hne, rfl⟩ := token_eq_some.mp htoken
  rw [← hsplit, join_split] at hhead
  exact ⟨hhead, part, seg1, _, hpart, hseg, hne, List.all_takeWhile, rfl⟩

theorem jwtAt_of_shape (hhead : m <+: s) (h : JwtShape m) :
    ∃ m', jwtAt s = some m' ∧ m.length ≤ m'.length := by
  obtain ⟨a, b, c, ha, hb, hne, hc, rfl⟩ := h
  obtain ⟨t, rfl⟩ := hhead
  obtain ⟨q, qs, hq⟩ := List.exists_cons_of_ne_nil (split_ne_nil '.' t)
  have hsplit : split '.' (a ++ '.' :: (b ++ '.' :: c) ++ t) = a :: b :: (c ++ q) :: qs := by
    rw [List.append_assoc, List.cons_append, List.append_assoc, List.cons_append, split_append,
      split_append, split_append_left (dot_not_mem hc), hq,
      split_eq_self (dot_not_mem (all_of_headerSegment ha)),
      split_eq_self (dot_not_mem (all_of_headerSegment hb))]
    rfl
  have hrun : (c ++ q).takeWhile base64url = c ++ q.takeWhile base64url :=
    List.takeWhile_append_of_pos (List.all_eq_true.mp hc)
  refine ⟨a ++ '.' :: (b ++ '.' :: (c ++ q.takeWhile base64url)), ?_, by simp⟩
  simp only [jwtAt, hsplit, ha, if_true]
  exact token_eq_some.mpr ⟨b, c ++ q, qs, rfl, hb, by simp [hrun, hne], by rw [hrun]⟩

theorem jwt_matches : Matches jwtAt JwtShape where
  sound s m h := by
    refine ⟨(jwtAt_eq_some h).1, (jwtAt_eq_some h).2, fun m' hhead hshape => ?_⟩
    obtain ⟨_, h', hle⟩ := jwtAt_of_shape hhead hshape
    rw [Option.some.inj (h.symm.trans h')]
    exact hle
  complete s h m hhead hshape := by
    obtain ⟨_, h', _⟩ := jwtAt_of_shape hhead hshape
    rw [h] at h'
    cases h'

/-! ## The parts that the expression finds -/

/-- The first place of a part from which all of it is a header segment. -/
def segmentIn (part : List Char) : Option (List Char) :=
  search (fun s => if headerSegment s then some s else none) part

/-- The match whose first dot stands behind the first part. -/
def matchTriple : List (List Char) → Option (List Char)
  | [] => none
  | part :: rest => (segmentIn part).bind (token · rest)

theorem search_jwtAt (s : List Char) : search jwtAt s = search matchTriple (split '.' s) := by
  induction s with
  | nil => rfl
  | cons c s ih =>
    rw [search, ih, split_cons]
    split
    · next hc =>
      have hnone : jwtAt (c :: s) = none := by rw [jwtAt, split_cons, if_pos hc]; rfl
      rw [hnone, Option.none_or, search_cons rfl]
    next hc =>
    obtain ⟨p, rest, hp⟩ := List.exists_cons_of_ne_nil (split_ne_nil '.' s)
    have hat : jwtAt (c :: s) = if headerSegment (c :: p) then token (c :: p) rest else none := by
      rw [jwtAt, split_cons, if_neg hc, hp]
      rfl
    simp only [hat, hp, List.modifyHead_cons, search, matchTriple, segmentIn]
    split
    · cases htoken : token (c :: p) rest with
      | some m => simp [htoken]
      | none => simp [token_eq_none htoken]
    · simp

theorem fromHeader_cons (c : Char) (p : List Char) : fromHeader (c :: p) =
    if header.isPrefixOf (c :: p) then some (c :: p) else fromHeader p := by
  rw [fromHeader, search]
  split
  · rfl
  · exact Option.none_or

/-- A header segment that the scanner takes is the first one. -/
theorem segmentIn_of_fromHeader {part seg : List Char}
    (h : (fromHeader part).filter headerSegment = some seg) : segmentIn part = some seg := by
  induction part with
  | nil => cases h
  | cons c p ih =>
    rw [fromHeader_cons] at h
    rw [segmentIn, search]
    split at h
    · obtain ⟨heq, hseg⟩ := Option.filter_eq_some_iff.mp h
      rw [← Option.some.inj heq] at hseg ⊢
      rw [if_pos hseg, Option.some_or]
    next hnot =>
    have hseg : ¬ headerSegment (c :: p) = true := fun hseg => hnot (by
      simp only [headerSegment, Bool.and_eq_true] at hseg
      exact hseg.1.2)
    rw [if_neg hseg, Option.none_or]
    exact ih h

theorem fromHeader_none (h : fromHeader s = none) : search jwtAt s = none := by
  induction s with
  | nil => rfl
  | cons c s ih =>
    rw [fromHeader_cons] at h
    split at h
    · cases h
    next hnot =>
    refine (search_cons (Option.eq_none_iff_forall_ne_some.mpr fun m hm => hnot ?_)).trans (ih h)
    obtain ⟨⟨t, ht⟩, a, b, d, ha, -, -, -, rfl⟩ := jwtAt_eq_some hm
    simp only [headerSegment, Bool.and_eq_true, List.isPrefixOf_iff_prefix] at ha ⊢
    exact ht ▸ ((ha.1.2.trans (List.prefix_append _ _)).trans (List.prefix_append _ _))

/-! ## Where they agree -/

/-- Every `eyJ` of the part has characters of a segment only behind it, up to the dot. -/
def Clear (part : List Char) : Prop := ∀ t, t <:+ part → header <+: t → t.all base64url = true

/-- The first match, with the part that it starts in and the parts behind that one. -/
def AtFirst (holds : List Char → List (List Char) → List Char → Prop) :
    List (List Char) → Prop
  | [] => True
  | part :: rest =>
    (matchTriple (part :: rest) = none → AtFirst holds rest) ∧
      ∀ m, matchTriple (part :: rest) = some m → holds part rest m

theorem AtFirst.mono {p q : List Char → List (List Char) → List Char → Prop}
    {parts : List (List Char)} (h : AtFirst p parts)
    (hmono : ∀ part rest m, matchTriple (part :: rest) = some m → p part rest m → q part rest m) :
    AtFirst q parts := by
  induction parts with
  | nil => trivial
  | cons part rest ih =>
    exact ⟨fun hnone => ih (h.1 hnone), fun m hm => hmono part rest m hm (h.2 m hm)⟩

/-- The scanner takes the segment that the expression does. -/
def InSight (part : List Char) : Prop := (fromHeader part).filter headerSegment = segmentIn part

theorem header_of_headerSegment {seg : List Char} (h : headerSegment seg = true) :
    4 ≤ seg.length ∧ header <+: seg := by
  simp only [headerSegment, Bool.and_eq_true, decide_eq_true_eq, List.isPrefixOf_iff_prefix] at h
  exact h.1

theorem segmentIn_eq_some {part seg : List Char} (h : segmentIn part = some seg) :
    seg <:+ part ∧ headerSegment seg = true := by
  induction part with
  | nil => cases h
  | cons c p ih =>
    rw [segmentIn, search, Option.or_eq_some_iff] at h
    rcases h with h | ⟨-, h⟩
    · obtain ⟨hseg, heq⟩ := Option.ite_none_right_eq_some.mp h
      rw [← Option.some.inj heq]
      exact ⟨List.suffix_refl _, hseg⟩
    · exact ⟨(ih h).1.trans (List.suffix_cons c p), (ih h).2⟩

/-- The first `eyJ` of a part stands no later than its header segment, and decides whether
    the part is clear. -/
theorem fromHeader_of_segmentIn {part seg : List Char} (h : segmentIn part = some seg) :
    ∃ t, fromHeader part = some t ∧ 4 ≤ t.length ∧ header <+: t ∧
      (Clear part ↔ t.all base64url = true) := by
  induction part with
  | nil => cases h
  | cons c p ih =>
    rw [fromHeader_cons]
    by_cases hhead : header.isPrefixOf (c :: p) = true
    · have hheader := List.isPrefixOf_iff_prefix.mp hhead
      obtain ⟨hsuffix, hseg⟩ := segmentIn_eq_some h
      refine ⟨c :: p, if_pos hhead, ?_, hheader, ?_⟩
      · exact (header_of_headerSegment hseg).1.trans hsuffix.length_le
      · refine ⟨fun hclear => hclear _ (List.suffix_refl _) hheader, fun hall t ht _ => ?_⟩
        exact List.all_eq_true.mpr fun d hd => List.all_eq_true.mp hall d (ht.subset hd)
    · rw [List.isPrefixOf_iff_prefix] at hhead
      have hseg : ¬ headerSegment (c :: p) = true :=
        fun hseg => hhead (header_of_headerSegment hseg).2
      rw [segmentIn, search, if_neg hseg, Option.none_or] at h
      obtain ⟨t, ht, hlength, hheader, hclear⟩ := ih h
      rw [← List.isPrefixOf_iff_prefix] at hhead
      refine ⟨t, (if_neg hhead).trans ht, hlength, hheader, Iff.trans ?_ hclear⟩
      refine ⟨fun hall t ht => hall t (ht.trans (List.suffix_cons c p)), fun hall t ht hpre => ?_⟩
      rcases List.suffix_cons_iff.mp ht with rfl | ht
      · exact absurd (List.isPrefixOf_iff_prefix.mpr hpre) hhead
      · exact hall t ht hpre

theorem inSight_iff {part seg : List Char} (h : segmentIn part = some seg) :
    InSight part ↔ Clear part := by
  obtain ⟨t, ht, hlength, hheader, hclear⟩ := fromHeader_of_segmentIn h
  rw [hclear, InSight, h]
  constructor
  · intro hsight
    obtain ⟨hfrom, hseg⟩ := Option.filter_eq_some_iff.mp hsight
    rw [Option.some.inj (ht.symm.trans hfrom)]
    exact all_of_headerSegment hseg
  · intro hall
    have hseg : headerSegment t = true := by
      simp [headerSegment, hlength, hall, List.isPrefixOf_iff_prefix.mpr hheader]
    have hfilter := Option.filter_eq_some_iff.mpr ⟨ht, hseg⟩
    rw [hfilter, ← h, segmentIn_of_fromHeader hfilter]

theorem search_scanTriple_iff (parts : List (List Char)) :
    search scanTriple parts = search matchTriple parts ↔
      AtFirst (fun part rest m => InSight part ∨ search scanTriple rest = some m) parts := by
  induction parts with
  | nil => exact iff_of_true rfl trivial
  | cons part rest ih =>
    rw [search, search, AtFirst]
    cases hmatch : matchTriple (part :: rest) with
    | none =>
      have hscan : scanTriple (part :: rest) = none := by
        refine Option.eq_none_iff_forall_ne_some.mpr fun m hm => ?_
        obtain ⟨seg, hseg, htoken⟩ := Option.bind_eq_some_iff.mp hm
        rw [matchTriple, segmentIn_of_fromHeader hseg, Option.bind_some, htoken] at hmatch
        cases hmatch
      rw [hscan, Option.none_or, Option.none_or, ih]
      exact ⟨fun h => ⟨fun _ => h, fun m hm => by cases hm⟩, fun h => h.1 rfl⟩
    | some m =>
      rw [Option.some_or]
      refine Iff.trans ?_ ⟨fun h => ⟨fun hm => (by cases hm), fun m' hm' => Option.some.inj hm' ▸ h⟩,
        fun h => h.2 m rfl⟩
      by_cases hsight : InSight part
      · have hscan : scanTriple (part :: rest) = some m := by rw [scanTriple, hsight]; exact hmatch
        rw [hscan, Option.some_or]
        exact iff_of_true rfl (.inl hsight)
      · cases hseg : (fromHeader part).filter headerSegment with
        | some seg => exact absurd (hseg.trans (segmentIn_of_fromHeader hseg).symm) hsight
        | none => rw [scanTriple, hseg, Option.bind_none, Option.none_or, or_iff_right hsight]

theorem atFirst_of_none {holds : List Char → List (List Char) → List Char → Prop}
    {parts : List (List Char)} (h : search matchTriple parts = none) : AtFirst holds parts := by
  induction parts with
  | nil => trivial
  | cons part rest ih =>
    rw [search, Option.or_eq_none_iff] at h
    exact ⟨fun _ => ih h.2, fun m hm => absurd (h.1.symm.trans hm) (Option.some_ne_none m).symm⟩

/-- What the scanner returns stands in the text. -/
theorem search_scanTriple_infix {parts : List (List Char)} (h : search scanTriple parts = some m) :
    m <:+: join '.' parts := by
  induction parts with
  | nil => cases h
  | cons part rest ih =>
    rw [search, Option.or_eq_some_iff] at h
    rcases h with h | ⟨-, h⟩
    · obtain ⟨seg, hseg, htoken⟩ := Option.bind_eq_some_iff.mp h
      obtain ⟨front, rfl⟩ := (segmentIn_eq_some (segmentIn_of_fromHeader hseg)).1
      refine (token_heads htoken).isInfix.trans ?_
      cases rest with
      | nil => exact (List.suffix_append front seg).isInfix
      | cons p ps =>
        rw [join_cons (List.cons_ne_nil p ps), join_cons (List.cons_ne_nil p ps), List.append_assoc]
        exact (List.suffix_append front _).isInfix
    · cases rest with
      | nil => cases h
      | cons p ps =>
        rw [join_cons (List.cons_ne_nil p ps)]
        exact (ih h).trans ⟨part ++ ['.'], [], by simp⟩

/-- The scanner returns the leftmost match of the expression, and nothing where there is
    none. -/
def ScansExpression (value : List Char) : Prop :=
  (∀ m, matchJwtShape value = some m ↔ IsLeftmost JwtShape value m) ∧
    (matchJwtShape value = none ↔ ∀ m, m <:+: value → ¬ JwtShape m)

theorem scansExpression_iff (value : List Char) : ScansExpression value ↔
    AtFirst (fun part rest m => InSight part ∨ search scanTriple rest = some m)
      (split '.' value) := by
  have hmatch : matchJwtShape value = search jwtAt value ↔
      AtFirst (fun part rest m => InSight part ∨ search scanTriple rest = some m)
        (split '.' value) := by
    rw [matchJwtShape]
    split
    · next hnone =>
      have hsearch := fromHeader_none hnone
      exact iff_of_true hsearch.symm (atFirst_of_none ((search_jwtAt value).symm.trans hsearch))
    · rw [search_jwtAt, search_scanTriple_iff]
  rw [← hmatch, ScansExpression, ← search_eq_none jwt_matches]
  constructor
  · exact fun h => Option.ext fun m => (h.1 m).trans (search_eq_some jwt_matches).symm
  · intro h
    rw [h]
    exact ⟨fun m => search_eq_some jwt_matches, Iff.rfl⟩

/-- **The scanner is the expression where** the part that the leftmost match starts in is
    clear, and nowhere else, but for a text that stands once more behind that part. -/
theorem matchJwtShape_leftmost (value : List Char) :
    (AtFirst (fun part _ _ => Clear part) (split '.' value) → ScansExpression value) ∧
      (ScansExpression value →
        AtFirst (fun part rest m => Clear part ∨ m <:+: join '.' rest) (split '.' value)) := by
  have hsight : ∀ {part rest m}, matchTriple (part :: rest) = some m →
      (InSight part ↔ Clear part) := by
    intro part rest m hm
    obtain ⟨seg, hseg, -⟩ := Option.bind_eq_some_iff.mp hm
    exact inSight_iff hseg
  rw [scansExpression_iff]
  constructor
  · exact fun h => h.mono fun part rest m hm hclear => .inl ((hsight hm).mpr hclear)
  · exact fun h => h.mono fun part rest m hm hor =>
      hor.imp (hsight hm).mp search_scanTriple_infix

def hiddenToken : List Char := "eyJ eyJa.eyJb.c".toList

theorem hiddenToken_missed : ¬ ScansExpression hiddenToken := by
  rintro ⟨-, h⟩
  exact h.mp (by decide) "eyJa.eyJb.c".toList ⟨"eyJ ".toList, [], by decide⟩
    ⟨"eyJa".toList, "eyJb".toList, ['c'], by decide⟩

end AgentOas
