import Mathlib.Data.List.Basic

/-! # Tokens — braced names in a text, and texts put in their place

    A token is two opening braces, blanks, a name, blanks and two closing braces; a
    `Grammar` says which characters are blanks and which make a name.  Tokens never
    overlap, so the scan from left to right finds exactly the names that occur
    (`mem_names_iff`).  A token that a replacement leaves as it is written is a token of
    the result (`mem_names_replace`), and the only one where the texts put in keep apart
    from the braces around them (`Apart.kept`). -/

namespace Tokens

/-- The character classes of a token; none has a brace in it, and no character of a
    name is a blank. -/
structure Grammar where
  space : Char → Bool
  start : Char → Bool
  rest : Char → Bool
  space_plain : ∀ c, space c = true → c ≠ '\x7b' ∧ c ≠ '\x7d'
  start_plain : ∀ c, start c = true → c ≠ '\x7b' ∧ c ≠ '\x7d' ∧ space c = false
  rest_plain : ∀ c, rest c = true → c ≠ '\x7b' ∧ c ≠ '\x7d' ∧ space c = false

variable (g : Grammar)

/-- The name of the token a text opens with, and what follows the token. -/
def token? : List Char → Option (List Char × List Char)
  | '\x7b' :: '\x7b' :: cs =>
    match cs.dropWhile g.space with
    | [] => none
    | c :: cs =>
      if g.start c then
        match (cs.dropWhile g.rest).dropWhile g.space with
        | '\x7d' :: '\x7d' :: rest => some (c :: cs.takeWhile g.rest, rest)
        | _ => none
      else none
  | _ => none

/-- A stretch of a text: one character, or a token as it is written. -/
inductive Piece where
  | char (c : Char)
  | token (raw name : List Char)
deriving DecidableEq

def piecesWithin : Nat → List Char → List Piece
  | 0, _ => []
  | _ + 1, [] => []
  | fuel + 1, c :: cs =>
    match token? g (c :: cs) with
    | none => .char c :: piecesWithin fuel cs
    | some (name, rest) =>
      .token ((c :: cs).take ((c :: cs).length - rest.length)) name :: piecesWithin fuel rest

/-- The text from left to right, token by token. -/
def pieces (cs : List Char) : List Piece := piecesWithin g cs.length cs

def Piece.name? : Piece → Option (List Char)
  | .char _ => none
  | .token _ name => some name

/-- The names of the tokens, in order. -/
def names (cs : List Char) : List (List Char) := (pieces g cs).filterMap Piece.name?

/-- A piece with `f raw name` in the place of a token. -/
def Piece.put (f : List Char → List Char → List Char) : Piece → List Char
  | .char c => [c]
  | .token raw name => f raw name

/-- The text with every token replaced. -/
def replace (f : List Char → List Char → List Char) (cs : List Char) : List Char :=
  (pieces g cs).flatMap (Piece.put f)

/-! ## The shape of a token -/

/-- `raw` is a token of this name. -/
inductive IsToken : List Char → List Char → Prop
  | mk {before after name : List Char} {c : Char} : before.all g.space = true →
      g.start c = true → name.all g.rest = true → after.all g.space = true →
      IsToken ('\x7b' :: '\x7b' :: (before ++ c :: (name ++ (after ++ ['\x7d', '\x7d']))))
        (c :: name)

variable {g} {c : Char} {p : Char → Bool} {xs : List Char}

private theorem dropWhile_stop (ys : List Char) (hxs : xs.all p = true) (hc : p c = false) :
    (xs ++ c :: ys).dropWhile p = c :: ys ∧ (xs ++ c :: ys).takeWhile p = xs := by
  rw [List.all_eq_true] at hxs
  rw [List.dropWhile_append_of_pos hxs, List.takeWhile_append_of_pos hxs]
  simp [hc]

theorem space_brace : g.space '\x7d' = false := by
  by_contra h
  exact (g.space_plain _ (by simpa using h)).2 rfl

theorem rest_brace : g.rest '\x7d' = false := by
  by_contra h
  exact (g.rest_plain _ (by simpa using h)).2.1 rfl

theorem rest_of_space (h : g.space c = true) : g.rest c = false := by
  by_contra hr
  have hs := (g.rest_plain c (by simpa using hr)).2.2
  rw [h] at hs
  exact Bool.noConfusion hs

variable {name : List Char}

theorem token?_of_isToken {raw : List Char} (h : IsToken g raw name) (tail : List Char) :
    token? g (raw ++ tail) = some (name, tail) := by
  obtain ⟨hbefore, hstart, hname, hafter⟩ := h
  rename_i before after name c
  have hc := g.start_plain c hstart
  obtain ⟨hdrop, -⟩ := dropWhile_stop (name ++ (after ++ ['\x7d', '\x7d']) ++ tail)
    hbefore hc.2.2
  have hblank : ∃ d ys, after ++ ['\x7d', '\x7d'] ++ tail = d :: ys ∧ g.rest d = false := by
    cases after with
    | nil => exact ⟨'\x7d', '\x7d' :: tail, rfl, rest_brace⟩
    | cons d after =>
      rw [List.all_cons, Bool.and_eq_true] at hafter
      exact ⟨d, after ++ ['\x7d', '\x7d'] ++ tail, rfl, rest_of_space hafter.1⟩
  obtain ⟨d, ys, hd, hrest⟩ := hblank
  obtain ⟨hdropName, htakeName⟩ := dropWhile_stop ys hname hrest
  obtain ⟨hdropAfter, -⟩ := dropWhile_stop ('\x7d' :: tail) hafter space_brace
  have hbody : '\x7b' :: '\x7b' :: (before ++ c :: (name ++ (after ++ ['\x7d', '\x7d']))) ++ tail =
      '\x7b' :: '\x7b' :: (before ++ c :: (name ++ (after ++ ['\x7d', '\x7d']) ++ tail)) := by
    simp
  have hrun : name ++ (after ++ ['\x7d', '\x7d']) ++ tail = name ++ d :: ys := by
    rw [← hd]
    simp
  have hend : d :: ys = after ++ '\x7d' :: '\x7d' :: tail := by
    rw [← hd]
    simp
  rw [hbody, token?, hdrop]
  dsimp only
  rw [if_pos hstart, hrun, hdropName, htakeName, hend, hdropAfter]
  rfl

variable {cs : List Char}

theorem isToken_of_token? {tail : List Char} (h : token? g cs = some (name, tail)) :
    ∃ raw, IsToken g raw name ∧ cs = raw ++ tail := by
  unfold token? at h
  split at h
  case h_2 => cases h
  rename_i cs
  have hsplit := List.takeWhile_append_dropWhile (p := g.space) (l := cs)
  split at h
  case h_1 => cases h
  rename_i c cs' hdrop
  split at h
  case isFalse => cases h
  rename_i hstart
  have hname := List.takeWhile_append_dropWhile (p := g.rest) (l := cs')
  have hafter := List.takeWhile_append_dropWhile (p := g.space) (l := cs'.dropWhile g.rest)
  split at h
  case h_2 => cases h
  rename_i rest' hclose
  obtain ⟨rfl, rfl⟩ := Prod.mk.inj (Option.some.inj h)
  have hbefore : (cs.takeWhile g.space).all g.space = true := List.all_takeWhile
  have hend : ((cs'.dropWhile g.rest).takeWhile g.space).all g.space = true :=
    List.all_takeWhile
  refine ⟨_, IsToken.mk hbefore hstart List.all_takeWhile hend, ?_⟩
  rw [hclose] at hafter
  rw [hdrop] at hsplit
  rw [← hafter] at hname
  rw [← hname] at hsplit
  simp only [List.cons_append, List.append_assoc, List.nil_append]
  rw [hsplit]

theorem IsToken.ne_nil {raw : List Char} (h : IsToken g raw name) : raw ≠ [] := by
  cases h
  exact List.cons_ne_nil _ _

private theorem all_ne_brace
    (hp : ∀ c, p c = true → c ≠ '\x7b') (hxs : xs.all p = true) : ∀ c ∈ xs, c ≠ '\x7b' :=
  fun c hc => hp c (List.all_eq_true.mp hxs c hc)

theorem IsToken.body {raw : List Char} (h : IsToken g raw name) :
    ∃ c body, raw = '\x7b' :: '\x7b' :: c :: body ∧ ∀ d ∈ c :: body, d ≠ '\x7b' := by
  obtain ⟨hbefore, hstart, hname, hafter⟩ := h
  rename_i before after name c
  have hall : ∀ d ∈ before ++ c :: (name ++ (after ++ ['\x7d', '\x7d'])), d ≠ '\x7b' := by
    intro d hd
    simp only [List.mem_append, List.mem_cons, List.not_mem_nil, or_false] at hd
    rcases hd with hd | rfl | hd | hd | rfl | rfl
    · exact all_ne_brace (fun c hc => (g.space_plain c hc).1) hbefore d hd
    · exact (g.start_plain _ hstart).1
    · exact all_ne_brace (fun c hc => (g.rest_plain c hc).1) hname d hd
    · exact all_ne_brace (fun c hc => (g.space_plain c hc).1) hafter d hd
    · decide
    · decide
  cases before with
  | nil => exact ⟨c, _, rfl, hall⟩
  | cons b before => exact ⟨b, _, rfl, hall⟩

theorem IsToken.apart {raw raw' name' pre tail tail' : List Char} (h : IsToken g raw name)
    (h' : IsToken g raw' name') (hpre : pre ≠ []) (he : raw ++ tail = pre ++ (raw' ++ tail')) :
    ∃ pre', pre = raw ++ pre' ∧ tail = pre' ++ (raw' ++ tail') := by
  obtain ⟨c, body, rfl, hbody⟩ := h.body
  obtain ⟨c', body', rfl, -⟩ := h'.body
  rcases List.append_eq_append_iff.mp he with ⟨pre', hpre', htail⟩ | ⟨b, hb, hrest⟩
  · exact ⟨pre', hpre', htail⟩
  cases b with
  | nil => exact ⟨[], by simpa using hb.symm, by simpa using hrest.symm⟩
  | cons x b =>
    -- the second token opens with a brace that is not among the first two
    exfalso
    obtain ⟨hx, hsecond⟩ := List.cons.inj hrest
    rcases pre with _ | ⟨p, _ | ⟨q, pre⟩⟩
    · exact hpre rfl
    · obtain ⟨-, hin⟩ := List.cons.inj hb
      obtain ⟨-, hin⟩ := List.cons.inj hin
      rw [← hin] at hsecond
      exact hbody c (List.mem_cons_self ..) (List.cons.inj hsecond).1.symm
    · obtain ⟨-, hin⟩ := List.cons.inj hb
      obtain ⟨-, hin⟩ := List.cons.inj hin
      refine hbody x ?_ hx.symm
      rw [hin]
      exact List.mem_append_right _ (List.mem_cons_self ..)

/-! ## What the scan finds -/

private theorem take_raw (raw tail : List Char) :
    (raw ++ tail).take ((raw ++ tail).length - tail.length) = raw := by
  rw [List.length_append, Nat.add_sub_cancel, List.take_left]

theorem piecesWithin_token {raw : List Char} (h : IsToken g raw name) (fuel : Nat)
    (tail : List Char) :
    piecesWithin g (fuel + 1) (raw ++ tail) = .token raw name :: piecesWithin g fuel tail := by
  have hread := token?_of_isToken h tail
  have htake := take_raw raw tail
  cases hraw : raw ++ tail with
  | nil => exact absurd (List.append_eq_nil_iff.mp hraw).1 h.ne_nil
  | cons c cs =>
    rw [hraw] at hread htake
    rw [piecesWithin, hread]
    dsimp only
    rw [htake]

theorem piecesWithin_char (h : token? g (c :: cs) = none) (fuel : Nat) :
    piecesWithin g (fuel + 1) (c :: cs) = .char c :: piecesWithin g fuel cs := by
  rw [piecesWithin, h]

/-- A text is empty, opens with a token, or opens with a character that starts none. -/
theorem open_cases (cs : List Char) :
    cs = [] ∨ (∃ raw name tail, IsToken g raw name ∧ cs = raw ++ tail) ∨
      ∃ c rest, cs = c :: rest ∧ token? g cs = none := by
  cases cs with
  | nil => exact .inl rfl
  | cons c rest =>
    refine .inr ?_
    cases ht : token? g (c :: rest) with
    | none => exact .inr ⟨c, rest, rfl, rfl⟩
    | some found =>
      obtain ⟨name, tail⟩ := found
      obtain ⟨raw, hraw, he⟩ := isToken_of_token? ht
      exact .inl ⟨raw, name, tail, hraw, he⟩

theorem IsToken.length_pos {raw : List Char} (h : IsToken g raw name) : 0 < raw.length :=
  List.length_pos_iff.mpr h.ne_nil

/-- What holds of the empty text, of a text after a character and of one after a token
    holds of every text the scan has fuel for. -/
theorem scan_induction {P : List Char → List Piece → Prop} (hnil : P [] [])
    (hchar : ∀ c cs ps, token? g (c :: cs) = none → P cs ps → P (c :: cs) (.char c :: ps))
    (htoken : ∀ raw name cs ps, IsToken g raw name → P cs ps →
      P (raw ++ cs) (.token raw name :: ps)) (cs : List Char) : P cs (pieces g cs) := by
  have hscan : ∀ (fuel : Nat) (cs : List Char), cs.length ≤ fuel → P cs (piecesWithin g fuel cs) := by
    intro fuel
    induction fuel with
    | zero =>
      intro cs hlen
      rw [List.length_eq_zero_iff.mp (Nat.le_zero.mp hlen)]
      exact hnil
    | succ fuel ih =>
      intro cs hlen
      rcases open_cases (g := g) cs with rfl | ⟨raw, name, tail, hraw, rfl⟩ | ⟨c, rest, rfl, hno⟩
      · exact hnil
      · have hpos := hraw.length_pos
        rw [List.length_append] at hlen
        rw [piecesWithin_token hraw]
        exact htoken raw name tail _ hraw (ih tail (by omega))
      · rw [List.length_cons] at hlen
        rw [piecesWithin_char hno]
        exact hchar c rest _ hno (ih rest (by omega))
  exact hscan cs.length cs (Nat.le_refl _)

/-- The text of a piece as it is written. -/
def Piece.raw : Piece → List Char
  | .char c => [c]
  | .token raw _ => raw

theorem pieces_raw (cs : List Char) : (pieces g cs).flatMap Piece.raw = cs := by
  refine scan_induction (P := fun cs ps => ps.flatMap Piece.raw = cs) rfl ?_ ?_ cs
  · intro c cs ps _ ih
    rw [List.flatMap_cons, ih]
    rfl
  · intro raw name cs ps _ ih
    rw [List.flatMap_cons, ih]
    rfl

theorem isToken_of_mem {raw : List Char} (h : .token raw name ∈ pieces g cs) :
    IsToken g raw name := by
  revert h
  refine scan_induction (P := fun _ ps => .token raw name ∈ ps → IsToken g raw name)
    ?_ ?_ ?_ cs
  · exact fun h => absurd h List.not_mem_nil
  · intro c cs ps _ ih h
    rcases List.mem_cons.mp h with he | h
    · exact Piece.noConfusion he
    · exact ih h
  · intro raw' name' cs ps hraw ih h
    rcases List.mem_cons.mp h with he | h
    · obtain ⟨rfl, rfl⟩ := Piece.token.inj he
      exact hraw
    · exact ih h

/-- A name occurs in a text. -/
def Occurs (g : Grammar) (name cs : List Char) : Prop :=
  ∃ pre raw post, IsToken g raw name ∧ cs = pre ++ (raw ++ post)

theorem mem_names : name ∈ names g cs ↔ ∃ raw, .token raw name ∈ pieces g cs := by
  rw [names, List.mem_filterMap]
  constructor
  · rintro ⟨p, hp, hname⟩
    cases p with
    | char c => cases hname
    | token raw n =>
      cases hname
      exact ⟨raw, hp⟩
  · rintro ⟨raw, h⟩
    exact ⟨_, h, rfl⟩

theorem mem_pieces_of_eq {raw pre post : List Char} (h : IsToken g raw name)
    (he : cs = pre ++ (raw ++ post)) : .token raw name ∈ pieces g cs := by
  have hall : ∀ pre, cs = pre ++ (raw ++ post) → Piece.token raw name ∈ pieces g cs := by
    refine scan_induction (P := fun cs ps => ∀ pre, cs = pre ++ (raw ++ post) →
      Piece.token raw name ∈ ps) ?_ ?_ ?_ cs
    · intro pre he
      have hnil := (List.append_eq_nil_iff.mp he.symm).2
      exact absurd (List.append_eq_nil_iff.mp hnil).1 h.ne_nil
    · intro c cs ps hno ih pre he
      cases pre with
      | nil =>
        rw [List.nil_append] at he
        rw [he, token?_of_isToken h post] at hno
        cases hno
      | cons a pre => exact .tail _ (ih pre (List.cons.inj he).2)
    · intro raw' name' cs ps hraw' ih pre he
      cases pre with
      | nil =>
        have hread := token?_of_isToken hraw' cs
        rw [he, List.nil_append, token?_of_isToken h post] at hread
        obtain ⟨rfl, rfl⟩ := Prod.mk.inj (Option.some.inj hread)
        rw [List.nil_append] at he
        rw [List.append_cancel_right he]
        exact .head _ ..
      | cons a pre =>
        obtain ⟨pre', -, hcs⟩ := hraw'.apart h (List.cons_ne_nil a pre) he
        exact .tail _ (ih pre' hcs)
  exact hall pre he

/-- **The scan is complete**: it finds the names that occur. -/
theorem mem_names_iff : name ∈ names g cs ↔ Occurs g name cs := by
  rw [mem_names]
  constructor
  · rintro ⟨raw, h⟩
    obtain ⟨ps, qs, hsplit⟩ := List.append_of_mem h
    refine ⟨ps.flatMap Piece.raw, raw, qs.flatMap Piece.raw, isToken_of_mem h, ?_⟩
    have hraw := pieces_raw (g := g) cs
    rw [hsplit, List.flatMap_append, List.flatMap_cons] at hraw
    exact hraw.symm
  · rintro ⟨pre, raw, post, hraw, he⟩
    exact ⟨raw, mem_pieces_of_eq hraw he⟩

/-- **What a replacement leaves stands**: a token it writes back is a token of the result. -/
theorem mem_names_replace {f : List Char → List Char → List Char} {raw : List Char}
    (h : .token raw name ∈ pieces g cs) (hf : f raw name = raw) :
    name ∈ names g (replace g f cs) := by
  obtain ⟨ps, qs, hsplit⟩ := List.append_of_mem h
  rw [mem_names_iff]
  refine ⟨ps.flatMap (Piece.put f), raw, qs.flatMap (Piece.put f), isToken_of_mem h, ?_⟩
  rw [replace, hsplit, List.flatMap_append, List.flatMap_cons]
  show _ ++ (f raw name ++ _) = _
  rw [hf]

theorem replace_eq_self {f : List Char → List Char → List Char}
    (h : ∀ raw name, .token raw name ∈ pieces g cs → f raw name = raw) : replace g f cs = cs := by
  have hraw := pieces_raw (g := g) cs
  have hput : ∀ p ∈ pieces g cs, p.put f = p.raw := by
    intro p hp
    cases p with
    | char c => rfl
    | token raw name => exact h raw name hp
  rw [replace, List.flatMap_congr hput, hraw]

/-! ## Replacements that form no token -/

/-- Every opening brace of a text is followed in it by another character. -/
def Parted (cs : List Char) : Prop :=
  ∀ pre post, cs = pre ++ '\x7b' :: post → ∃ d rest, post = d :: rest ∧ d ≠ '\x7b'

/-- A brace before the piece opens nothing: what stands there begins with another
    character, or is the token as it is written. -/
def Piece.Closed (f : List Char → List Char → List Char) : Piece → Prop
  | .char c => c ≠ '\x7b'
  | .token raw name => f raw name = raw ∨ ∃ d rest, f raw name = d :: rest ∧ d ≠ '\x7b'

/-- Nothing put in the place of a token, and no two characters of the text around it,
    make the two opening braces of another token. -/
structure Apart (f : List Char → List Char → List Char) (ps : List Piece) : Prop where
  closed : ∀ pre p post, ps = pre ++ .char '\x7b' :: p :: post → p.Closed f
  parted : ∀ raw name, .token raw name ∈ ps → f raw name = raw ∨ Parted (f raw name)

/-- Texts without an opening brace keep apart. -/
theorem Apart.of_plain {f : List Char → List Char → List Char} {ps : List Piece}
    (h : ∀ p ∈ ps, '\x7b' ∉ p.put f) : Apart f ps where
  closed := by
    rintro pre p post rfl
    exact absurd (List.mem_singleton.mpr rfl) (h (.char '\x7b') (by simp))
  parted := by
    refine fun raw name hmem => .inr fun pre post he => ?_
    have hno := h _ hmem
    rw [Piece.put, he] at hno
    exact absurd (by simp) hno

theorem Occurs.skip (h : Occurs g name (c :: cs)) (hc : ∀ raw post, IsToken g raw name →
    c :: cs ≠ raw ++ post) : Occurs g name cs := by
  obtain ⟨pre, raw, post, hraw, he⟩ := h
  cases pre with
  | nil => exact absurd he (hc raw post hraw)
  | cons a pre => exact ⟨pre, raw, post, hraw, (List.cons.inj he).2⟩

theorem Occurs.skip_plain (h : Occurs g name (c :: cs)) (hc : c ≠ '\x7b') : Occurs g name cs := by
  refine h.skip ?_
  rintro raw post hraw he
  obtain ⟨d, body, rfl, -⟩ := hraw.body
  exact hc (List.cons.inj he).1

theorem Occurs.skip_brace {d : Char} (h : Occurs g name ('\x7b' :: d :: cs)) (hd : d ≠ '\x7b') :
    Occurs g name (d :: cs) := by
  refine h.skip ?_
  rintro raw post hraw he
  obtain ⟨c, body, rfl, -⟩ := hraw.body
  exact hd (List.cons.inj (List.cons.inj he).2).1

/-- No token begins in a text whose braces are parted. -/
theorem Occurs.past {v : List Char} (hv : Parted v) (h : Occurs g name (v ++ cs)) :
    Occurs g name cs := by
  induction v with
  | nil => exact h
  | cons c v ih =>
    have htail : Parted v := fun pre post he => hv (c :: pre) post (by rw [he, List.cons_append])
    refine ih htail ?_
    by_cases hc : c = '\x7b'
    · obtain ⟨d, rest, rfl, hd⟩ := hv [] v (by rw [hc, List.nil_append])
      rw [hc] at h
      exact h.skip_brace hd
    · exact h.skip_plain hc

/-- A token is one of its own text's, or stands after it. -/
theorem Occurs.past_token {raw name' : List Char} (hraw : IsToken g raw name)
    (h : Occurs g name' (raw ++ cs)) : name' = name ∨ Occurs g name' cs := by
  obtain ⟨pre, raw', post, hraw', he⟩ := h
  by_cases hpre : pre = []
  · rw [hpre, List.nil_append] at he
    have hread := token?_of_isToken hraw cs
    rw [he, token?_of_isToken hraw' post] at hread
    exact .inl (Prod.mk.inj (Option.some.inj hread)).1
  · obtain ⟨pre', -, hcs⟩ := hraw.apart hraw' hpre he
    exact .inr ⟨pre', raw', post, hraw', hcs⟩

variable {f : List Char → List Char → List Char}

/-- A brace before pieces that keep apart opens no token. -/
theorem Apart.skip_brace {ps : List Piece} (hps : Apart f (.char '\x7b' :: ps))
    (hraw : ∀ raw name, .token raw name ∈ ps → IsToken g raw name)
    (h : Occurs g name ('\x7b' :: ps.flatMap (Piece.put f))) :
    Occurs g name (ps.flatMap (Piece.put f)) := by
  cases ps with
  | nil =>
    refine h.skip ?_
    rintro raw post hraw he
    obtain ⟨c, body, rfl, -⟩ := hraw.body
    cases (List.cons.inj he).2
  | cons p ps =>
    have hclosed := hps.closed [] p ps rfl
    rw [List.flatMap_cons] at h ⊢
    cases p with
    | char c => exact h.skip_brace hclosed
    | token raw name' =>
      rcases hclosed with hkept | ⟨d, rest, hd, hne⟩
      · -- three braces: the token is the one that the last two open
        refine h.skip ?_
        rintro raw' post hraw' he
        obtain ⟨c, body, rfl, hbody⟩ := hraw'.body
        obtain ⟨c', body', hopen, -⟩ := (hraw raw name' (.head _)).body
        rw [Piece.put, hkept, hopen] at he
        have hthird := (List.cons.inj (List.cons.inj (List.cons.inj he).2).2).1
        exact hbody c (List.mem_cons_self ..) hthird.symm
      · rw [Piece.put, hd] at h ⊢
        exact h.skip_brace hne

theorem Apart.tail {p : Piece} {ps : List Piece} (h : Apart f (p :: ps)) : Apart f ps where
  closed := fun pre q post he => h.closed (p :: pre) q post (by rw [he, List.cons_append])
  parted := fun raw name hmem => h.parted raw name (.tail _ hmem)

/-- **No token is formed**: where the pieces keep apart, a token of the result is a token
    that was written back. -/
theorem Apart.kept {ps : List Piece} (hps : Apart f ps)
    (hraw : ∀ raw name, .token raw name ∈ ps → IsToken g raw name)
    (h : Occurs g name (ps.flatMap (Piece.put f))) :
    ∃ raw, .token raw name ∈ ps ∧ f raw name = raw := by
  induction ps with
  | nil =>
    obtain ⟨pre, raw, post, hraw, he⟩ := h
    exact absurd (List.append_eq_nil_iff.mp (List.append_eq_nil_iff.mp he.symm).2).1 hraw.ne_nil
  | cons p ps ih =>
    have hrest : ∀ raw name, .token raw name ∈ ps → IsToken g raw name :=
      fun raw name hmem => hraw raw name (.tail _ hmem)
    have hlater : Occurs g name (ps.flatMap (Piece.put f)) →
        ∃ raw, .token raw name ∈ p :: ps ∧ f raw name = raw :=
      fun hin => (ih hps.tail hrest hin).imp fun _ hkept => ⟨.tail _ hkept.1, hkept.2⟩
    rw [List.flatMap_cons] at h
    cases p with
    | char c =>
      by_cases hc : c = '\x7b'
      · subst hc
        exact hlater (hps.skip_brace hrest h)
      · exact hlater (h.skip_plain hc)
    | token raw name' =>
      have hmem : Piece.token raw name' ∈ Piece.token raw name' :: ps := .head _
      rcases hps.parted raw name' hmem with hkept | hparted
      · rw [Piece.put, hkept] at h
        rcases h.past_token (hraw raw name' hmem) with rfl | hin
        · exact ⟨raw, hmem, hkept⟩
        · exact hlater hin
      · exact hlater (h.past hparted)

theorem IsToken.start {raw : List Char} (h : IsToken g raw name) :
    ∃ c rest, name = c :: rest ∧ g.start c = true ∧ rest.all g.rest = true := by
  obtain ⟨-, hstart, hname, -⟩ := h
  exact ⟨_, _, rfl, hstart, hname⟩

end Tokens
