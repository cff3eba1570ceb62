import Mathlib.Data.List.TakeWhile

/-! # URL references — where a reference leads

    A general account of the origin of a URL reference, as a site resolves it.
    Tabs and line breaks are dropped, a backslash counts as a slash, and two slashes
    open an authority, whose host stands after the last `@`.  A browser reads some
    spellings otherwise: no slashes or three behind `https:`, a port with zeros before
    it or none behind its colon, a host percent-encoded or in full width.

    * **`target`** reads a reference: a path of the site, an origin, or neither;
    * **`Spells`** says how the references of one origin are written;
    * **`target_eq_origin_iff`** — the reader accepts exactly those. -/

namespace Url

def isSlash (c : Char) : Bool := c == '/' || c == '\\'

def endsAuthority (c : Char) : Bool := isSlash c || c == '?' || c == '#'

def isSchemeChar (c : Char) : Bool := c.isAlphanum || c == '+' || c == '-' || c == '.'

def isLineBreak (c : Char) : Bool := c == '\t' || c == '\n' || c == '\r'

def isBlank (c : Char) : Bool := decide (c.toNat ≤ 32)

/-- Line breaks dropped everywhere, blanks at both ends. -/
def clean (t : List Char) : List Char :=
  (((t.filter (fun c => !isLineBreak c)).dropWhile isBlank).reverse.dropWhile isBlank).reverse

def lower (t : List Char) : List Char := t.map Char.toLower

/-- The port a scheme implies. -/
def defaultPort (scheme : List Char) : List Char :=
  if scheme = "https".toList ∨ scheme = "wss".toList then ":443".toList
  else if scheme = "http".toList ∨ scheme = "ws".toList then ":80".toList
  else []

/-- A host as origins are compared: lower case, without the implied port. -/
def normalHost (scheme host : List Char) : List Char :=
  if defaultPort scheme <:+ lower host then
    (lower host).take (host.length - (defaultPort scheme).length)
  else lower host

/-- The scheme a reference opens with, and what follows its colon. -/
def scheme? (t : List Char) : Option (List Char × List Char) :=
  match t.dropWhile isSchemeChar with
  | ':' :: rest =>
    if t.head?.any Char.isAlpha then some (lower (t.takeWhile isSchemeChar), rest) else none
  | _ => none

/-- What an authority names: the part after the last `@`. -/
def hostOf (authority : List Char) : List Char :=
  (authority.reverse.takeWhile (fun c => c != '@')).reverse

/-- The authority of a reference behind its scheme, when two slashes open one. -/
def authority? : List Char → Option (List Char)
  | a :: b :: rest =>
    if isSlash a && isSlash b then some (rest.takeWhile (fun c => !endsAuthority c)) else none
  | _ => none

inductive Target where
  | site
  | origin (scheme host : List Char)
  | other
deriving DecidableEq

def originOf (scheme : List Char) (rest : List Char) : Target :=
  match authority? rest with
  | some authority => .origin scheme (normalHost scheme (hostOf authority))
  | none => .other

/-- Where a reference without a scheme leads. -/
def relativeTarget (siteScheme : List Char) : List Char → Target
  | [] => .site
  | a :: rest =>
    if isSlash a then
      if (authority? (a :: rest)).isSome then originOf siteScheme (a :: rest) else .site
    else .other

/-- Where a reference leads on a site of the given scheme. -/
def target (siteScheme t : List Char) : Target :=
  match scheme? t with
  | some (scheme, rest) => originOf scheme rest
  | none => relativeTarget siteScheme t

/-- A path of the site: nothing, or one slash. -/
def SitePath (t : List Char) : Prop :=
  t = [] ∨ ∃ a rest, t = a :: rest ∧ isSlash a = true ∧
    ∀ b rest', rest = b :: rest' → isSlash b = false

/-- The scheme and its colon: both present, or both left out. -/
def SpellsScheme (siteScheme scheme lead : List Char) : Prop :=
  (lead = [] ∧ scheme = siteScheme) ∨
  ∃ c s, lead = (c :: s) ++ [':'] ∧ c.isAlpha = true ∧
    (∀ d ∈ c :: s, isSchemeChar d = true) ∧ lower (c :: s) = scheme

/-- User information: nothing, or text that an `@` closes. -/
def SpellsUser (user : List Char) : Prop :=
  user = [] ∨ ∃ u, user = u ++ ['@'] ∧ ∀ c ∈ u, endsAuthority c = false

/-- A reference to an origin: its scheme or none, two slashes, user information
    or none, the host, and nothing that could still belong to the host. -/
def Spells (siteScheme scheme host t : List Char) : Prop :=
  ∃ lead a b user h tail, t = lead ++ a :: b :: (user ++ h ++ tail) ∧
    SpellsScheme siteScheme scheme lead ∧ isSlash a = true ∧ isSlash b = true ∧
    SpellsUser user ∧ (∀ c ∈ h, endsAuthority c = false ∧ c ≠ '@') ∧
    normalHost scheme h = host ∧ (∀ c rest, tail = c :: rest → endsAuthority c = true)

/-! ## Reading an authority -/

variable {α : Type}

theorem dropWhile_head {p : α → Bool} {l rest : List α} {c : α}
    (h : l.dropWhile p = c :: rest) : p c = false := by
  have hstop := List.head?_dropWhile_not p l
  rw [h] at hstop
  exact hstop

theorem takeWhile_exact (p : α → Bool) (l tail : List α)
    (hl : ∀ c ∈ l, p c = true) (htail : ∀ c rest, tail = c :: rest → p c = false) :
    (l ++ tail).takeWhile p = l ∧ (l ++ tail).dropWhile p = tail := by
  rw [List.takeWhile_append_of_pos hl, List.dropWhile_append_of_pos hl]
  cases tail with
  | nil => simp
  | cons c rest => simp [htail c rest rfl]

theorem hostOf_eq_iff (authority h : List Char) : hostOf authority = h ↔
      ∃ user, authority = user ++ h ∧ (∀ c ∈ h, c ≠ '@') ∧
        (user = [] ∨ ∃ u, user = u ++ ['@']) := by
  constructor
  · rintro rfl
    refine ⟨(authority.reverse.dropWhile (fun c => c != '@')).reverse, ?_, ?_, ?_⟩
    · rw [hostOf, ← List.reverse_append, List.takeWhile_append_dropWhile, List.reverse_reverse]
    · intro c hc
      rw [hostOf, List.mem_reverse] at hc
      have hp := List.mem_takeWhile_imp hc
      simpa using hp
    · cases hd : authority.reverse.dropWhile (fun c => c != '@') with
      | nil => exact .inl rfl
      | cons c rest =>
        have hc : c = '@' := by simpa using dropWhile_head hd
        exact .inr ⟨rest.reverse, by rw [hc, List.reverse_cons]⟩
  · rintro ⟨user, rfl, hh, huser⟩
    rw [hostOf, List.reverse_append]
    have hexact := takeWhile_exact (fun c => c != '@') h.reverse user.reverse
      (by intro c hc; simpa using hh c (List.mem_reverse.mp hc))
      (by
        intro c rest hc
        rcases huser with rfl | ⟨u, rfl⟩
        · cases hc
        · rw [List.reverse_append] at hc
          cases hc
          decide)
    rw [hexact.1, List.reverse_reverse]

/-- An authority is opened by two slashes and runs up to its end. -/
theorem authority?_eq_some_iff (t authority : List Char) : authority? t = some authority ↔
      ∃ a b tail, t = a :: b :: (authority ++ tail) ∧ isSlash a = true ∧ isSlash b = true ∧
        (∀ c ∈ authority, endsAuthority c = false) ∧
        (∀ c rest, tail = c :: rest → endsAuthority c = true) := by
  constructor
  · intro h
    rcases t with _ | ⟨a, _ | ⟨b, rest⟩⟩
    · cases h
    · cases h
    rw [authority?] at h
    by_cases hab : (isSlash a && isSlash b) = true
    · rw [if_pos hab] at h
      rw [Bool.and_eq_true] at hab
      have hauth := Option.some.inj h
      refine ⟨a, b, rest.dropWhile (fun c => !endsAuthority c), ?_, hab.1, hab.2, ?_, ?_⟩
      · rw [← hauth, List.takeWhile_append_dropWhile]
      · intro c hc
        rw [← hauth] at hc
        have hp := List.mem_takeWhile_imp hc
        simpa using hp
      · intro c rest' hc
        have hp := dropWhile_head hc
        simpa using hp
    · rw [if_neg hab] at h
      cases h
  · rintro ⟨a, b, tail, rfl, ha, hb, hauth, htail⟩
    have hexact := takeWhile_exact (fun c => !endsAuthority c) authority tail
      (by intro c hc; simp [hauth c hc])
      (by intro c rest hc; simp [htail c rest hc])
    rw [authority?, ha, hb]
    simp [hexact.1]

theorem originOf_eq_iff (scheme t host : List Char) : originOf scheme t = .origin scheme host ↔
      ∃ a b user h tail, t = a :: b :: (user ++ h ++ tail) ∧ isSlash a = true ∧
        isSlash b = true ∧ SpellsUser user ∧ (∀ c ∈ h, endsAuthority c = false ∧ c ≠ '@') ∧
        normalHost scheme h = host ∧ (∀ c rest, tail = c :: rest → endsAuthority c = true) := by
  rw [originOf]
  constructor
  · intro h
    cases hauth : authority? t with
    | none => rw [hauth] at h; cases h
    | some authority =>
      rw [hauth] at h
      have hhost : normalHost scheme (hostOf authority) = host := by
        injection h
      obtain ⟨a, b, tail, rfl, ha, hb, hends, htail⟩ :=
        (authority?_eq_some_iff t authority).mp hauth
      obtain ⟨user, hsplit, hat, huser⟩ := (hostOf_eq_iff authority _).mp rfl
      have hends' : ∀ c ∈ user ++ hostOf authority, endsAuthority c = false := by
        rw [← hsplit]
        exact hends
      refine ⟨a, b, user, hostOf authority, tail, by rw [← hsplit], ha, hb, ?_, ?_, hhost, htail⟩
      · rcases huser with hnil | ⟨u, hu⟩
        · exact .inl hnil
        refine .inr ⟨u, hu, ?_⟩
        intro c hc
        apply hends'
        rw [hu]
        simp [hc]
      · intro c hc
        exact ⟨hends' c (List.mem_append_right _ hc), hat c hc⟩
  · rintro ⟨a, b, user, h, tail, rfl, ha, hb, huser, hh, hhost, htail⟩
    have hends : ∀ c ∈ user ++ h, endsAuthority c = false := by
      intro c hc
      rcases List.mem_append.mp hc with hc | hc
      · rcases huser with rfl | ⟨u, rfl, hu⟩
        · cases hc
        rcases List.mem_append.mp hc with hc | hc
        · exact hu c hc
        · rw [List.mem_singleton] at hc
          rw [hc]
          decide
      · exact (hh c hc).1
    have hauth := (authority?_eq_some_iff (a :: b :: (user ++ h ++ tail)) (user ++ h)).mpr
      ⟨a, b, tail, rfl, ha, hb, hends, htail⟩
    have hhostOf : hostOf (user ++ h) = h := by
      rw [hostOf_eq_iff]
      refine ⟨user, rfl, fun c hc => (hh c hc).2, ?_⟩
      rcases huser with hnil | ⟨u, hu, -⟩
      · exact .inl hnil
      · exact .inr ⟨u, hu⟩
    rw [hauth]
    show Target.origin scheme (normalHost scheme (hostOf (user ++ h))) = _
    rw [hhostOf, hhost]

/-! ## Reading a reference -/

theorem not_slash_of_alpha {c : Char} (h : c.isAlpha = true) : isSlash c = false := by
  by_contra hne
  rw [Bool.not_eq_false, isSlash, Bool.or_eq_true, beq_iff_eq, beq_iff_eq] at hne
  rcases hne with rfl | rfl
  · exact absurd h (by decide)
  · exact absurd h (by decide)

/-- A scheme is a letter and scheme characters up to a colon. -/
theorem scheme?_eq_some_iff (t scheme rest : List Char) : scheme? t = some (scheme, rest) ↔
      ∃ c s, t = (c :: s) ++ ':' :: rest ∧ c.isAlpha = true ∧
        (∀ d ∈ c :: s, isSchemeChar d = true) ∧ lower (c :: s) = scheme := by
  constructor
  · intro h
    rcases t with _ | ⟨c, t⟩
    · cases h
    unfold scheme? at h
    cases hd : (c :: t).dropWhile isSchemeChar with
    | nil => rw [hd] at h; cases h
    | cons d r =>
      rw [hd] at h
      by_cases hcolon : d = ':'
      · rw [hcolon] at h hd
        by_cases ha : c.isAlpha = true
        · have hc : isSchemeChar c = true := by
            simp [isSchemeChar, Char.isAlphanum, ha]
          have h' : some (lower ((c :: t).takeWhile isSchemeChar), r) =
              some (scheme, rest) := by simpa [ha] using h
          obtain ⟨hs, hr⟩ := Prod.mk.inj (Option.some.inj h')
          have htake : (c :: t).takeWhile isSchemeChar = c :: t.takeWhile isSchemeChar := by
            rw [List.takeWhile_cons, if_pos hc]
          refine ⟨c, t.takeWhile isSchemeChar, ?_, ha, ?_, ?_⟩
          · rw [← htake, ← hr, ← hd, List.takeWhile_append_dropWhile]
          · intro d hd'
            rw [← htake] at hd'
            exact List.mem_takeWhile_imp hd'
          · rw [← htake]
            exact hs
        · simp [ha] at h
      · simp [hcolon] at h
  · rintro ⟨c, s, rfl, ha, hs, hscheme⟩
    have hexact := takeWhile_exact isSchemeChar (c :: s) (':' :: rest) hs
      (by intro d r hd; cases hd; decide)
    rw [List.cons_append] at hexact ⊢
    unfold scheme?
    rw [hexact.2, hexact.1, ← hscheme]
    simp [ha]

theorem scheme?_of_slash {a : Char} {rest : List Char} (h : isSlash a = true) :
    scheme? (a :: rest) = none := by
  cases hs : scheme? (a :: rest) with
  | none => rfl
  | some p =>
    obtain ⟨c, s, ht, hc, -, -⟩ := (scheme?_eq_some_iff _ p.1 p.2).mp hs
    rw [List.cons_append] at ht
    rw [(List.cons.inj ht).1, not_slash_of_alpha hc] at h
    cases h

/-- **The reader accepts the references of an origin**, and no other. -/
theorem target_eq_origin_iff (siteScheme scheme host t : List Char) :
    target siteScheme t = .origin scheme host ↔ Spells siteScheme scheme host t := by
  constructor
  · intro h
    rw [target] at h
    cases hs : scheme? t with
    | some p =>
      rw [hs] at h
      have h' : originOf p.1 p.2 = .origin scheme host := h
      have hscheme : p.1 = scheme := by
        rw [originOf] at h'
        cases hauth : authority? p.2 with
        | none => rw [hauth] at h'; cases h'
        | some authority => rw [hauth] at h'; injection h'
      rw [hscheme] at h'
      obtain ⟨a, b, user, hh, tail, hrest, hspell⟩ := (originOf_eq_iff scheme p.2 host).mp h'
      obtain ⟨c, s, rfl, hc, hchars, hlower⟩ := (scheme?_eq_some_iff t p.1 p.2).mp hs
      refine ⟨(c :: s) ++ [':'], a, b, user, hh, tail, ?_, ?_, hspell⟩
      · rw [hrest]
        simp
      · exact .inr ⟨c, s, rfl, hc, hchars, hlower.trans hscheme⟩
    | none =>
      rw [hs] at h
      rcases t with _ | ⟨a, rest⟩
      · cases h
      by_cases ha : isSlash a = true
      · have h' : originOf siteScheme (a :: rest) = .origin scheme host := by
          cases hauth : authority? (a :: rest) with
          | none => simp [relativeTarget, ha, hauth] at h
          | some authority => simpa [relativeTarget, ha, hauth] using h
        have hscheme : siteScheme = scheme := by
          rw [originOf] at h'
          cases hauth : authority? (a :: rest) with
          | none => rw [hauth] at h'; cases h'
          | some authority => rw [hauth] at h'; injection h'
        rw [hscheme] at h'
        obtain ⟨a', b, user, hh, tail, hrest, hspell⟩ :=
          (originOf_eq_iff scheme (a :: rest) host).mp h'
        exact ⟨[], a', b, user, hh, tail, hrest, .inl ⟨rfl, hscheme.symm⟩, hspell⟩
      · simp [relativeTarget, ha] at h
  · rintro ⟨lead, a, b, user, hh, tail, rfl, hlead, ha, hspell⟩
    have horigin : originOf scheme (a :: b :: (user ++ hh ++ tail)) = .origin scheme host :=
      (originOf_eq_iff scheme _ host).mpr ⟨a, b, user, hh, tail, rfl, ha, hspell⟩
    rcases hlead with ⟨rfl, rfl⟩ | ⟨c, s, rfl, hc, hchars, hlower⟩
    · rw [List.nil_append, target, scheme?_of_slash ha]
      cases hauth : authority? (a :: b :: (user ++ hh ++ tail)) with
      | none =>
        rw [originOf, hauth] at horigin
        cases horigin
      | some authority =>
        show relativeTarget scheme (a :: b :: (user ++ hh ++ tail)) = _
        rw [relativeTarget, if_pos ha, hauth]
        exact horigin
    · have hs : scheme? ((c :: s) ++ [':'] ++ a :: b :: (user ++ hh ++ tail)) =
          some (scheme, a :: b :: (user ++ hh ++ tail)) := by
        rw [scheme?_eq_some_iff]
        exact ⟨c, s, by rw [List.append_assoc]; rfl, hc, hchars, hlower⟩
      rw [target, hs]
      exact horigin

/-- The reader takes the paths of the site for paths, and no other. -/
theorem target_eq_site_iff (siteScheme t : List Char) :
    target siteScheme t = .site ↔ SitePath t := by
  have hnot : ∀ scheme rest, originOf scheme rest ≠ .site := by
    intro scheme rest h
    rw [originOf] at h
    cases hauth : authority? rest with
    | none | some => rw [hauth] at h; cases h
  constructor
  · intro h
    rw [target] at h
    cases hs : scheme? t with
    | some p => rw [hs] at h; exact absurd h (hnot _ _)
    | none =>
      rw [hs] at h
      rcases t with _ | ⟨a, rest⟩
      · exact .inl rfl
      by_cases ha : isSlash a = true
      · refine .inr ⟨a, rest, rfl, ha, ?_⟩
        rintro b rest' rfl
        by_contra hb
        rw [Bool.not_eq_false] at hb
        have hauth : authority? (a :: b :: rest') =
            some (rest'.takeWhile (fun c => !endsAuthority c)) := by
          rw [authority?, ha, hb]
          rfl
        simp only [relativeTarget, ha, hauth, Option.isSome_some, if_true] at h
        exact hnot _ _ h
      · simp [relativeTarget, ha] at h
  · rintro (rfl | ⟨a, rest, rfl, ha, hb⟩)
    · rfl
    · have hauth : authority? (a :: rest) = none := by
        rcases rest with _ | ⟨b, rest⟩
        · rfl
        · rw [authority?, hb b rest rfl, Bool.and_false]
          rfl
      rw [target, scheme?_of_slash ha]
      simp [relativeTarget, ha, hauth]

end Url
