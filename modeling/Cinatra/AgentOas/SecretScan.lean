import Cinatra.AgentOas.JwtShape
import Cinatra.AgentOas.LlmBridge
import Cinatra.AgentRuns.RunStore
import Cinatra.Lib.CodeUnits
import Cinatra.Lib.JsonPaths

/-! # SecretScan — literal credentials in an OAS document

    Every string below a scannable key is looked at, at any depth (`mem_walk`).  A token
    with a known prefix is reported wherever the loop over tokens is reached; but a
    placeholder anywhere in the value ends the search before it, and so does a token after
    `Bearer` that reads like a placeholder (`knownToken_reported_iff`). -/

namespace AgentOas

open JsonValue
open CodeUnits (jsSpace trim trim_eq_self trim_parts)

def scannableKeys : List String :=
  ["body", "data", "config", "headers", "params", "system_prompt", "prompt_template",
    "message", "system", "user"]

/-- One of `KNOWN_PREFIX_PATTERNS`: a prefix, and so many characters of a class. -/
structure KnownPrefix where
  name : String
  starts : List String
  body : Char → Bool
  least : Nat

def KnownPrefix.test (p : KnownPrefix) (token : List Char) : Bool :=
  p.starts.any (fun s => s.toList.isPrefixOf token &&
    decide (p.least ≤ (token.drop s.length).length) && (token.drop s.length).all p.body)

def knownPrefixPatterns : List KnownPrefix :=
  [⟨"openai-sk", ["sk-"], base64url, 16⟩,
    ⟨"github-pat", ["gho_", "ghp_", "gha_", "ghs_", "ghr_"], Char.isAlphanum, 20⟩,
    ⟨"google-oauth", ["ya29."], base64url, 20⟩,
    ⟨"slack-token", ["xoxb-", "xoxp-", "xoxa-", "xoxr-", "xoxs-"],
      fun c => c.isAlphanum || c = '-', 16⟩,
    ⟨"aws-access-key", ["AKIA", "ASIA"], fun c => c.isUpper || c.isDigit, 12⟩]

def knownPrefix (token : List Char) : Option String :=
  (knownPrefixPatterns.find? (·.test token)).map KnownPrefix.name

def envChar (c : Char) : Bool := c.isUpper || c.isDigit || c = '_'

/-- An environment name between these, at the head of a text. -/
def enclosed (left right s : List Char) : Bool :=
  let rest := s.drop left.length
  left.isPrefixOf s && rest.takeWhile envChar != [] && right.isPrefixOf (rest.dropWhile envChar)

/-- One of `PLACEHOLDER_PATTERNS` matches. -/
def placeholderPattern (v : List Char) : Bool :=
  let t := trim v
  (['\x7b', '\x7b'].isPrefixOf t && ['\x7d', '\x7d'].isSuffixOf t && decide (4 ≤ t.length)) ||
    v.tails.any (enclosed ['$', '\x7b'] ['\x7d']) ||
    (v.head? = some '$' && v.tail != [] && v.tail.all envChar) ||
    v.tails.any (enclosed ['<'] ['>']) ||
    (t != [] && t.all (· = '*')) ||
    t.map Char.toLower = "redacted".toList

def isPlaceholderValue (v : List Char) : Bool := placeholderPattern (trim v)

/-- `PLACEHOLDER_SUBSTRINGS`. -/
def placeholderSubstrings : List String := ["example", "redacted", "placeholder"]

def isPlaceholderToken (token : List Char) : Bool :=
  placeholderPattern token || placeholderSubstrings.any (fun sub =>
    (token.map Char.toLower).tails.any (sub.toList.isPrefixOf ·))

/-- `TOKEN_SPLIT_RE`. -/
def tokenSplit (c : Char) : Bool :=
  jsSpace c || ",;:|()[]<>\x7b\x7d\"'`".toList.contains c

def tokens (value : List Char) : List (List Char) :=
  (value.splitOnP tokenSplit).filter (· ≠ [])

/-- What stands behind `Bearer`, with nothing else in the value. -/
def bearerInner (value : List Char) : Option (List Char) :=
  let rest := (trim value).drop 6
  let inner := rest.dropWhile jsSpace
  if ((trim value).take 6).map Char.toLower = "bearer".toList ∧ rest.takeWhile jsSpace ≠ [] ∧
      inner ≠ [] ∧ inner.all (fun c => !jsSpace c) = true then some inner
  else none

/-! ## Tokens -/

theorem tokens_append {c : Char} (hc : tokenSplit c = true) (a b : List Char) :
    tokens (a ++ c :: b) = tokens a ++ tokens b := by
  rw [tokens, List.splitOnP_append_cons a b hc, List.filter_append]
  rfl

theorem tokens_behind {pre : List Char} (h : ∀ c ∈ pre, tokenSplit c = true) (s : List Char) :
    tokens (pre ++ s) = tokens s := by
  induction pre with
  | nil => rfl
  | cons c pre ih =>
    rw [← ih (fun d hd => h d (.tail _ hd))]
    exact tokens_append (h c (.head _)) [] (pre ++ s)

theorem tokens_before {post : List Char} (h : ∀ c ∈ post, tokenSplit c = true) (s : List Char) :
    tokens (s ++ post) = tokens s := by
  cases post with
  | nil => rw [List.append_nil]
  | cons c post =>
    have hnone := tokens_behind (fun d hd => h d (.tail _ hd)) []
    rw [List.append_nil] at hnone
    rw [tokens_append (h c (.head _)), hnone]
    exact List.append_nil _

theorem length_le_of_mem_splitOnP {p : Char → Bool} {t s : List Char} (h : t ∈ s.splitOnP p) :
    t.length ≤ s.length := by
  induction s generalizing t with
  | nil => simp_all
  | cons c s ih =>
    rw [List.splitOnP_cons_eq_if_modifyHead] at h
    obtain ⟨q, qs, hq⟩ := List.exists_cons_of_ne_nil (List.splitOnP_ne_nil p s)
    rw [hq] at h ih
    split at h
    · rcases List.mem_cons.mp h with rfl | h
      · exact Nat.zero_le _
      · exact Nat.le_succ_of_le (ih h)
    · rcases List.mem_cons.mp h with rfl | h
      · exact Nat.succ_le_succ (ih (.head _))
      · exact Nat.le_succ_of_le (ih (.tail _ h))

theorem length_of_knownPrefix {t : List Char} (h : knownPrefix t ≠ none) : 12 ≤ t.length := by
  have hleast : ∀ p ∈ knownPrefixPatterns, 12 ≤ p.least := by simp [knownPrefixPatterns]
  rw [knownPrefix, ne_eq, Option.map_eq_none_iff, List.find?_eq_none] at h
  push Not at h
  obtain ⟨p, hp, htest⟩ := h
  obtain ⟨s, -, hs⟩ := List.any_eq_true.mp htest
  simp only [Bool.and_eq_true, decide_eq_true_eq, List.length_drop] at hs
  have := hleast p hp
  omega

theorem bearerInner_shape {value inner : List Char} (h : bearerInner value = some inner) :
    ∃ pre word blank post, value = pre ++ ((word ++ (blank ++ inner)) ++ post) ∧
      word.length ≤ 6 ∧ blank ≠ [] ∧ (∀ d ∈ inner, jsSpace d = false) ∧
      ∀ d ∈ blank ++ (pre ++ post), jsSpace d = true := by
  obtain ⟨⟨-, hblank, -, hclean⟩, heq⟩ := Option.ite_none_right_eq_some.mp h
  cases heq
  obtain ⟨pre, post, hvalue, hspace⟩ := trim_parts value
  refine ⟨pre, _, _, post, ?_, List.length_take_le 6 (trim value), hblank, by simpa using hclean,
    fun d hd => ?_⟩
  · rw [List.takeWhile_append_dropWhile, List.take_append_drop]
    exact hvalue
  · rcases List.mem_append.mp hd with hd | hd
    · exact List.mem_takeWhile_imp hd
    · exact hspace d hd

theorem bearer_token {value inner t : List Char} (h : bearerInner value = some inner)
    (ht : t ∈ tokens value) (hlen : 6 < t.length) : t ∈ tokens inner := by
  obtain ⟨pre, word, blank, post, rfl, hword, hne, -, hspace⟩ := bearerInner_shape h
  obtain ⟨c, mid, rfl⟩ := List.exists_cons_of_ne_nil hne
  have hsep : ∀ d ∈ c :: mid ++ (pre ++ post), tokenSplit d = true := by
    intro d hd
    rw [tokenSplit, hspace d hd, Bool.true_or]
  rw [tokens_behind (fun d hd => hsep d (by simp [hd])),
    tokens_before (fun d hd => hsep d (by simp [hd])), List.cons_append,
    tokens_append (hsep c (.head _)), tokens_behind (fun d hd => hsep d (by simp [hd])),
    List.mem_append] at ht
  refine ht.resolve_left fun hin => ?_
  have := length_le_of_mem_splitOnP (List.mem_filter.mp hin).1
  omega

/-! ## The scan -/

section Scan

-- the entropy of a token is a sum of logarithms
variable (highEntropy : List Char → Bool)

def scoreToken (token : List Char) : Option String :=
  (knownPrefix token).or
    (if isPlaceholderToken token = false ∧ 24 ≤ AgentRuns.jsLength token ∧
        highEntropy token = true then some "high-entropy-token"
    else none)

def reportedJwt (value : List Char) : Bool :=
  (matchJwtShape value).any (fun m => !isPlaceholderToken m)

def detectCredentialPattern (value : List Char) : Option String :=
  if value = [] ∨ isPlaceholderValue value = true then none
  else if reportedJwt value = true then some "jwt"
  else
    match _h : bearerInner value with
    | some inner => if isPlaceholderToken inner then none else detectCredentialPattern inner
    | none => (tokens value).findSome? (scoreToken highEntropy)
termination_by value.length
decreasing_by
  obtain ⟨pre, word, blank, post, rfl, -, hne, -⟩ := bearerInner_shape ‹_›
  have := List.length_pos_iff.mpr hne
  simp only [List.length_append]
  omega

def itemPath (path : String) (i : Nat) : String := path ++ "[" ++ toString i ++ "]"

def childPath (path k : String) : String := if path = "" then k else path ++ "." ++ k

mutual
/-- The values the walk visits, each with its path. -/
def walkOasForScannableStrings (path : String) (scanThisLevel : Bool) :
    Json → List (String × String)
  | .str s => if scanThisLevel then [(s, path)] else []
  | .arr xs => walkItems path scanThisLevel 0 xs
  | .obj fs => walkFields path scanThisLevel fs
  | _ => []

def walkItems (path : String) (scanThisLevel : Bool) (i : Nat) : List Json → List (String × String)
  | [] => []
  | x :: xs => walkOasForScannableStrings (itemPath path i) scanThisLevel x ++
      walkItems path scanThisLevel (i + 1) xs

def walkFields (path : String) (scanThisLevel : Bool) : Record → List (String × String)
  | [] => []
  | (k, v) :: fs =>
    walkOasForScannableStrings (childPath path k) (scanThisLevel || scannableKeys.contains k) v ++
      walkFields path scanThisLevel fs
end

def literalCredential (path pattern : String) : ReviewFinding where
  code := "literal_credential_detected"
  severity := "blocker"
  message := "literal credential detected at " ++ path ++ ": pattern=" ++ pattern
  location := path
  source := "deterministic"

def scanOasForLiteralSecrets (parsed : Record) : List ReviewFinding :=
  (walkOasForScannableStrings "" false (.obj parsed)).filterMap (fun visit =>
    (detectCredentialPattern highEntropy visit.1.toList).map (literalCredential visit.2))

/-! ## What the scan reports -/

/-- The text of a path. -/
def location (path : String) : List Step → String
  | [] => path
  | .field k :: p => location (childPath path k) p
  | .item i :: p => location (itemPath path i) p

variable {visit : String × String} {path : String} {scan : Bool} {w : Json}

theorem mem_walkItems {xs : List Json} {i : Nat} (hget : xs[i]? = some w) (n : Nat)
    (h : visit ∈ walkOasForScannableStrings (itemPath path (i + n)) scan w) :
    visit ∈ walkItems path scan n xs := by
  induction xs generalizing i n with
  | nil => cases hget
  | cons x xs ih =>
    rw [walkItems, List.mem_append]
    cases i with
    | zero =>
      cases hget
      exact .inl (Nat.zero_add n ▸ h)
    | succ i => exact .inr (ih hget (n + 1) (Nat.succ_add_eq_add_succ i n ▸ h))

theorem mem_walkFields {fs : Record} {k : String} (hmem : (k, w) ∈ fs)
    (h : visit ∈ walkOasForScannableStrings (childPath path k)
      (scan || scannableKeys.contains k) w) : visit ∈ walkFields path scan fs := by
  induction fs with
  | nil => cases hmem
  | cons f fs ih =>
    rw [walkFields, List.mem_append]
    rcases List.mem_cons.mp hmem with rfl | hmem
    · exact .inl h
    · exact .inr (ih hmem)

theorem mem_walk {v u : Json} {p : List Step} (h : Reaches v p u) {value : String}
    (hu : u = .str value) (path : String) (scan : Bool)
    (hscan : scan = true ∨ ∃ k ∈ scannableKeys, .field k ∈ p) :
    (value, location path p) ∈ walkOasForScannableStrings path scan v := by
  induction h generalizing path scan with
  | here v =>
    have hscan : scan = true := hscan.resolve_right (by simp)
    subst hu hscan
    exact .head _
  | field hmem hrest ih =>
    refine mem_walkFields hmem (ih hu _ _ ?_)
    rcases hscan with rfl | ⟨k, hk, hin⟩
    · exact .inl (Bool.true_or _)
    rcases List.mem_cons.mp hin with heq | hin
    · cases heq
      exact .inl (by simp [hk])
    · exact .inr ⟨k, hk, hin⟩
  | item hget hrest ih =>
    refine mem_walkItems hget 0 (ih hu _ _ (hscan.imp_right ?_))
    rintro ⟨k, hk, hin⟩
    exact ⟨k, hk, (List.mem_cons.mp hin).resolve_left (by simp)⟩

theorem findSome_knownToken {value t : List Char} (ht : t ∈ tokens value)
    (hknown : knownPrefix t ≠ none) : (tokens value).findSome? (scoreToken highEntropy) ≠ none := by
  intro hnone
  have hscore := List.findSome?_eq_none_iff.mp hnone t ht
  exact hknown (Option.or_eq_none_iff.mp hscore).1

theorem detect_inner {inner t : List Char} (ht : t ∈ tokens inner) (hknown : knownPrefix t ≠ none)
    (hclean : ∀ d ∈ inner, jsSpace d = false) (hplain : isPlaceholderToken inner = false) :
    detectCredentialPattern highEntropy inner ≠ none := by
  have hvalue : isPlaceholderValue inner = false := by
    rw [isPlaceholderValue, trim_eq_self hclean]
    exact (Bool.or_eq_false_iff.mp hplain).1
  have hne : inner ≠ [] := by
    rintro rfl
    cases ht
  rw [detectCredentialPattern, if_neg (by simp [hne, hvalue])]
  split
  · exact Option.some_ne_none _
  split
  next inner' hbearer =>
    obtain ⟨pre, word, blank, post, rfl, -, hne, -, hspace⟩ := bearerInner_shape hbearer
    obtain ⟨c, mid, rfl⟩ := List.exists_cons_of_ne_nil hne
    have hc := hclean c (by simp)
    rw [hspace c (.head _)] at hc
    cases hc
  next => exact findSome_knownToken highEntropy ht hknown

theorem detect_knownToken {value t : List Char} (ht : t ∈ tokens value)
    (hknown : knownPrefix t ≠ none) : (∃ pattern,
      detectCredentialPattern highEntropy value = some pattern) ↔
      isPlaceholderValue value = false ∧ (reportedJwt value = true ∨
        ∀ inner, bearerInner value = some inner → isPlaceholderToken inner = false) := by
  have hne : value ≠ [] := by
    rintro rfl
    cases ht
  rw [← Option.ne_none_iff_exists', detectCredentialPattern]
  by_cases hplace : isPlaceholderValue value = true
  · simp [hplace]
  by_cases hjwt : reportedJwt value = true
  · simp [hplace, hjwt, hne]
  rw [if_neg (by simp [hplace, hne]), if_neg hjwt]
  simp only [Bool.not_eq_true] at hplace hjwt
  split
  next inner hbearer =>
    simp only [hplace, hjwt, hbearer, true_and, Bool.false_eq_true, false_or, Option.some.injEq,
      forall_eq']
    have hlen := length_of_knownPrefix hknown
    obtain ⟨-, -, -, -, -, -, -, hclean, -⟩ := bearerInner_shape hbearer
    cases hplain : isPlaceholderToken inner with
    | true => simp
    | false =>
      have := detect_inner highEntropy (bearer_token hbearer ht (by omega)) hknown hclean hplain
      simpa using this
  next hbearer =>
    simp [hplace, hjwt, hbearer, findSome_knownToken highEntropy ht hknown]

/-- When the known token in a value under a scannable key is reported. -/
theorem knownToken_reported_iff {parsed : Record} {p : List Step} {value : String} {t : List Char}
    (hreach : Reaches (.obj parsed) p (.str value)) (hkey : ∃ k ∈ scannableKeys, .field k ∈ p)
    (ht : t ∈ tokens value.toList) (hknown : knownPrefix t ≠ none) : (∃ pattern,
      detectCredentialPattern highEntropy value.toList = some pattern ∧
        literalCredential (location "" p) pattern ∈ scanOasForLiteralSecrets highEntropy parsed) ↔
      isPlaceholderValue value.toList = false ∧ (reportedJwt value.toList = true ∨
        ∀ inner, bearerInner value.toList = some inner → isPlaceholderToken inner = false) := by
  rw [← detect_knownToken highEntropy ht hknown]
  refine exists_congr fun pattern => and_iff_left_of_imp fun hpattern => ?_
  exact List.mem_filterMap.mpr ⟨_, mem_walk hreach rfl "" false (.inr hkey), by
    rw [hpattern]
    rfl⟩

end Scan

theorem githubPat_reported :
    let value := "Bearer gho_aaaaaaaaaaaaaaaaaaaa"
    let parsed : Record := [("config", .obj [("token", .str value)])]
    ∃ pattern, detectCredentialPattern (fun _ => false) value.toList = some pattern ∧
      literalCredential "config.token" pattern ∈
        scanOasForLiteralSecrets (fun _ => false) parsed :=
  (knownToken_reported_iff _
    (.field (.head _) (.field (.head _) (.here _))) ⟨"config", by decide, .head _⟩
    (t := "gho_aaaaaaaaaaaaaaaaaaaa".toList) (by decide) (by decide)).mpr
    ⟨by decide, .inr (by decide)⟩

/-- The key of an environment variable in a text hides the token behind it. -/
theorem maskedToken_missed :
    let value := "key=$\x7bX\x7d sk-aaaaaaaaaaaaaaaaaaaa"
    (∃ t ∈ tokens value.toList, knownPrefix t ≠ none) ∧
      ∀ highEntropy, scanOasForLiteralSecrets highEntropy [("body", .str value)] = [] := by
  refine ⟨⟨"sk-aaaaaaaaaaaaaaaaaaaa".toList, by decide, by decide⟩, fun highEntropy => ?_⟩
  have hnone : detectCredentialPattern highEntropy
      "key=$\x7bX\x7d sk-aaaaaaaaaaaaaaaaaaaa".toList = none := by
    rw [detectCredentialPattern, if_pos (by decide)]
  exact List.filterMap_eq_nil_iff.mpr fun visit hvisit => by
    rw [List.mem_singleton.mp hvisit, hnone]
    rfl

end AgentOas
