import Cinatra.Lib.Doubles
import Cinatra.Workflows.Host
import Mathlib.Algebra.Order.Round

/-! # Durations — milliseconds written as an ISO 8601 text

    The store writes a distance in time with its zero parts left out; the schema of the
    specification and the resolver read such texts by two expressions of their own.  The
    store divides in doubles, which is exact to the second for a distance between two
    dates (`msToIsoDuration_read`). -/

namespace WfHost

open Doubles

/-- `` `${n}X` ``, for a positive part. -/
def durationPart (n : Nat) (unit : Char) : List Char :=
  if 0 < n then Nat.toDigits 10 n ++ [unit] else []

/-- The text of `msToIsoDuration` from its parts. -/
def durationText (days hours minutes seconds : Nat) : List Char :=
  let out := 'P' :: durationPart days 'D'
  if 0 < hours ∨ 0 < minutes ∨ 0 < seconds ∨ out = ['P'] then
    let out := out ++ 'T' :: (durationPart hours 'H' ++ durationPart minutes 'M')
    if 0 < seconds ∨ out = ['P', 'T'] then out ++ (Nat.toDigits 10 seconds ++ ['S']) else out
  else out

def msToIsoDuration (absMs : ℚ) : String :=
  if absMs ≤ 0 then "PT0S" else
    let s : ℚ := round (fl (absMs / 1000))
    let days := ⌊fl (s / 86400)⌋
    let s := fl (s - fl (days * 86400))
    let hours := ⌊fl (s / 3600)⌋
    let s := fl (s - fl (hours * 3600))
    let minutes := ⌊fl (s / 60)⌋
    let seconds := fl (s - fl (minutes * 60))
    String.ofList (durationText days.toNat hours.toNat minutes.toNat ⌊seconds⌋.toNat)

/-- `ISO_DURATION_RE`: something follows the `P`, and a digit follows the `T`. -/
def isoDurationSchema (value : String) : Bool :=
  match value.toList with
  | 'P' :: cs =>
    cs ≠ [] && match (durationGroup 'D' (durationGroup 'W' (durationGroup 'M'
        (durationGroup 'Y' cs).2).2).2).2 with
      | [] => true
      | 'T' :: rest => rest.head?.any Char.isDigit && (parseTimePart {} rest).isSome
      | _ => false
  | _ => false

variable {n : Nat} {unit written : Char} {rest : List Char}

theorem durationGroup_written (hunit : written.isDigit = false) :
    durationGroup unit (Nat.toDigits 10 n ++ written :: rest) =
      if written = unit then (n, rest) else (0, Nat.toDigits 10 n ++ written :: rest) := by
  have hdigits : ∀ c ∈ Nat.toDigits 10 n, c.isDigit = true :=
    fun c hc => Nat.isDigit_of_mem_toDigits (by decide) (by decide) hc
  have hnumber : number (Nat.toDigits 10 n) = n := Nat.ofDigitChars_toDigits (by decide) (by decide)
  rw [durationGroup, List.takeWhile_append_of_pos hdigits, List.dropWhile_append_of_pos hdigits]
  simp [hunit, hnumber]

@[simp] theorem durationGroup_nil : durationGroup unit [] = (0, []) := rfl

@[simp] theorem durationGroup_time : durationGroup unit ('T' :: rest) = (0, 'T' :: rest) := by
  simp [durationGroup]

theorem head_written : ((Nat.toDigits 10 n).head?.getD unit).isDigit = true := by
  cases hdigits : Nat.toDigits 10 n with
  | nil => exact absurd hdigits Nat.toDigits_ne_nil
  | cons c cs =>
    have hmem : c ∈ Nat.toDigits 10 n := by simp [hdigits]
    exact Nat.isDigit_of_mem_toDigits (by decide) (by decide) hmem

theorem written_ne : Nat.toDigits 10 n ++ rest ≠ ['T'] := by
  intro h
  have hdigit : ((Nat.toDigits 10 n).head?.getD 'T').isDigit = true := head_written
  cases hdigits : Nat.toDigits 10 n with
  | nil => exact absurd hdigits Nat.toDigits_ne_nil
  | cons c cs =>
    rw [hdigits] at hdigit h
    rw [(List.cons.inj h).1] at hdigit
    cases hdigit

theorem durationText_read (days hours minutes seconds : Nat) :
    isoDurationSchema (String.ofList (durationText days hours minutes seconds)) = true ∧
    parseIsoDuration (String.ofList (durationText days hours minutes seconds)) =
      some { days := days, hours := hours, minutes := minutes, seconds := seconds } := by
  rcases Nat.eq_zero_or_pos days with rfl | hdays <;>
  rcases Nat.eq_zero_or_pos hours with rfl | hhours <;>
  rcases Nat.eq_zero_or_pos minutes with rfl | hminutes <;>
  rcases Nat.eq_zero_or_pos seconds with rfl | hseconds <;> try decide
  all_goals
    simp [durationText, durationPart, isoDurationSchema, parseIsoDuration, parseTimePart,
      durationGroup_written, head_written, written_ne, *]

/-- The text of `m` milliseconds is accepted, and denotes their seconds, rounded. -/
def ReadsBack (m : ℕ) : Prop :=
  isoDurationSchema (msToIsoDuration m) = true ∧
    ∃ d, parseIsoDuration (msToIsoDuration m) = some d ∧ d.years = 0 ∧ d.months = 0 ∧
      (((d.weeks * 7 + d.days) * 24 + d.hours) * 60 + d.minutes) * 60 + d.seconds =
        (m + 500) / 1000

/-- The greatest distance between two dates, in milliseconds. -/
def maxDistance : ℕ := 17280000000000000

variable {m : ℕ}

theorem round_seconds (hm : m ≤ maxDistance) : round (fl (m / 1000)) = ((m + 500) / 1000 : ℕ) := by
  have herr : |fl (m / 1000) - m / 1000| < 1 / 1000 := by
    refine (fl_near (k := 44) ?_ (by norm_num)).trans_lt (by norm_num)
    rw [abs_of_nonneg (by positivity), div_lt_iff₀ (by norm_num)]
    exact_mod_cast hm.trans_lt (by decide)
  have hle : ∀ n : ℕ, n ≤ (m + 500) / 1000 + 1 →
      ((n : ℚ) ≤ fl (m / 1000) + 1 / 2 ↔ n * 1000 ≤ m + 500) := by
    intro n hn
    have hbits : |2 * (n : ℤ) - 1| < 2 ^ 53 := by
      rw [maxDistance] at hm
      rw [abs_lt]
      omega
    have hhalf : (((n * 1000 - 500 : ℤ) : ℚ)) / (1000 : ℕ) = n - 1 / 2 := by
      push_cast
      ring
    have hdouble : fl (n - 1 / 2 : ℚ) = n - 1 / 2 := by
      have h := fl_exact (2 * n - 1) (j := -1) hbits (by norm_num)
      have he : ((2 * n - 1 : ℤ) : ℚ) * 2 ^ (-1 : ℤ) = n - 1 / 2 := by
        push_cast
        ring
      rwa [he] at h
    have h := le_fl_div (a := m) (c := n * 1000 - 500) (b := 1000) (by norm_num)
      (by rw [hhalf, hdouble]) (by simpa using herr)
    rw [hhalf, sub_le_iff_le_add] at h
    push_cast at h
    rw [h]
    omega
  rw [round_eq, Int.floor_eq_iff]
  refine ⟨?_, lt_of_not_ge fun h => ?_⟩
  · exact_mod_cast (hle _ (by omega)).mpr (Nat.div_mul_le_self _ _)
  · have hover := (hle ((m + 500) / 1000 + 1) le_rfl).mp (by exact_mod_cast h)
    omega

/-- The doubles of the store split whole seconds as whole numbers do. -/
theorem msToIsoDuration_parts (hm : m ≤ maxDistance) (hpos : 0 < m) {s : ℕ}
    (hs : (m + 500) / 1000 = s) :
    msToIsoDuration m = String.ofList (durationText (s / 86400) (s % 86400 / 3600)
      (s % 86400 % 3600 / 60) (s % 86400 % 3600 % 60)) := by
  rw [msToIsoDuration, if_neg (by exact_mod_cast (by omega : ¬ m ≤ 0)), round_seconds hm, hs]
  have hsmall : s ≤ 17280000000001 := by
    rw [maxDistance] at hm
    omega
  have hday : s % 86400 < 86400 := Nat.mod_lt _ (by decide)
  have hhour : s % 86400 % 3600 < 3600 := Nat.mod_lt _ (by decide)
  have hdays := floor_fl_div (a := s) (b := 86400) 28 (by norm_num) (by omega) (by norm_num)
  have hhours := floor_fl_div (a := s % 86400) (b := 3600) 5 (by norm_num) (by omega) (by norm_num)
  have hminutes := floor_fl_div (a := s % 86400 % 3600) (b := 60) 6 (by norm_num) (by omega)
    (by norm_num)
  have hdayRest := fl_rest (a := s) 86400 (by omega)
  have hhourRest := fl_rest (a := s % 86400) 3600 (by omega)
  have hminuteRest := fl_rest (a := s % 86400 % 3600) 60 (by omega)
  simp only [Nat.cast_ofNat] at hdays hhours hminutes hdayRest hhourRest hminuteRest
  simp only [Int.cast_natCast, hdays, hdayRest, hhours, hhourRest, hminutes, hminuteRest,
    Int.floor_natCast, Int.toNat_natCast]

/-- **A written distance is accepted, and read back to the second.** -/
theorem msToIsoDuration_read (hm : m ≤ maxDistance) : ReadsBack m := by
  rcases Nat.eq_zero_or_pos m with rfl | hpos
  · exact ⟨by decide, {}, by decide, rfl, rfl, rfl⟩
  obtain ⟨hschema, hread⟩ := durationText_read ((m + 500) / 1000 / 86400)
    ((m + 500) / 1000 % 86400 / 3600) ((m + 500) / 1000 % 86400 % 3600 / 60)
    ((m + 500) / 1000 % 86400 % 3600 % 60)
  rw [ReadsBack, msToIsoDuration_parts hm hpos rfl]
  refine ⟨hschema, _, hread, rfl, rfl, ?_⟩
  dsimp only
  omega

theorem msToIsoDuration_read_longest : ReadsBack 17280000000000000 :=
  msToIsoDuration_read (by decide)

/-- A longer one is off by a second: the seconds are no double. -/
theorem msToIsoDuration_rounds :
    fl 9007199254740993024 = 9007199254740993024 ∧ ¬ ReadsBack 9007199254740993024 := by
  refine ⟨by decide +kernel, ?_⟩
  rintro ⟨-, d, hd, -, -, hsum⟩
  have hread : parseIsoDuration (msToIsoDuration (9007199254740993024 : ℕ)) =
      some { days := 104249991374, hours := 7, minutes := 36, seconds := 34 } := by
    decide +kernel
  rw [hread] at hd
  cases hd
  exact absurd hsum (by decide)

end WfHost
