import Cinatra.Workflows.Rows

/-! # Host — what the engine takes from its platform

    The functions of Node, `date-fns` and `Intl` the workflow package calls and
    whose code is not part of it.  They are parameters of the model; a result
    that relies on one of them says so in a hypothesis.  An instant that is no
    date (`NaN`) is `none`. -/

namespace WfHost

open WfRows

/-- A parsed ISO 8601 duration. -/
structure Duration where
  years : Nat := 0
  months : Nat := 0
  weeks : Nat := 0
  days : Nat := 0
  hours : Nat := 0
  minutes : Nat := 0
  seconds : Nat := 0
deriving DecidableEq

structure Host where
  /-- `createHash("sha256").update(s).digest("hex")`. -/
  sha256 : List Char → String
  /-- `a.localeCompare(b) <= 0`. -/
  localeLe : String → String → Bool
  /-- `s.toLowerCase()`. -/
  toLowerCase : String → String
  /-- `Date.parse(s)`. -/
  dateParse : String → Option Instant
  /-- `new TZDate(y, mo - 1, d, h, mi, s, tz).getTime()`. -/
  zonedDate : (y mo d h mi s : Nat) → (tz : String) → Option Instant
  /-- `add(date, duration)`, in a zone or in the server's own. -/
  add : Option String → Instant → Duration → Option Instant
  /-- `sub(date, duration)`, in a zone or in the server's own. -/
  sub : Option String → Instant → Duration → Option Instant
  /-- `setHours(h, mi, 0, 0)` in a zone. -/
  setHours : Instant → (h mi : Nat) → (tz : String) → Option Instant
  /-- `new Intl.DateTimeFormat("en-US", { timeZone: tz })` does not throw. -/
  isValidTimeZone : String → Bool

/-! ## ISO 8601 texts -/

def digitValue (c : Char) : Nat := c.toNat - '0'.toNat

/-- The number a run of digits spells. -/
def number (ds : List Char) : Nat :=
  ds.foldl (fun n c => 10 * n + digitValue c) 0

/-- One optional `(\d+)X` group: its value, 0 when it is not there. -/
def durationGroup (unit : Char) (cs : List Char) : Nat × List Char :=
  let ds := cs.takeWhile Char.isDigit
  match cs.dropWhile Char.isDigit with
  | c :: rest => if ds ≠ [] ∧ c = unit then (number ds, rest) else (0, cs)
  | [] => (0, cs)

/-- The groups after `T`. -/
def parseTimePart (d : Duration) (cs : List Char) : Option Duration :=
  let (h, cs) := durationGroup 'H' cs
  let (m, cs) := durationGroup 'M' cs
  let (s, cs) := durationGroup 'S' cs
  if cs = [] then some { d with hours := h, minutes := m, seconds := s } else none

def parseIsoDuration (value : String) : Option Duration :=
  match value.toList with
  | 'P' :: cs =>
    let (y, cs) := durationGroup 'Y' cs
    let (mo, cs) := durationGroup 'M' cs
    let (w, cs) := durationGroup 'W' cs
    let (d, cs) := durationGroup 'D' cs
    let date : Duration := { years := y, months := mo, weeks := w, days := d }
    match cs with
    | [] => some date
    | 'T' :: rest => parseTimePart date rest
    | _ => none
  | _ => none

/-- Two digits in a row. -/
def twoDigits : List Char → Option (Nat × List Char)
  | a :: b :: rest => if a.isDigit && b.isDigit then some (number [a, b], rest) else none
  | _ => none

def literal (c : Char) : List Char → Option (List Char)
  | d :: rest => if c = d then some rest else none
  | [] => none

/-- `…Z` or `…±hh:mm`. -/
def hasOffset (iso : String) : Bool :=
  match iso.toList.reverse with
  | 'Z' :: _ => true
  | m₂ :: m₁ :: ':' :: h₂ :: h₁ :: sign :: _ =>
    (sign = '+' || sign = '-') && [m₁, m₂, h₁, h₂].all Char.isDigit
  | _ => false

/-- The leading `yyyy-MM-ddThh:mm[:ss]` of a datetime. -/
def dateComponents (iso : String) : Option (Nat × Nat × Nat × Nat × Nat × Nat) := do
  let (y₁, cs) ← twoDigits iso.toList
  let (y₂, cs) ← twoDigits cs
  let (mo, cs) ← twoDigits (← literal '-' cs)
  let (d, cs) ← twoDigits (← literal '-' cs)
  let (h, cs) ← twoDigits (← literal 'T' cs)
  let (mi, cs) ← twoDigits (← literal ':' cs)
  let s := ((literal ':' cs).bind twoDigits).map Prod.fst
  return (100 * y₁ + y₂, mo, d, h, mi, s.getD 0)

/-- A datetime as an instant: absolute with an offset, wall clock in `tz`
    without one. -/
def parseInstantMs (host : Host) (iso tz : String) : Option Instant :=
  if hasOffset iso then host.dateParse iso
  else match dateComponents iso with
    | none => host.dateParse iso
    | some (y, mo, d, h, mi, s) => host.zonedDate y mo d h mi s tz

/-- Lexicographic order of lower-case ASCII texts. -/
def asciiLe : List Char → List Char → Bool
  | [], _ => true
  | _ :: _, [] => false
  | a :: as, b :: bs => if a = b then asciiLe as bs else a.toNat < b.toNat

/-- Plain lower-case texts, every instant the epoch; the digest is the text itself. -/
def plainHost : Host where
  sha256 := String.ofList
  localeLe := fun a b => asciiLe a.toList b.toList
  toLowerCase := id
  dateParse := fun _ => some 0
  zonedDate := fun _ _ _ _ _ _ _ => some 0
  add := fun _ ms _ => some ms
  sub := fun _ ms _ => some ms
  setHours := fun ms _ _ _ => some ms
  isValidTimeZone := fun _ => true

end WfHost
