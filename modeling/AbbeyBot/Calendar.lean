import Mathlib
import AbbeyBot.Library.CivilDate
import AbbeyBot.Library.Result
import AbbeyBot.Work.Types

/-! # Calendar

Time is UTC seconds since 1970. `utc` admits the instants that stay within the calendar of the date
library with two days to spare. The IANA time zones are outside: `Zones` is what is used of them, and
all that is assumed is that a local time is less than a day away from UTC. -/

namespace AbbeyBot.Calendar

open AbbeyBot.Library.CivilDate AbbeyBot.Library.Result AbbeyBot.Work.Types

/-- What a local time may stand for. -/
inductive LocalResult where
  | single (at_ : ℤ)
  | ambiguous (first second : ℤ)
  | none

/-- The time zone database. -/
structure Zones where
  Tz : Type
  /-- A zone by its IANA name. -/
  parseTz : String → Option Tz
  /-- Seconds east of UTC at an instant. -/
  offset : Tz → ℕ → ℤ
  offset_bounds : ∀ tz t, -86400 < offset tz t ∧ offset tz t < 86400
  /-- The instants at which the clocks of the zone show a local time. -/
  fromLocal : Tz → ℤ → LocalResult

/-- The database that knows UTC alone. -/
def utcZones : Zones where
  Tz := Unit
  parseTz name := if name = "UTC" then some () else none
  offset _ _ := 0
  offset_bounds _ _ := by decide
  fromLocal _ seconds := .single seconds

/-- The last second that is two days before the end of the calendar. -/
def lastInstant : ℕ := 8210266876799 - 2 * 86400

/-- The instants `utc` admits. -/
def IsInstant (seconds : ℕ) : Prop := seconds ≤ lastInstant

instance (seconds : ℕ) : Decidable (IsInstant seconds) := inferInstanceAs (Decidable (_ ≤ _))

/-- `utc`. -/
def utc (seconds : ℕ) : Except WorkError Unit := ensure (IsInstant seconds) .invalid

@[simp] theorem utc_eq_ok {seconds : ℕ} {u : Unit} : utc seconds = .ok u ↔ IsInstant seconds :=
  ensure_eq_ok

/-- The date of an instant. -/
def utcDay (seconds : ℕ) : ℤ := (seconds : ℤ) / 86400

/-- The local date of an instant. -/
def localDay (Z : Zones) (tz : Z.Tz) (seconds : ℕ) : ℤ := (seconds + Z.offset tz seconds) / 86400

/-- The hour on the local clock. -/
def localHourOf (Z : Zones) (tz : Z.Tz) (seconds : ℕ) : ℕ :=
  ((seconds + Z.offset tz seconds) % 86400 / 3600).toNat

/-- The loop of `local_hour`: the instant of the first local minute that the clocks show, the earlier
one where they show it twice. -/
def localMinute (Z : Zones) (tz : Z.Tz) : ℕ → ℤ → Except WorkError ℤ
  | 0, _ => .error .invalid
  | steps + 1, seconds =>
    match Z.fromLocal tz seconds with
    | .single at_ => return at_
    | .ambiguous first second => return min first second
    | .none => do
      ensure (InRange ((seconds + 60) / 86400)) .invalid
      localMinute Z tz steps (seconds + 60)

/-- `local_hour`. -/
def localHour (Z : Zones) (tz : Z.Tz) (day : ℤ) (hour : ℕ) : Except WorkError ℤ := do
  ensure (hour < 24) .invalid
  localMinute Z tz 1441 (86400 * day + 3600 * hour)

/-- Local dates are at most a day away from the date of the instant. -/
theorem localDay_bounds (Z : Zones) (tz : Z.Tz) (seconds : ℕ) :
    utcDay seconds - 1 ≤ localDay Z tz seconds ∧ localDay Z tz seconds ≤ utcDay seconds + 1 := by
  have h := Z.offset_bounds tz seconds
  unfold utcDay localDay
  omega

/-- The years of the days around an instant are within the calendar. -/
theorem inRange_of_isInstant {seconds : ℕ} (hs : IsInstant seconds) {d : ℤ}
    (hd : utcDay seconds - 8 ≤ d ∧ d ≤ utcDay seconds + 1) : InRange d := by
  have hday : 0 ≤ utcDay seconds ∧ utcDay seconds ≤ 95026234 := by
    unfold IsInstant lastInstant at hs
    unfold utcDay
    omega
  obtain ⟨hlo, hhi⟩ := yearOf_spec d
  unfold yearStart at hlo hhi
  constructor <;> omega

end AbbeyBot.Calendar
