import Cinatra.AgentRuns.TriggerService

/-! # WallClock — the instant of a picked time

    `naiveDatetimeToUtcMs` asks for the offset of the zone once, at the instant that
    shows the picked time in UTC.  Where the offset is another one at the instant it
    returns, the clock of the zone does not show the picked time there. -/

namespace AgentRuns.Triggers

/-- What the clock of a zone shows, as a UTC time; the zone is its offset in minutes. -/
def wallClock (zone : Int → Int) (ms : Int) : Int := ms + 60000 * zone ms

/-- The parts of an instant are those its clock shows, and are read back as such. -/
def PartsShow (host : TriggerHost) (timezone : String) (zone : Int → Int) (ms : Int) : Prop :=
  ∃ year month day rawHour minute second,
    host.formatToParts timezone ms = .ok (year, month, day, rawHour, minute, second) ∧
    host.parseDate (year ++ "-" ++ month ++ "-" ++ day ++ "T" ++
      (if rawHour = "24" then "00" else rawHour) ++ ":" ++ minute ++ ":" ++ second ++ "Z") =
        some (wallClock zone ms)

theorem naiveDatetimeToUtcMs_eq {host : TriggerHost} {naive timezone : String} {zone : Int → Int}
    {asUtcMs : Int} (hparse : host.parseDate
      ((if jsLength naive.toList = 16 then naive ++ ":00" else naive) ++ "Z") = some asUtcMs)
    (hshows : PartsShow host timezone zone asUtcMs) :
    naiveDatetimeToUtcMs host naive timezone = .ok (some (asUtcMs - 60000 * zone asUtcMs)) := by
  obtain ⟨year, month, day, rawHour, minute, second, hparts, hread⟩ := hshows
  have hoffset : asUtcMs + (asUtcMs - wallClock zone asUtcMs) = asUtcMs - 60000 * zone asUtcMs := by
    rw [wallClock]
    omega
  simp only [naiveDatetimeToUtcMs, hparse, hparts, hread, Option.map_some, hoffset]

/-- New York about the eighth of March 2026, when its clocks go on at seven in UTC. -/
def newYork (ms : Int) : Int := if ms < 1772953200000 then -300 else -240

def newYorkHost : TriggerHost where
  parseDate text :=
    if text = "2026-03-08T03:30:00Z" then some 1772940600000
    else if text = "2026-03-07T22:30:00Z" then some 1772922600000
    else if text = "2026-03-09T03:30:00Z" then some 1773027000000
    else if text = "2026-03-08T23:30:00Z" then some 1773012600000
    else none
  formatToParts _ ms := .ok
    (if ms = 1772940600000 then ("2026", "03", "07", "22", "30", "00")
    else ("2026", "03", "08", "23", "30", "00"))
  parseExpression := none

theorem newYorkHost_shows {ms : Int} (h : ms = 1772940600000 ∨ ms = 1773027000000) :
    PartsShow newYorkHost "America/New_York" newYork ms := by
  rcases h with rfl | rfl
  · exact ⟨"2026", "03", "07", "22", "30", "00", rfl, by decide⟩
  · exact ⟨"2026", "03", "08", "23", "30", "00", rfl, by decide⟩

end AgentRuns.Triggers
