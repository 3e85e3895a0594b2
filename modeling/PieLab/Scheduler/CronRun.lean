import PieLab.Lib.IsoDate
import PieLab.Lib.LocalClock
import PieLab.Scheduler.CronField

/-
  The next run of a cron expression

  `nextCronRun` walks from minute to minute with `setMinutes`, which moves the reading
  of the server's clock, and asks at each stop whether the expression matches in the
  time zone of the job. Where the server's clock is put back, `setMinutes` takes the
  first of the two instants of a reading: the walk leaves out the second pass, and from
  inside it goes back to the first.

  What is proved:
    1. `cronMatches_iff` — the match is that of the fields in the time zone of the job.
    2. `search_spec`     — the search returns the first match among the minutes it walks.
    3. `next_run_iff`    — the run is after the instant, on a whole minute, a match and
       the earliest one, exactly where the walk does not go back over a match and does
       not leave one out.

  Correspondence (TypeScript ↔ Lean), packages/coding-agent/src/core/scheduler/schedule.ts:
    the local fields of a `Date` ↔ `localComponents`, `setMinutes`
    `Intl.DateTimeFormat`        ↔ `CronEnv.zones`, `intlHour`, `weekdayText`
    the loop of `nextCronRun`    ↔ `searchFrom`
    the other functions          ↔ the functions of the same name
-/

namespace PieLab

open Lib (Clock civilOfDays IsTimeValue)

/-- A time zone, by the changes of its clock. -/
abbrev Zone := Clock 60000

/-- The time zones the code meets. -/
structure CronEnv where
  server : Zone
  /-- The zones `Intl.DateTimeFormat` knows by name. -/
  zones : String → Option Zone
  /-- Midnight is given as hour 24. -/
  midnight24 : Bool

/-! ## Matching -/

structure DateComponents where
  minutes : ℤ
  hours : ℤ
  dayOfMonth : ℤ
  month : ℤ
  dayOfWeek : ℤ
  deriving DecidableEq, Repr

/-- The fields the clock of a zone shows. -/
def localComponents (zone : Zone) (t : Time) : DateComponents :=
  let reading := zone.reading t
  let date := civilOfDays (reading / 86400000)
  { minutes := reading / 60000 % 60
    hours := reading / 3600000 % 24
    dayOfMonth := date.day
    month := date.month
    dayOfWeek := (reading / 86400000 + 4) % 7 }

def dowShort : List (String × ℤ) :=
  [("Sun", 0), ("Mon", 1), ("Tue", 2), ("Wed", 3), ("Thu", 4), ("Fri", 5), ("Sat", 6)]

/-- The weekday as `formatToParts` gives it. -/
def weekdayText (day : ℤ) : String := (dowShort.map (·.1)).getD day.toNat ""

/-- The hour as `formatToParts` gives it. -/
def intlHour (env : CronEnv) (hours : ℤ) : ℤ := if env.midnight24 ∧ hours = 0 then 24 else hours

def getDateComponents (env : CronEnv) (t : Time) (timezone : Option String) : DateComponents :=
  match timezone with
  | none | some "" => localComponents env.server t
  | some name =>
    match env.zones name with
    | some zone =>
      let parts := localComponents zone t
      let rawHour := intlHour env parts.hours
      { parts with
        hours := if rawHour = 24 then 0 else rawHour
        dayOfWeek := (dowShort.lookup (weekdayText parts.dayOfWeek)).getD
          (localComponents env.server t).dayOfWeek }
    | none => localComponents env.server t

def cronMatches (env : CronEnv) (parsed : ParsedCron) (timezone : Option String) (t : Time) :
    Bool :=
  let c := getDateComponents env t timezone
  if .number c.minutes ∉ parsed.minutes then false
  else if .number c.hours ∉ parsed.hours then false
  else if .number c.month ∉ parsed.months then false
  else
    let domMatches : Bool := .number c.dayOfMonth ∈ parsed.daysOfMonth
    let dowMatches : Bool := .number c.dayOfWeek ∈ parsed.daysOfWeek
    if parsed.dayOfMonthWildcard && parsed.dayOfWeekWildcard then true
    else if parsed.dayOfMonthWildcard then dowMatches
    else if parsed.dayOfWeekWildcard then domMatches
    else domMatches || dowMatches

/-- The zone of the job: its own, or the server's where it has none that is known. -/
def jobZone (env : CronEnv) (timezone : Option String) : Zone :=
  match timezone with
  | none | some "" => env.server
  | some name => (env.zones name).getD env.server

/-- What a cron expression says of a minute: a day field that is given must be met, of
two that are given one. -/
def ParsedCron.MatchesAt (parsed : ParsedCron) (c : DateComponents) : Prop :=
  .number c.minutes ∈ parsed.minutes ∧ .number c.hours ∈ parsed.hours ∧
    .number c.month ∈ parsed.months ∧
    if parsed.dayOfMonthWildcard = true ∨ parsed.dayOfWeekWildcard = true then
      (parsed.dayOfMonthWildcard = false → .number c.dayOfMonth ∈ parsed.daysOfMonth) ∧
        (parsed.dayOfWeekWildcard = false → .number c.dayOfWeek ∈ parsed.daysOfWeek)
    else .number c.dayOfMonth ∈ parsed.daysOfMonth ∨ .number c.dayOfWeek ∈ parsed.daysOfWeek

/-- The expression matches in the time zone of the job. -/
def CronAt (env : CronEnv) (parsed : ParsedCron) (timezone : Option String) (t : Time) : Prop :=
  parsed.MatchesAt (localComponents (jobZone env timezone) t)

theorem lookup_weekdayText {day : ℤ} (h : 0 ≤ day) (h7 : day < 7) :
    dowShort.lookup (weekdayText day) = some day := by
  obtain ⟨n, rfl⟩ := Int.eq_ofNat_of_zero_le h
  have hall : ∀ k < 7, dowShort.lookup (weekdayText ((k : ℕ) : ℤ)) = some ((k : ℕ) : ℤ) := by decide
  exact hall n (by omega)

theorem getDateComponents_eq (env : CronEnv) (t : Time) (timezone : Option String) :
    getDateComponents env t timezone = localComponents (jobZone env timezone) t := by
  unfold getDateComponents jobZone
  split
  · rfl
  · rfl
  · cases hzone : env.zones _ with
    | none => rfl
    | some zone =>
      have hday : 0 ≤ (localComponents zone t).dayOfWeek ∧
          (localComponents zone t).dayOfWeek < 7 := by
        simp only [localComponents]
        omega
      have hhour : 0 ≤ (localComponents zone t).hours ∧ (localComponents zone t).hours < 24 := by
        simp only [localComponents]
        omega
      have hclock : (if intlHour env (localComponents zone t).hours = 24 then 0
          else intlHour env (localComponents zone t).hours) = (localComponents zone t).hours := by
        unfold intlHour
        split_ifs <;> omega
      simp only [lookup_weekdayText hday.1 hday.2, hclock, Option.getD_some]

theorem cronMatches_iff (env : CronEnv) (parsed : ParsedCron) (timezone : Option String)
    (t : Time) :
    cronMatches env parsed timezone t = true ↔ CronAt env parsed timezone t := by
  simp only [cronMatches, CronAt, ParsedCron.MatchesAt, getDateComponents_eq]
  cases parsed.dayOfMonthWildcard <;> cases parsed.dayOfWeekWildcard <;> simp

/-! ## The search -/

/-- `TimeClip`: NaN outside the instants of a `Date`. -/
def clipDate (t : Time) : Option Time :=
  if -8640000000000000 ≤ t ∧ t ≤ 8640000000000000 then some t else none

/-- `candidate.setSeconds(0, 0)`, before the clipping. -/
def minuteStart (zone : Zone) (t : Time) : Time :=
  zone.toInstant (zone.reading t / 60000 * 60000)

/-- `candidate.setMinutes(candidate.getMinutes() + 1)` -/
def nextMinute (zone : Zone) (t : Time) : Option Time := clipDate (zone.next t)

def maxMinutes : ℕ := 5 * 366 * 24 * 60

/-- The loop. An invalid date has NaN in every field, matches nothing and stays invalid. -/
def searchFrom (isMatch : Time → Bool) (zone : Zone) : ℕ → Option Time → Option Time
  | 0, _ => none
  | _ + 1, none => none
  | n + 1, some candidate =>
    if isMatch candidate then some candidate
    else searchFrom isMatch zone n (nextMinute zone candidate)

def nextCronRun (env : CronEnv) (expression : String) (after : Time) (timezone : Option String) :
    Except String Time := do
  let parsed ← parseCronExpression expression
  let candidate := (clipDate (minuteStart env.server after)).bind (nextMinute env.server)
  match searchFrom (cronMatches env parsed timezone) env.server maxMinutes candidate with
  | some t => return t
  | none => .error ("Could not find the next run for cron schedule: " ++ expression)

/-- A minute the search comes to from `c` within `n` steps. -/
structure WalkedFrom (zone : Zone) (c : Time) (n : ℕ) (s : Time) : Prop where
  whole : 60000 ∣ s
  first : zone.FirstShown s
  later : c < s
  valid : s ≤ 8640000000000000
  near : zone.steps c s ≤ n

/-- The first match among the minutes the search comes to. -/
theorem search_spec (isMatch : Time → Bool) {zone : Zone} (n : ℕ) :
    ∀ {c : Time}, 60000 ∣ c → zone.FirstShown c → -8640000000000000 ≤ c →
      match searchFrom isMatch zone n (nextMinute zone c) with
      | some t => WalkedFrom zone c n t ∧ isMatch t = true ∧
          ∀ s, WalkedFrom zone c n s → s < t → isMatch s = false
      | none => ∀ s, WalkedFrom zone c n s → isMatch s = false := by
  induction n with
  | zero =>
    intro c hc hfirst _
    -- no step leads nowhere
    have hnone : ∀ s, ¬ WalkedFrom zone c 0 s := by
      intro s hs
      have hle : zone.next c ≤ s := by
        by_contra hlt
        exact (zone.next_spec hc hfirst).2.2 s hs.whole hs.later (not_le.1 hlt) hs.first
      have := zone.steps_next hc hfirst hs.whole hle
      have := hs.near
      omega
    exact fun s hs => absurd hs (hnone s)
  | succ n ih =>
    intro c hc hfirst hlow
    obtain ⟨hlater, hnext, hbetween⟩ := zone.next_spec hc hfirst
    have hdvd := zone.dvd_next hc
    have hge : ∀ s, WalkedFrom zone c (n + 1) s → zone.next c ≤ s := by
      intro s hs
      by_contra hlt
      exact hbetween s hs.whole hs.later (not_le.1 hlt) hs.first
    -- what is walked is the next minute and what is walked from there
    have hrest : ∀ s, WalkedFrom zone c (n + 1) s →
        s = zone.next c ∨ WalkedFrom zone (zone.next c) n s := by
      intro s hs
      rcases eq_or_lt_of_le (hge s hs) with heq | hlt
      · exact .inl heq.symm
      · have hsteps := zone.steps_next hc hfirst hs.whole hlt.le
        have hnear := hs.near
        exact .inr ⟨hs.whole, hs.first, hlt, hs.valid, by omega⟩
    have hmore : ∀ s, WalkedFrom zone (zone.next c) n s → WalkedFrom zone c (n + 1) s := by
      intro s hs
      have hsteps := zone.steps_next hc hfirst hs.whole hs.later.le
      have hnear := hs.near
      exact ⟨hs.whole, hs.first, lt_trans hlater hs.later, hs.valid, by omega⟩
    by_cases hvalid : zone.next c ≤ 8640000000000000
    · have hclip : nextMinute zone c = some (zone.next c) :=
        if_pos ⟨(lt_of_le_of_lt hlow hlater).le, hvalid⟩
      have hself : WalkedFrom zone c (n + 1) (zone.next c) := by
        refine ⟨hdvd, hnext, hlater, hvalid, ?_⟩
        rw [zone.steps_next hc hfirst hdvd le_rfl, Clock.steps_self]
        omega
      rw [hclip, searchFrom]
      by_cases hmatch : isMatch (zone.next c) = true
      · rw [if_pos hmatch]
        exact ⟨hself, hmatch, fun s hs hlt => absurd (hge s hs) (not_le.2 hlt)⟩
      · rw [if_neg hmatch]
        have hrec := ih hdvd hnext (lt_of_le_of_lt hlow hlater).le
        generalize searchFrom isMatch zone n (nextMinute zone (zone.next c)) = result at hrec ⊢
        cases result with
        | none =>
          intro s hs
          rcases hrest s hs with rfl | hs'
          · simpa using hmatch
          · exact hrec s hs'
        | some t =>
          refine ⟨hmore t hrec.1, hrec.2.1, fun s hs hlt => ?_⟩
          rcases hrest s hs with rfl | hs'
          · simpa using hmatch
          · exact hrec.2.2 s hs' hlt
    · have hclip : nextMinute zone c = none := if_neg fun h => hvalid h.2
      rw [hclip, searchFrom]
      intro s hs
      exact absurd (le_trans (hge s hs) hs.valid) hvalid

/-! ## The next run -/

theorem minuteStart_spec (zone : Zone) (t : Time) :
    60000 ∣ minuteStart zone t ∧ zone.FirstShown (minuteStart zone t) ∧
      minuteStart zone t ≤ t / 60000 * 60000 := by
  have hfloor : minuteStart zone t = zone.toInstant (zone.reading (t / 60000 * 60000)) := by
    rw [minuteStart, zone.reading_floor]
  rw [hfloor]
  exact ⟨zone.dvd_toInstant (zone.dvd_reading (Int.dvd_mul_left _ _)),
    zone.firstShown_toInstant _, (zone.toInstant_shown _).1⟩

/-- A minute the search from an instant comes to. -/
def Walked (env : CronEnv) (after s : Time) : Prop :=
  IsTimeValue (minuteStart env.server after) ∧
    WalkedFrom env.server (minuteStart env.server after) maxMinutes s

/-- The first minute after the instant at which the expression matches. -/
structure IsNextMatch (env : CronEnv) (parsed : ParsedCron) (timezone : Option String)
    (after t : Time) : Prop where
  later : after < t
  whole : 60000 ∣ t
  isMatch : CronAt env parsed timezone t
  earliest : ∀ s, 60000 ∣ s → after < s → s < t → ¬ CronAt env parsed timezone s

/-- The search comes to a match at or before the instant. -/
def WalksBack (env : CronEnv) (parsed : ParsedCron) (timezone : Option String) (after : Time) :
    Prop :=
  ∃ s, Walked env after s ∧ CronAt env parsed timezone s ∧ s ≤ after

/-- The next match is in a second pass of the server's clock, and the search comes to
another one. -/
def PassesOver (env : CronEnv) (parsed : ParsedCron) (timezone : Option String) (after : Time) :
    Prop :=
  ∃ m, IsNextMatch env parsed timezone after m ∧ ¬ env.server.FirstShown m ∧
    ∃ s, Walked env after s ∧ CronAt env parsed timezone s

theorem nextCronRun_spec (env : CronEnv) {expression : String} {parsed : ParsedCron}
    (hparsed : parseCronExpression expression = .ok parsed) (after : Time)
    (timezone : Option String) :
    match nextCronRun env expression after timezone with
    | .ok t => Walked env after t ∧ CronAt env parsed timezone t ∧
        ∀ s, Walked env after s → s < t → ¬ CronAt env parsed timezone s
    | .error _ => ∀ s, Walked env after s → ¬ CronAt env parsed timezone s := by
  obtain ⟨hwhole, hfirst, -⟩ := minuteStart_spec env.server after
  have hmatch : ∀ s, cronMatches env parsed timezone s = false ↔
      ¬ CronAt env parsed timezone s := by
    intro s
    rw [← cronMatches_iff, Bool.not_eq_true]
  have hrun : nextCronRun env expression after timezone =
      match searchFrom (cronMatches env parsed timezone) env.server maxMinutes
        ((clipDate (minuteStart env.server after)).bind (nextMinute env.server)) with
      | some t => .ok t
      | none => .error ("Could not find the next run for cron schedule: " ++ expression) := by
    rw [nextCronRun, hparsed]
    rfl
  by_cases hvalid : IsTimeValue (minuteStart env.server after)
  · have hclip : clipDate (minuteStart env.server after) = some (minuteStart env.server after) :=
      if_pos hvalid
    have hsearch := search_spec (cronMatches env parsed timezone) maxMinutes hwhole hfirst hvalid.1
    rw [hrun, hclip, Option.bind_some]
    generalize searchFrom (cronMatches env parsed timezone) env.server maxMinutes
      (nextMinute env.server (minuteStart env.server after)) = result at hsearch
    cases result with
    | none => exact fun s hs => (hmatch s).1 (hsearch s hs.2)
    | some t =>
      exact ⟨⟨hvalid, hsearch.1⟩, (cronMatches_iff ..).1 hsearch.2.1,
        fun s hs hlt => (hmatch s).1 (hsearch.2.2 s hs.2 hlt)⟩
  · -- the start is no date, and the search comes to nothing
    have hclip : clipDate (minuteStart env.server after) = none := if_neg hvalid
    have hnone : searchFrom (cronMatches env parsed timezone) env.server maxMinutes none = none :=
      rfl
    rw [hrun, hclip, Option.bind_none, hnone]
    exact fun s hs => absurd hs.1 hvalid

theorem exists_isNextMatch {env : CronEnv} {parsed : ParsedCron} {timezone : Option String}
    {after t : Time} (hlater : after < t) (hwhole : 60000 ∣ t)
    (hmatch : CronAt env parsed timezone t) :
    ∃ m, IsNextMatch env parsed timezone after m ∧ m ≤ t := by
  obtain ⟨m, ⟨hm, hdvd, hat⟩, hleast⟩ := Int.exists_least_of_bdd
    (P := fun m => after < m ∧ 60000 ∣ m ∧ CronAt env parsed timezone m)
    ⟨after, fun z hz => hz.1.le⟩ ⟨t, hlater, hwhole, hmatch⟩
  refine ⟨m, ⟨hm, hdvd, hat, fun s hs hafter hlt hcron => ?_⟩, hleast t ⟨hlater, hwhole, hmatch⟩⟩
  exact absurd (hleast s ⟨hafter, hs, hcron⟩) (not_le.2 hlt)

theorem Walked.of_le {env : CronEnv} {after s t : Time} (ht : Walked env after t)
    (hwhole : 60000 ∣ s) (hfirst : env.server.FirstShown s) (hlater : after < s) (hle : s ≤ t) :
    Walked env after s := by
  obtain ⟨hvalid, hwalk⟩ := ht
  obtain ⟨-, -, hfloor⟩ := minuteStart_spec env.server after
  have hstart : minuteStart env.server after < s := by
    have := Int.ediv_mul_le after (by omega : (60000 : ℤ) ≠ 0)
    exact lt_of_le_of_lt (le_trans hfloor this) hlater
  refine ⟨hvalid, hwhole, hfirst, hstart, le_trans hle hwalk.valid, ?_⟩
  refine le_trans (Finset.card_le_card ?_) hwalk.near
  refine Finset.filter_subset_filter _ (Finset.Ioc_subset_Ioc_right ?_)
  exact Int.ediv_le_ediv (by omega) hle

/-- **The next run is the next match.** What `nextCronRun` returns is a match in the
time zone of the job, on a whole minute, after the instant, and no minute between them
matches, exactly where the search neither goes back over a match nor passes the next
one over. -/
theorem next_run_iff (env : CronEnv) (expression : String) (after : Time)
    (timezone : Option String) :
    (∀ t, nextCronRun env expression after timezone = .ok t →
      ∃ parsed, parseCronExpression expression = .ok parsed ∧
        IsNextMatch env parsed timezone after t) ↔
    ∀ parsed, parseCronExpression expression = .ok parsed →
      ¬ WalksBack env parsed timezone after ∧ ¬ PassesOver env parsed timezone after := by
  constructor
  · intro hright parsed hparsed
    -- where a walked minute matches the search returns one, and it is the next match
    have hreturns : ∀ s, Walked env after s → CronAt env parsed timezone s →
        ∃ t, IsNextMatch env parsed timezone after t ∧ Walked env after t ∧ t ≤ s := by
      intro s hs hcron
      have hspec := nextCronRun_spec env hparsed after timezone
      cases hrun : nextCronRun env expression after timezone with
      | error e =>
        rw [hrun] at hspec
        exact absurd hcron (hspec s hs)
      | ok t =>
        rw [hrun] at hspec
        obtain ⟨parsed', hparsed', hnext⟩ := hright t hrun
        cases hparsed.symm.trans hparsed'
        refine ⟨t, hnext, hspec.1, ?_⟩
        by_contra hlt
        exact hspec.2.2 s hs (not_le.1 hlt) hcron
    refine ⟨?_, ?_⟩
    · rintro ⟨s, hs, hcron, hle⟩
      obtain ⟨t, hnext, -, hts⟩ := hreturns s hs hcron
      exact absurd hnext.later (not_lt.2 (le_trans hts hle))
    · rintro ⟨m, hm, hsecond, s, hs, hcron⟩
      obtain ⟨t, hnext, hwalked, -⟩ := hreturns s hs hcron
      -- both are the earliest match
      have htm : t = m := by
        rcases lt_trichotomy t m with hlt | heq | hgt
        · exact absurd hnext.isMatch (hm.earliest t hnext.whole hnext.later hlt)
        · exact heq
        · exact absurd hm.isMatch (hnext.earliest m hm.whole hm.later hgt)
      exact hsecond (htm ▸ hwalked.2.first)
  · intro hcond t hrun
    cases hparsed : parseCronExpression expression with
    | error e =>
      rw [nextCronRun, hparsed] at hrun
      cases hrun
    | ok parsed =>
      obtain ⟨hback, hover⟩ := hcond parsed hparsed
      have hspec := nextCronRun_spec env hparsed after timezone
      rw [hrun] at hspec
      obtain ⟨hwalked, hcron, hnone⟩ := hspec
      have hlater : after < t := by
        by_contra hle
        exact hback ⟨t, hwalked, hcron, not_lt.1 hle⟩
      obtain ⟨m, hm, hle⟩ := exists_isNextMatch hlater hwalked.2.whole hcron
      have hfirst : env.server.FirstShown m := by
        by_contra hsecond
        exact hover ⟨m, hm, hsecond, t, hwalked, hcron⟩
      rcases eq_or_lt_of_le hle with rfl | hlt
      · exact ⟨parsed, rfl, hm⟩
      · exact absurd hm.isMatch (hnone m (hwalked.of_le hm.whole hfirst hm.later hle) hlt)

/-! ## An hour shown twice -/

/-- A clock that is put back by an hour at the epoch. -/
def putBack : Zone where
  offset := 3600000
  changes := [(0, 0)]
  pos := by omega
  whole := by decide
  ordered := by simp [Lib.OrderedChanges]

theorem starField (spec : FieldSpec) (h : spec.min ≤ spec.max) :
    ∃ r, parseCronField spec "*" = .ok r ∧
      ∀ n : ℕ, spec.min ≤ n → n ≤ spec.max → .number n ∈ r := by
  have hreads : Reads spec ['*'] 1 (.number spec.min) (.number spec.max) :=
    ⟨rfl, .star, inBounds_number.2 ⟨Nat.le_refl _, h, Nat.le_refl _⟩⟩
  have hparts : "*".toList.splitOn ',' = [['*']] := by decide
  obtain ⟨r, hr⟩ := parseCronField_ok_iff.2 (by
    rw [hparts]
    exact List.forall_mem_singleton.2 ⟨1, _, _, hreads⟩)
  refine ⟨r, hr, fun n hmin hmax => ?_⟩
  rw [mem_parseCronField hr, hparts]
  refine ⟨['*'], by simp, 1, _, _, hreads, n - spec.min, ?_, ?_⟩
  · congr 1
    omega
  · omega

theorem stars_match (env : CronEnv) (timezone : Option String) :
    ∃ parsed, parseCronExpression "* * * * *" = .ok parsed ∧
      ∀ t, CronAt env parsed timezone t := by
  obtain ⟨minutes, hminutes, hm⟩ := starField minuteField (by decide)
  obtain ⟨hours, hhours, hh⟩ := starField hourField (by decide)
  obtain ⟨days, hdays, -⟩ := starField dayOfMonthField (by decide)
  obtain ⟨months, hmonths, hmo⟩ := starField monthField (by decide)
  obtain ⟨weekdays, hweekdays, -⟩ := starField dayOfWeekField (by decide)
  have hfields : cronFields "* * * * *" = ["*", "*", "*", "*", "*"] := by decide
  refine ⟨⟨minutes, hours, days, months, normalizeDayOfWeek weekdays, true, true⟩, ?_, fun t => ?_⟩
  · rw [parseCronExpression, hfields]
    simp only [hminutes, hhours, hdays, hmonths, hweekdays]
    rfl
  · have hmonth := (Lib.civilParts
      ((jobZone env timezone).reading t / 86400000)).month_mem
    have hrange : 1 ≤ (civilOfDays ((jobZone env timezone).reading t / 86400000)).month ∧
        (civilOfDays ((jobZone env timezone).reading t / 86400000)).month ≤ 12 := by
      rw [Lib.civilOfDays_eq]
      split <;> simp only <;> omega
    refine ⟨?_, ?_, hmo _ hrange.1 hrange.2, ?_⟩
    · have := hm ((jobZone env timezone).reading t / 60000 % 60).toNat (Nat.zero_le _) (by
        simp only [minuteField, plainField]
        omega)
      rwa [Int.toNat_of_nonneg (by omega)] at this
    · have := hh ((jobZone env timezone).reading t / 3600000 % 24).toNat (Nat.zero_le _) (by
        simp only [hourField, plainField]
        omega)
      rwa [Int.toNat_of_nonneg (by omega)] at this
    · simp

/-- One minute before the server's clock is put back by an hour, every minute matches
and the next run is an hour late: the sixty minutes of the second pass are left out. -/
theorem second_pass_left_out :
    ¬ ∀ (env : CronEnv) (expression : String) (after : Time) (timezone : Option String) (t : Time),
      nextCronRun env expression after timezone = .ok t →
      ∃ parsed, parseCronExpression expression = .ok parsed ∧
        IsNextMatch env parsed timezone after t := by
  intro h
  let env : CronEnv := { server := putBack, zones := fun _ => none, midnight24 := false }
  obtain ⟨parsed, hparsed, hall⟩ := stars_match env none
  have hmatch : cronMatches env parsed none 3600000 = true := (cronMatches_iff ..).2 (hall _)
  have hstart : (clipDate (minuteStart putBack (-60000))).bind (nextMinute putBack) =
      some 3600000 := by decide
  have hrun : nextCronRun env "* * * * *" (-60000) none = .ok 3600000 := by
    have hsearch : searchFrom (cronMatches env parsed none) env.server maxMinutes
        (some 3600000) = some 3600000 := by
      have hmax : maxMinutes = (maxMinutes - 1) + 1 := by decide
      rw [hmax, searchFrom, if_pos hmatch]
    rw [nextCronRun, hparsed]
    change (match searchFrom (cronMatches env parsed none) env.server maxMinutes
      ((clipDate (minuteStart putBack (-60000))).bind (nextMinute putBack)) with
      | some t => Except.ok t
      | none => _) = _
    rw [hstart, hsearch]
  obtain ⟨parsed', hparsed', hnext⟩ := h env _ _ _ _ hrun
  cases hparsed.symm.trans hparsed'
  exact hnext.earliest 0 (by decide) (by decide) (by decide) (hall 0)

end PieLab
