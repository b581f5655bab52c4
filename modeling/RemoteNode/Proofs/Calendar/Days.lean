import RemoteNode.Calendar
import Mathlib.Logic.Function.Iterate
import Mathlib.Order.Monotone.Basic

/-! The calendar day by day and second by second. A clock that starts with 1970 and goes on by one
second at a time, from month to month by their lengths, shows after any number of seconds the moment
that is computed from that number. -/

namespace RemoteNode.Calendar

/-! ### The calendar -/

/-- Every fourth year is a leap year, but of those that end a century only every fourth. -/
def isLeap (year : Nat) : Bool := year % 4 = 0 && (year % 100 ≠ 0 || year % 400 = 0)

/-- The days of a month in a leap year or in another. -/
def monthLength (leap : Bool) : Nat → Nat
  | 2 => if leap then 29 else 28
  | 4 | 6 | 9 | 11 => 30
  | _ => 31

/-- The day after. -/
def Date.next (d : Date) : Date :=
  if d.day < monthLength (isLeap d.year) d.month then ⟨d.year, d.month, d.day + 1⟩
  else if d.month < 12 then ⟨d.year, d.month + 1, 1⟩
  else ⟨d.year + 1, 1, 1⟩

/-- The first second of 1970. -/
def Moment.start : Moment := ⟨⟨1970, 1, 1⟩, 0, 0, 0⟩

/-- One second later. -/
def Moment.tick (m : Moment) : Moment :=
  if m.second < 59 then ⟨m.date, m.hour, m.minute, m.second + 1⟩
  else if m.minute < 59 then ⟨m.date, m.hour, m.minute + 1, 0⟩
  else if m.hour < 23 then ⟨m.date, m.hour + 1, 0, 0⟩
  else ⟨m.date.next, 0, 0, 0⟩

/-- A date that stands in the calendar. -/
structure Date.IsReal (d : Date) : Prop where
  month : 1 ≤ d.month ∧ d.month ≤ 12
  day : 1 ≤ d.day ∧ d.day ≤ monthLength (isLeap d.year) d.month

/-- A date and a time that a clock shows. -/
structure Moment.IsReal (m : Moment) : Prop where
  date : m.date.IsReal
  hour : m.hour < 24
  minute : m.minute < 60
  second : m.second < 60

/-! ### Years that begin in March -/

section March
variable {y p n c e f g : Nat}

/-- The days from the first of March of the year 0 to that of another year. -/
def marchStart (y : Nat) : Nat := 365 * y + y / 4 - y / 100 + y / 400

/-- The days of the year that begins in March; its last month belongs to the next year. -/
def marchLength (y : Nat) : Nat := if isLeap (y + 1) then 366 else 365

theorem isLeap_iff : isLeap y = true ↔ y % 4 = 0 ∧ (y % 100 ≠ 0 ∨ y % 400 = 0) := by
  simp [isLeap]

theorem marchStart_succ : marchStart (y + 1) = marchStart y + marchLength y := by
  have next (b : Nat) : (y + 1) / b = y / b + if (y + 1) % b = 0 then 1 else 0 := by
    rw [Nat.succ_div]
    simp only [Nat.dvd_iff_mod_eq_zero]
  have century : (y + 1) % 100 = 0 → (y + 1) % 4 = 0 := by omega
  have cycle : (y + 1) % 400 = 0 → (y + 1) % 100 = 0 := by omega
  have fewer : y / 100 ≤ y / 4 := Nat.div_le_div_left (by decide) (by decide)
  unfold marchStart marchLength
  simp only [next, isLeap_iff]
  generalize y / 4 = fours, y / 100 = centuries at fewer ⊢
  by_cases four : (y + 1) % 4 = 0 <;> by_cases hundred : (y + 1) % 100 = 0 <;>
    by_cases whole : (y + 1) % 400 = 0 <;> simp [four, hundred, whole] at century cycle ⊢ <;> omega

theorem marchLength_pos : 0 < marchLength y := by
  unfold marchLength
  split <;> omega

/-- The parts of a day number are those of a year and a place in it: only the last year of four has
a leap day, and of the last ones of a century only that of the fourth. -/
theorem yearFromMarch_of_parts (he : e ≤ 3) (hf : f ≤ 24) (hg : g ≤ 3)
    (hp : p < 365 ∨ p = 365 ∧ g = 3 ∧ (f < 24 ∨ e = 3)) :
    yearFromMarch (146097 * c + (36524 * e + (1461 * f + (365 * g + p)))) =
      (400 * c + 100 * e + 4 * f + g, p) := by
  have four : 365 * g + p < 1461 := by omega
  have century : 1461 * f + (365 * g + p) < 36524 ∨
      e = 3 ∧ 1461 * f + (365 * g + p) = 36524 := by omega
  have cycle : 36524 * e + (1461 * f + (365 * g + p)) < 146097 := by omega
  generalize inFour : 365 * g + p = r at four century cycle ⊢
  generalize inCentury : 1461 * f + r = s at century cycle ⊢
  have cycles : (146097 * c + (36524 * e + s)) / cycleDays = c := by
    unfold cycleDays
    omega
  have rest : (146097 * c + (36524 * e + s)) % cycleDays = 36524 * e + s := by
    unfold cycleDays
    omega
  have centuries : min 3 ((36524 * e + s) / centuryDays) = e := by
    unfold centuryDays
    omega
  have fours : (36524 * e + s - e * centuryDays) / fourYearDays = f := by
    unfold centuryDays fourYearDays
    omega
  have left : (36524 * e + s - e * centuryDays) % fourYearDays = r := by
    unfold centuryDays fourYearDays
    omega
  have years : min 3 (r / 365) = g := by omega
  simp only [yearFromMarch, cycles, rest, centuries, fours, left, years]
  rw [← inFour, Nat.add_sub_cancel_left]

theorem marchStart_of_parts (he : e ≤ 3) (hf : f ≤ 24) (hg : g ≤ 3) :
    marchStart (400 * c + 100 * e + 4 * f + g) =
      146097 * c + (36524 * e + (1461 * f + 365 * g)) := by
  have fours : (400 * c + 100 * e + 4 * f + g) / 4 = 100 * c + 25 * e + f := by omega
  have centuries : (400 * c + 100 * e + 4 * f + g) / 100 = 4 * c + e := by omega
  have cycles : (400 * c + 100 * e + 4 * f + g) / 400 = c := by omega
  rw [marchStart, fours, centuries, cycles]
  omega

/-- A day is found in the year that it was counted from. -/
theorem yearFromMarch_marchStart (inside : p < marchLength y) :
    yearFromMarch (marchStart y + p) = (y, p) := by
  obtain ⟨c, e, f, g, he, hf, hg, rfl⟩ : ∃ c e f g, e ≤ 3 ∧ f ≤ 24 ∧ g ≤ 3 ∧
      y = 400 * c + 100 * e + 4 * f + g :=
    ⟨y / 400, y % 400 / 100, y % 100 / 4, y % 4, by omega, by omega, by omega, by omega⟩
  have place : p < 365 ∨ p = 365 ∧ g = 3 ∧ (f < 24 ∨ e = 3) := by
    unfold marchLength at inside
    split at inside
    · rename_i leap
      rw [isLeap_iff] at leap
      omega
    · exact .inl inside
  rw [marchStart_of_parts he hf hg, ← yearFromMarch_of_parts he hf hg place]
  congr 1
  omega

/-- Every day falls into a year that begins in March. -/
theorem exists_marchStart (n : Nat) : ∃ y p, n = marchStart y + p ∧ p < marchLength y := by
  induction n with
  | zero => exact ⟨0, 0, rfl, marchLength_pos⟩
  | succ n ih =>
    obtain ⟨y, p, rfl, inside⟩ := ih
    obtain same | last := Nat.lt_or_ge (p + 1) (marchLength y)
    · exact ⟨y, p + 1, rfl, same⟩
    · refine ⟨y + 1, 0, ?_, marchLength_pos⟩
      rw [marchStart_succ]
      omega

end March

/-! ### Days -/

section Days
variable {y p n month : Nat} {leap : Bool} {d : Date}

theorem monthLength_pos : 1 ≤ monthLength leap month := by
  unfold monthLength
  split <;> try split
  all_goals decide

theorem monthLength_le : monthLength leap month ≤ 31 := by
  unfold monthLength
  split <;> try split
  all_goals decide

/-- A place in a year that begins in March is followed by the next day of the month or by the first
of the next month. Whether the year is a leap year matters to the month before the next March. -/
theorem monthAndDay_succ (other : Bool) (inside : p + 1 < if leap then 366 else 365) :
    let date := monthAndDay p
    let length := monthLength (if date.1 ≤ 2 then leap else other) date.1
    (date.1 = 2 → date.2 < length) ∧ monthAndDay (p + 1) =
      if date.2 < length then (date.1, date.2 + 1)
      else if date.1 < 12 then (date.1 + 1, 1) else (1, 1) := by
  have all : ∀ leap other : Bool, ∀ p < 366, p + 1 < (if leap then 366 else 365) →
      let date := monthAndDay p
      let length := monthLength (if date.1 ≤ 2 then leap else other) date.1
      (date.1 = 2 → date.2 < length) ∧ monthAndDay (p + 1) =
        if date.2 < length then (date.1, date.2 + 1)
        else if date.1 < 12 then (date.1 + 1, 1) else (1, 1) := by
    decide +kernel
  refine all leap other p ?_ inside
  split at inside <;> omega

/-- The last place of a year that begins in March is the last of February. -/
theorem monthAndDay_last (last : p + 1 = marchLength y) :
    monthAndDay p = (2, monthLength (isLeap (y + 1)) 2) := by
  unfold marchLength at last
  split at last
  · rename_i leap
    obtain rfl : p = 365 := by omega
    rw [leap]
    rfl
  · rename_i leap
    obtain rfl : p = 364 := by omega
    rw [Bool.not_eq_true] at leap
    rw [leap]
    rfl

theorem ofDays_eq (counted : n + epoch = marchStart y + p) (inside : p < marchLength y) :
    Date.ofDays n = ⟨if (monthAndDay p).1 ≤ 2 then y + 1 else y, (monthAndDay p).1,
      (monthAndDay p).2⟩ := by
  rw [Date.ofDays, counted, yearFromMarch_marchStart inside]

theorem ofDays_succ (n : Nat) : Date.ofDays (n + 1) = (Date.ofDays n).next := by
  obtain ⟨y, p, counted, inside⟩ := exists_marchStart (n + epoch)
  obtain more | last := Nat.lt_or_eq_of_le (Nat.succ_le_of_lt inside)
  · have counted' : n + 1 + epoch = marchStart y + (p + 1) := by omega
    obtain ⟨february, following⟩ := monthAndDay_succ (isLeap y) more
    rw [ofDays_eq counted inside, ofDays_eq counted' more, following]
    generalize monthAndDay p = date at february ⊢
    obtain ⟨month, day⟩ := date
    unfold Date.next
    by_cases early : month ≤ 2
    · simp only [early, if_true] at february ⊢
      by_cases within : day < monthLength (isLeap (y + 1)) month
      · simp [within, early]
      · have january : month + 1 ≤ 2 := by
          by_contra late
          exact within (february (by omega))
        have sameYear : month < 12 := by omega
        simp [within, january, sameYear]
    · simp only [early, if_false]
      by_cases within : day < monthLength (isLeap y) month
      · simp [within, early]
      · by_cases sameYear : month < 12
        · have late : ¬ month + 1 ≤ 2 := by omega
          simp [within, sameYear, late]
        · simp [within, sameYear]
  · have counted' : n + 1 + epoch = marchStart (y + 1) + 0 := by
      rw [marchStart_succ]
      omega
    rw [ofDays_eq counted inside, ofDays_eq counted' marchLength_pos, monthAndDay_last last]
    simp [Date.next, monthAndDay]

end Days

/-! ### Seconds -/

section Seconds
variable {t : Nat} {d : Date} {m : Moment}

theorem ofSeconds_succ (t : Nat) : Moment.ofSeconds (t + 1) = (Moment.ofSeconds t).tick := by
  unfold Moment.ofSeconds Moment.tick
  by_cases second : t % 60 < 59
  · have day : (t + 1) / 86400 = t / 86400 := by omega
    have hour : (t + 1) % 86400 / 3600 = t % 86400 / 3600 := by omega
    have minute : (t + 1) % 3600 / 60 = t % 3600 / 60 := by omega
    have next : (t + 1) % 60 = t % 60 + 1 := by omega
    simp only [second, day, hour, minute, next, if_true]
  by_cases minute : t % 3600 / 60 < 59
  · have day : (t + 1) / 86400 = t / 86400 := by omega
    have hour : (t + 1) % 86400 / 3600 = t % 86400 / 3600 := by omega
    have next : (t + 1) % 3600 / 60 = t % 3600 / 60 + 1 := by omega
    have full : (t + 1) % 60 = 0 := by omega
    simp only [second, minute, day, hour, next, full, if_true, if_false]
  by_cases hour : t % 86400 / 3600 < 23
  · have day : (t + 1) / 86400 = t / 86400 := by omega
    have next : (t + 1) % 86400 / 3600 = t % 86400 / 3600 + 1 := by omega
    have full : (t + 1) % 3600 / 60 = 0 := by omega
    have whole : (t + 1) % 60 = 0 := by omega
    simp only [second, minute, hour, day, next, full, whole, if_true, if_false]
  · have next : (t + 1) / 86400 = t / 86400 + 1 := by omega
    have full : (t + 1) % 86400 = 0 := by omega
    have whole : (t + 1) % 3600 = 0 := by omega
    have minutes : (t + 1) % 60 = 0 := by omega
    simp only [second, minute, hour, next, full, whole, minutes, ofDays_succ, if_false,
      Nat.zero_div]

/-- A number of seconds is the moment that a clock shows after it. -/
theorem ofSeconds_eq_iterate (t : Nat) : Moment.ofSeconds t = Moment.tick^[t] .start := by
  induction t with
  | zero => rfl
  | succ t ih => rw [ofSeconds_succ, ih, Function.iterate_succ_apply']

theorem Date.IsReal.next (real : d.IsReal) : d.next.IsReal := by
  obtain ⟨⟨first, last⟩, -⟩ := real
  unfold Date.next
  split_ifs with within sameYear
  · exact ⟨⟨first, last⟩, Nat.le_add_left 1 _, Nat.succ_le_of_lt within⟩
  · exact ⟨⟨Nat.le_add_left 1 _, Nat.succ_le_of_lt sameYear⟩, Nat.le_refl 1, monthLength_pos⟩
  · exact ⟨⟨Nat.le_refl 1, Nat.le_add_left 1 11⟩, Nat.le_refl 1, monthLength_pos⟩

theorem Moment.IsReal.tick (real : m.IsReal) : m.tick.IsReal := by
  obtain ⟨date, hour, minute, second⟩ := real
  unfold Moment.tick
  split_ifs with sameMinute sameHour sameDay
  · exact ⟨date, hour, minute, Nat.succ_lt_succ sameMinute⟩
  · exact ⟨date, hour, Nat.succ_lt_succ sameHour, Nat.zero_lt_succ 59⟩
  · exact ⟨date, Nat.succ_lt_succ sameDay, Nat.zero_lt_succ 59, Nat.zero_lt_succ 59⟩
  · exact ⟨date.next, Nat.zero_lt_succ 23, Nat.zero_lt_succ 59, Nat.zero_lt_succ 59⟩

/-- The clock shows real dates and times. -/
theorem isReal_iterate (t : Nat) : (Moment.tick^[t] .start).IsReal := by
  induction t with
  | zero => exact ⟨⟨by decide, by decide⟩, by decide, by decide, by decide⟩
  | succ t ih =>
    rw [Function.iterate_succ_apply']
    exact ih.tick

/-! ### The order of moments -/

/-- A number that grows from a moment to a later one. -/
def Moment.rank (m : Moment) : Nat :=
  ((((m.date.year * 13 + m.date.month) * 32 + m.date.day) * 24 + m.hour) * 60 + m.minute) * 60 +
    m.second

theorem Moment.IsReal.rank_lt (real : m.IsReal) : m.rank < m.tick.rank := by
  obtain ⟨⟨month, day⟩, hour, minute, second⟩ := real
  have short : monthLength (isLeap m.date.year) m.date.month ≤ 31 := monthLength_le
  unfold Moment.tick Date.next Moment.rank
  split_ifs <;> dsimp only <;> omega

theorem rank_strictMono : StrictMono fun t => (Moment.tick^[t] .start).rank := by
  refine strictMono_nat_of_lt_succ fun t => ?_
  rw [Function.iterate_succ_apply']
  exact (isReal_iterate t).rank_lt

/-- The clock never shows a moment twice. -/
theorem iterate_tick_injective : Function.Injective fun t => Moment.tick^[t] .start :=
  fun _ _ same => rank_strictMono.injective (congrArg Moment.rank same)

/-- The last second is the last of its year. -/
theorem year_le_iff : (Moment.tick^[t] .start).date.year ≤ 262142 ↔ t ≤ lastSecond := by
  have year (m : Moment) (real : m.IsReal) : m.date.year = m.rank / 35942400 := by
    obtain ⟨⟨month, day⟩, hour, minute, second⟩ := real
    have short : monthLength (isLeap m.date.year) m.date.month ≤ 31 := monthLength_le
    unfold Moment.rank
    omega
  have monotone {t u : Nat} (le : t ≤ u) :
      (Moment.tick^[t] .start).date.year ≤ (Moment.tick^[u] .start).date.year := by
    rw [year _ (isReal_iterate t), year _ (isReal_iterate u)]
    exact Nat.div_le_div_right (rank_strictMono.monotone le)
  have last : (Moment.tick^[lastSecond] .start).date.year = 262142 := by
    rw [← ofSeconds_eq_iterate]
    decide +kernel
  have next : (Moment.tick^[lastSecond + 1] .start).date.year = 262143 := by
    rw [← ofSeconds_eq_iterate]
    decide +kernel
  constructor
  · intro early
    by_contra late
    have later := monotone (t := lastSecond + 1) (Nat.lt_of_not_le late)
    omega
  · exact fun le => (monotone le).trans_eq last

end Seconds

end RemoteNode.Calendar
