import RemoteNode.Text.Cut
import RemoteNode.Proofs.Calendar.Days
import RemoteNode.Proofs.Text.Numbers

/-! The written form of a number of seconds. As long as the calendar goes it is the RFC 3339 text of
exactly one moment, the one that a clock shows after so many seconds; beyond that it is the number
itself, which no text of a moment can be mistaken for. -/

namespace RemoteNode.Calendar

open Text Decimal

variable {s : String} {m m' : Moment} {t u y y' : Nat} {cs ds as bs : List Char} {c : Char}

/-- The written form of a year: four digits, or, where these do not suffice, a plus sign and as many
as it takes. -/
def WritesYear (y : Nat) (cs : List Char) : Prop :=
  y ≤ 9999 ∧ Numeral 4 y cs ∨ 9999 < y ∧ cs = '+' :: digits y

/-- A text is the RFC 3339 form of a moment in universal time. -/
def Moment.Writes (m : Moment) (s : String) : Prop :=
  m.IsReal ∧ ∃ year month day hour minute second : List Char,
    s.toList = year ++ '-' :: month ++ '-' :: day ++ 'T' :: hour ++ ':' :: minute ++
      ':' :: second ++ ['+', '0', '0', ':', '0', '0'] ∧
    WritesYear m.date.year year ∧ Numeral 2 m.date.month month ∧ Numeral 2 m.date.day day ∧
    Numeral 2 m.hour hour ∧ Numeral 2 m.minute minute ∧ Numeral 2 m.second second

/-! ### Years -/

theorem writesYear_yearDigits : WritesYear y (yearDigits y) := by
  unfold yearDigits
  split
  · rename_i long
    have wide : 5 ≤ (digits y).length := by
      by_contra short
      have fits := (Nat.length_toDigits_le_iff (b := 10) (k := 4) (by decide) (by decide)).mp
        (Nat.le_of_lt_succ (Nat.lt_of_not_le short))
      omega
    exact .inr ⟨long, congrArg _ (padded_of_le wide)⟩
  · rename_i short
    exact .inl ⟨Nat.le_of_not_lt short, numeral_padded (by decide) (by omega)⟩

theorem WritesYear.not_mem (year : WritesYear y cs) : '-' ∉ cs := by
  obtain ⟨-, numeral⟩ | ⟨-, rfl⟩ := year
  · exact numeral.not_mem rfl
  · intro there
    obtain digit : '-' ∈ digits y := by simpa using there
    cases isDigit_of_mem_digits digit

theorem WritesYear.unique (year : WritesYear y cs) (year' : WritesYear y' cs) : y = y' := by
  obtain ⟨-, numeral⟩ | ⟨-, rfl⟩ := year
  · obtain ⟨-, numeral'⟩ | ⟨-, rfl⟩ := year'
    · exact numeral.2.2.symm.trans numeral'.2.2
    · exact absurd List.mem_cons_self (numeral.not_mem rfl)
  · obtain ⟨-, numeral'⟩ | ⟨-, same⟩ := year'
    · exact absurd List.mem_cons_self (numeral'.not_mem rfl)
    · exact digits_injective (List.cons.inj same).2

/-! ### Moments -/

theorem writes_characters (real : m.IsReal) : m.Writes (String.ofList m.characters) := by
  have short : monthLength (isLeap m.date.year) m.date.month ≤ 31 := monthLength_le
  obtain ⟨month, day⟩ := real.date
  have hour := real.hour
  have minute := real.minute
  have second := real.second
  refine ⟨real, _, _, _, _, _, _, String.toList_ofList, writesYear_yearDigits, ?_⟩
  exact ⟨numeral_padded (by decide) (by omega), numeral_padded (by decide) (by omega),
    numeral_padded (by decide) (by omega), numeral_padded (by decide) (by omega),
    numeral_padded (by decide) (by omega)⟩

/-- A text is parted in one way by a character that is in none of the first parts. -/
theorem parts_inj (left : c ∉ cs) (right : c ∉ ds) (same : cs ++ c :: as = ds ++ c :: bs) :
    cs = ds ∧ as = bs := by
  have parted := congrArg (cut c) same
  rw [cut_append left, cut_append right, Prod.mk.injEq, Option.some.injEq] at parted
  exact parted

/-- A text denotes one moment at most. -/
theorem Moment.Writes.unique (written : m.Writes s) (written' : m'.Writes s) : m = m' := by
  obtain ⟨-, year, month, day, hour, minute, second, text, hy, hm, hd, hh, hmin, hs⟩ := written
  obtain ⟨-, year', month', day', hour', minute', second', text', hy', hm', hd', hh', hmin', hs'⟩ :=
    written'
  rw [text] at text'
  simp only [List.append_assoc, List.cons_append] at text'
  obtain ⟨rfl, fromMonth⟩ := parts_inj hy.not_mem hy'.not_mem text'
  obtain ⟨rfl, fromDay⟩ := parts_inj (hm.not_mem rfl) (hm'.not_mem rfl) fromMonth
  obtain ⟨rfl, fromHour⟩ := parts_inj (hd.not_mem rfl) (hd'.not_mem rfl) fromDay
  obtain ⟨rfl, fromMinute⟩ := parts_inj (hh.not_mem rfl) (hh'.not_mem rfl) fromHour
  obtain ⟨rfl, fromSecond⟩ := parts_inj (hmin.not_mem rfl) (hmin'.not_mem rfl) fromMinute
  obtain rfl := List.append_cancel_right fromSecond
  obtain ⟨⟨y, mo, d⟩, h, mi, sec⟩ := m
  obtain ⟨⟨y', mo', d'⟩, h', mi', sec'⟩ := m'
  obtain rfl : y = y' := hy.unique hy'
  obtain rfl : mo = mo' := hm.2.2.symm.trans hm'.2.2
  obtain rfl : d = d' := hd.2.2.symm.trans hd'.2.2
  obtain rfl : h = h' := hh.2.2.symm.trans hh'.2.2
  obtain rfl : mi = mi' := hmin.2.2.symm.trans hmin'.2.2
  obtain rfl : sec = sec' := hs.2.2.symm.trans hs'.2.2
  rfl

/-- Digits alone are no text of a moment. -/
theorem not_writes_digits (n : Nat) : ¬ m.Writes (String.ofList (digits n)) := by
  rintro ⟨-, year, month, day, hour, minute, second, text, -⟩
  rw [String.toList_ofList] at text
  have there : '-' ∈ digits n := by simp [text]
  cases isDigit_of_mem_digits there

/-! ### Numbers of seconds -/

theorem text_of_le (known : t ≤ lastSecond) :
    text t = String.ofList (Moment.tick^[t] .start).characters := by
  rw [text, if_pos known, ofSeconds_eq_iterate]

theorem text_of_lt (beyond : lastSecond < t) : text t = String.ofList (digits t) := by
  rw [text, if_neg (Nat.not_le_of_lt beyond)]

/-- As long as the calendar goes a number of seconds is written as one moment. -/
theorem writes_text_iff (known : t ≤ lastSecond) :
    m.Writes (text t) ↔ m = Moment.tick^[t] .start := by
  have written : (Moment.tick^[t] .start).Writes (text t) := by
    rw [text_of_le known]
    exact writes_characters (isReal_iterate t)
  exact ⟨fun other => other.unique written, fun same => same ▸ written⟩

theorem text_ne_text (known : t ≤ lastSecond) (beyond : lastSecond < u) : text t ≠ text u := by
  intro same
  have written := (writes_text_iff known).mpr rfl
  rw [same, text_of_lt beyond] at written
  exact not_writes_digits u written

theorem text_injective : Function.Injective text := by
  intro t u same
  obtain known | beyond := le_or_gt t lastSecond <;>
    obtain known' | beyond' := le_or_gt u lastSecond
  · have written := (writes_text_iff known).mpr rfl
    rw [same] at written
    exact iterate_tick_injective ((writes_text_iff known').mp written)
  · exact absurd same (text_ne_text known beyond')
  · exact absurd same.symm (text_ne_text known' beyond)
  · rw [text_of_lt beyond, text_of_lt beyond', String.ofList_inj] at same
    exact digits_injective same

/-- A number of seconds is written as the moment that the clock shows after them, as long as the
year is one of the calendar, and else as itself; no two numbers are written alike. -/
theorem text_denotes :
    (∀ t, t ≤ lastSecond ↔ (Moment.tick^[t] .start).date.year ≤ 262142) ∧
    (∀ t ≤ lastSecond, ∀ m : Moment, m.Writes (text t) ↔ m = Moment.tick^[t] .start) ∧
    (∀ t > lastSecond, text t = toString t) ∧ Function.Injective text :=
  ⟨fun _ => year_le_iff.symm, fun _ known _ => writes_text_iff known, fun _ => text_of_lt,
    text_injective⟩

/-- The first second of a year that takes five digits, 29 February of one that ends a century, and
the first second for which there is no date. -/
theorem text_denotes_bounds :
    (253402300800 ≤ lastSecond ∧
      Moment.Writes ⟨⟨10000, 1, 1⟩, 0, 0, 0⟩ (text 253402300800)) ∧
    (951868799 ≤ lastSecond ∧ Moment.Writes ⟨⟨2000, 2, 29⟩, 23, 59, 59⟩ (text 951868799)) ∧
    lastSecond < 8210266876800 ∧ text 8210266876800 = toString 8210266876800 := by
  have known : 253402300800 ≤ lastSecond ∧ 951868799 ≤ lastSecond := by decide
  have beyond : lastSecond < 8210266876800 := by decide
  obtain ⟨-, within, after, -⟩ := text_denotes
  refine ⟨⟨known.1, (within _ known.1 _).mpr ?_⟩, ⟨known.2, (within _ known.2 _).mpr ?_⟩,
    beyond, after _ beyond⟩
  · rw [← ofSeconds_eq_iterate]
    decide
  · rw [← ofSeconds_eq_iterate]
    decide

end RemoteNode.Calendar
