import RemoteNode.Text.Decimal
import Mathlib.Algebra.Group.Nat.Defs
import Mathlib.Data.List.Basic

/-! Decimal digits and the numbers they stand for. A number is read from one or more digits, with
any number of zeros in front; its own digits are read as itself. -/

namespace RemoteNode.Text.Decimal

variable {cs : List Char} {c : Char} {n v width : Nat}

theorem isDigit_iff : c.isDigit ↔ 48 ≤ c.toNat ∧ c.toNat ≤ 57 := by
  simp [Char.isDigit, UInt32.le_iff_toNat_le]

theorem isDigit_of_mem_digits (there : c ∈ digits n) : c.isDigit :=
  Nat.isDigit_of_mem_toDigits (by decide) (by decide) there

theorem onto?_eq_some_iff :
    onto? n cs = some v ↔ (∀ c ∈ cs, c.isDigit) ∧ Nat.ofDigitChars 10 cs n = v := by
  induction cs generalizing n with
  | nil => simp [onto?]
  | cons c cs ih =>
    rw [onto?, value?, List.forall_mem_cons, isDigit_iff]
    by_cases digit : 48 ≤ c.toNat ∧ c.toNat ≤ 57
    · rw [if_pos digit, Option.bind_some, ih, and_assoc, and_iff_right digit]
      rfl
    · rw [if_neg digit, Option.bind_none]
      exact iff_of_false nofun fun h => digit h.1.1

theorem natural?_eq_some_iff : natural? cs = some v ↔
    cs ≠ [] ∧ (∀ c ∈ cs, c.isDigit) ∧ Nat.ofDigitChars 10 cs 0 = v := by
  cases cs with
  | nil => exact iff_of_false nofun fun h => h.1 rfl
  | cons c cs =>
    change onto? 0 (c :: cs) = some v ↔ _
    rw [onto?_eq_some_iff, and_iff_right (List.cons_ne_nil c cs)]

theorem ofDigitChars_digits : Nat.ofDigitChars 10 (digits n) 0 = n :=
  Nat.ofDigitChars_toDigits (by decide) (by decide)

theorem digits_injective : Function.Injective digits :=
  Function.LeftInverse.injective (g := (Nat.ofDigitChars 10 · 0)) fun _ => ofDigitChars_digits

theorem natural?_digits : natural? (digits n) = some n :=
  natural?_eq_some_iff.mpr
    ⟨Nat.toDigits_ne_nil, fun _ there => isDigit_of_mem_digits there, ofDigitChars_digits⟩

/-! ### Numerals of a width -/

/-- The numeral of a number that has exactly `width` digits. -/
def Numeral (width n : Nat) (cs : List Char) : Prop :=
  cs.length = width ∧ (∀ c ∈ cs, c.isDigit) ∧ Nat.ofDigitChars 10 cs 0 = n

theorem padded_of_le (wide : width ≤ (digits n).length) : padded width n = digits n := by
  simp only [padded, Nat.sub_eq_zero_of_le wide, List.replicate_zero, List.nil_append]

theorem ofDigitChars_zeros (k : Nat) :
    Nat.ofDigitChars 10 (List.replicate k '0' ++ cs) 0 = Nat.ofDigitChars 10 cs 0 := by
  induction k with
  | zero => rfl
  | succ k ih => exact ih

theorem numeral_padded (given : 0 < width) (fits : n < 10 ^ width) :
    Numeral width n (padded width n) := by
  have short : (digits n).length ≤ width := (Nat.length_toDigits_le_iff (by decide) given).mpr fits
  refine ⟨?_, fun c there => ?_, ?_⟩
  · simp only [padded, List.length_append, List.length_replicate]
    omega
  · obtain zero | digit := List.mem_append.mp there
    · rw [List.eq_of_mem_replicate zero]
      rfl
    · exact isDigit_of_mem_digits digit
  · exact (ofDigitChars_zeros _).trans ofDigitChars_digits

theorem Numeral.not_mem {m : Nat} (numeral : Numeral width m cs) (other : c.isDigit = false) :
    c ∉ cs := fun there => by
  rw [numeral.2.1 c there] at other
  cases other

end RemoteNode.Text.Decimal
