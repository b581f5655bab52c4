import RemoteNode.Proofs.Schema.Forms
import RemoteNode.Proofs.Schema.Packing
import Mathlib.Data.Bool.AllAny

/-! Identifiers as text. A text is read if and only if sixty-four hexadecimal digits of either case
are left of it without its marker, and the length is judged before the digits. Identifiers stand in
the order of their written forms. -/

namespace RemoteNode

namespace Text.Hex

variable {cs : List Char} {c : Char} {bytes as bs : List UInt8} {m n : Nat}

/-- The hexadecimal digits, the letters in either case. -/
def alphabet : List Char :=
  ['0', '1', '2', '3', '4', '5', '6', '7', '8', '9', 'a', 'b', 'c', 'd', 'e', 'f',
    'A', 'B', 'C', 'D', 'E', 'F']

/-! ### Digits and their values -/

theorem isSome_value?_iff : (value? c).isSome ↔ c ∈ alphabet := by
  have ascii (valued : (value? c).isSome) : c.toNat < 128 := by
    unfold value? at valued
    split at valued
    · omega
    split at valued
    · omega
    split at valued
    · omega
    · cases valued
  have known : ∀ n ∈ List.range 128, (value? (Char.ofNat n)).isSome → Char.ofNat n ∈ alphabet := by
    decide +kernel
  have valued : ∀ c ∈ alphabet, (value? c).isSome := List.all_iff_forall_prop.mp (by decide)
  refine ⟨fun h => ?_, valued c⟩
  rw [← Char.ofNat_toNat c] at h ⊢
  exact known _ (List.mem_range.mpr (by simpa using ascii (by simpa using h))) h

/-- The value of a digit is written as the digit in lower case. -/
theorem digit_of_value? (read : value? c = some n) : n < 16 ∧ digit n = c.toLower := by
  have all : ∀ c ∈ alphabet, ∀ n ∈ value? c, n < 16 ∧ digit n = c.toLower :=
    List.all_iff_forall_prop.mp (by decide)
  exact all c (isSome_value?_iff.mp (read ▸ rfl)) n read

theorem digit_lt_digit_iff (hm : m < 16) (hn : n < 16) : digit m < digit n ↔ m < n := by
  have all : ∀ m ∈ List.range 16, ∀ n ∈ List.range 16, digit m < digit n ↔ m < n := by decide
  exact all m (List.mem_range.mpr hm) n (List.mem_range.mpr hn)

theorem digit_inj (hm : m < 16) (hn : n < 16) : digit m = digit n ↔ m = n := by
  have all : ∀ m ∈ List.range 16, ∀ n ∈ List.range 16, digit m = digit n ↔ m = n := by decide
  exact all m (List.mem_range.mpr hm) n (List.mem_range.mpr hn)

theorem utf8Size_of_mem_alphabet (there : c ∈ alphabet) : c.utf8Size = 1 := by
  have all : ∀ c ∈ alphabet, c.utf8Size = 1 := List.all_iff_forall_prop.mp (by decide)
  exact all c there

/-! ### Runs of digits -/

theorem decode_pair_eq_some_iff {high low : Char} :
    decode (high :: low :: cs) = some bytes ↔ ∃ h l rest, value? high = some h ∧
      value? low = some l ∧ decode cs = some rest ∧ bytes = UInt8.ofNat (16 * h + l) :: rest := by
  simp only [decode, Option.bind_eq_bind, Option.bind_eq_some_iff, Option.pure_def,
    Option.some.injEq]
  constructor
  · rintro ⟨h, first, l, second, rest, others, rfl⟩
    exact ⟨h, l, rest, first, second, others, rfl⟩
  · rintro ⟨h, l, rest, first, second, others, rfl⟩
    exact ⟨h, first, l, second, rest, others, rfl⟩

/-- What is read from digits is written as these digits in lower case. -/
theorem encode_of_decode (read : decode cs = some bytes) :
    encode bytes = cs.map Char.toLower := by
  fun_induction decode cs generalizing bytes with
  | case1 =>
    cases read
    rfl
  | case2 => cases read
  | case3 high low cs ih =>
    obtain ⟨h, l, rest, first, second, others, rfl⟩ := decode_pair_eq_some_iff.mp read
    obtain ⟨smallHigh, sameHigh⟩ := digit_of_value? first
    obtain ⟨smallLow, sameLow⟩ := digit_of_value? second
    have value : (UInt8.ofNat (16 * h + l)).toNat = 16 * h + l := by
      rw [UInt8.toNat_ofNat']
      omega
    have upper : (16 * h + l) / 16 = h := by omega
    have lower : (16 * h + l) % 16 = l := by omega
    rw [encode_cons, value, upper, lower, sameHigh, sameLow, ih others]
    rfl

/-- Pairs of digits are read, and nothing else. -/
theorem exists_decode_iff :
    (∃ bytes, decode cs = some bytes) ↔ cs.length % 2 = 0 ∧ ∀ c ∈ cs, c ∈ alphabet := by
  fun_induction decode cs with
  | case1 => simp
  | case2 => simp
  | case3 high low cs ih =>
    have even : (high :: low :: cs).length % 2 = 0 ↔ cs.length % 2 = 0 := by
      simp only [List.length_cons]
      omega
    rw [even, List.forall_mem_cons, List.forall_mem_cons]
    constructor
    · rintro ⟨bytes, read⟩
      obtain ⟨h, l, rest, first, second, others, -⟩ := decode_pair_eq_some_iff.mp read
      obtain ⟨whole, digits⟩ := ih.mp ⟨rest, others⟩
      exact ⟨whole, isSome_value?_iff.mp (first ▸ rfl), isSome_value?_iff.mp (second ▸ rfl), digits⟩
    · rintro ⟨whole, first, second, digits⟩
      obtain ⟨h, first⟩ := Option.isSome_iff_exists.mp (isSome_value?_iff.mpr first)
      obtain ⟨l, second⟩ := Option.isSome_iff_exists.mp (isSome_value?_iff.mpr second)
      obtain ⟨rest, others⟩ := ih.mpr ⟨whole, digits⟩
      exact ⟨_, decode_pair_eq_some_iff.mpr ⟨h, l, rest, first, second, others, rfl⟩⟩

/-- Bytes stand in the order of their digits. -/
theorem encode_lt_encode_iff : encode as < encode bs ↔ as < bs := by
  induction as generalizing bs with
  | nil =>
    cases bs with
    | nil => simp
    | cons b bs => simp
  | cons a as ih =>
    cases bs with
    | nil => simp
    | cons b bs =>
      have highA : a.toNat / 16 < 16 := Nat.div_lt_of_lt_mul a.toNat_lt
      have highB : b.toNat / 16 < 16 := Nat.div_lt_of_lt_mul b.toNat_lt
      have lowA : a.toNat % 16 < 16 := Nat.mod_lt _ (by decide)
      have lowB : b.toNat % 16 < 16 := Nat.mod_lt _ (by decide)
      have same : a = b ↔ a.toNat / 16 = b.toNat / 16 ∧ a.toNat % 16 = b.toNat % 16 := by
        rw [← UInt8.toNat_inj]
        omega
      have less : a < b ↔ a.toNat / 16 < b.toNat / 16 ∨
          a.toNat / 16 = b.toNat / 16 ∧ a.toNat % 16 < b.toNat % 16 := by
        rw [UInt8.lt_iff_toNat_lt]
        omega
      simp only [encode_cons, List.cons_lt_cons_iff, digit_lt_digit_iff highA highB,
        digit_inj highA highB, digit_lt_digit_iff lowA lowB, digit_inj lowA lowB, ih, less, same,
        and_or_left, or_assoc, and_assoc]

end Text.Hex

namespace Bytes32

open Text.Hex (alphabet encode decode)

variable {s t : String} {cs : List Char} {id : Bytes32} {as bs : List UInt8}

/-! ### The marker -/

/-- The second text is what is left of the first without its marker, if it has one. -/
inductive Unmarked : String → String → Prop where
  | marked (t : String) : Unmarked ("0x" ++ t) t
  | plain {s : String} (absent : ∀ t, s ≠ "0x" ++ t) : Unmarked s s

theorem exists_unmarked (s : String) : ∃ t, Unmarked s t := by
  by_cases marked : ∃ t, s = "0x" ++ t
  · obtain ⟨t, rfl⟩ := marked
    exact ⟨t, .marked t⟩
  · exact ⟨s, .plain (not_exists.mp marked)⟩

theorem Unmarked.afterMarker_eq (unmarked : Unmarked s t) : afterMarker s.toList = t.toList := by
  cases unmarked with
  | marked t =>
    rw [String.toList_append]
    rfl
  | plain absent =>
    unfold afterMarker
    split
    · rename_i rest same
      refine absurd ?_ (absent (String.ofList rest))
      rw [← String.toList_inj, same, String.toList_append, String.toList_ofList (l := rest)]
      rfl
    · rfl

/-! ### Digits -/

/-- Sixty-four digits stand for an identifier. -/
theorem exists_decode_ofList?_iff :
    (∃ id, (decode cs).bind ofList? = some id) ↔ cs.length = 64 ∧ ∀ c ∈ cs, c ∈ alphabet := by
  have doubled {bytes : List UInt8} (read : decode cs = some bytes) :
      cs.length = 2 * bytes.length := by
    rw [← Text.Hex.length_encode, Text.Hex.encode_of_decode read, List.length_map]
  constructor
  · rintro ⟨id, found⟩
    obtain ⟨bytes, read, found⟩ := Option.bind_eq_some_iff.mp found
    obtain rfl := ofList?_eq_some_iff.mp found
    refine ⟨?_, (Text.Hex.exists_decode_iff.mp ⟨_, read⟩).2⟩
    rw [doubled read, id.length_eq]
  · rintro ⟨long, digits⟩
    obtain ⟨bytes, read⟩ := Text.Hex.exists_decode_iff.mpr ⟨by omega, digits⟩
    have enough : bytes.length = 32 := by
      have := doubled read
      omega
    exact ⟨⟨bytes, enough⟩, by rw [read, Option.bind_some, ofList?_eq_some_iff]⟩

theorem digits_of_decode (found : (decode cs).bind ofList? = some id) :
    id.digits = cs.map Char.toLower := by
  obtain ⟨bytes, read, found⟩ := Option.bind_eq_some_iff.mp found
  obtain rfl := ofList?_eq_some_iff.mp found
  exact Text.Hex.encode_of_decode read

theorem utf8ByteSize_of_digits (digits : ∀ c ∈ t.toList, c ∈ alphabet) :
    t.utf8ByteSize = t.length := by
  have ascii : ∀ c ∈ t.toList, c.utf8Size = 1 := fun c there =>
    Text.Hex.utf8Size_of_mem_alphabet (digits c there)
  rw [← String.length_toList, ← utf8ByteSize_ofList ascii, String.ofList_toList]

/-! ### Reading -/

/-- The length is judged before the digits. -/
theorem ofText_of_unmarked (unmarked : Unmarked s t) :
    ofText s = if t.utf8ByteSize ≠ 64 then .error (.length t.utf8ByteSize)
      else ((decode t.toList).bind ofList?).elim (.error .digit) .ok := by
  rw [ofText, unmarked.afterMarker_eq, String.ofList_toList]
  cases (decode t.toList).bind ofList? <;> rfl

/-- What is made of a text of which `t` is left without its marker. -/
structure Reading (t : String) (outcome : Except Error Bytes32) : Prop where
  /-- Sixty-four digits are accepted, and nothing else. -/
  accepted : (∃ id, outcome = .ok id) ↔ t.length = 64 ∧ ∀ c ∈ t.toList, c ∈ alphabet
  /-- The written form has the same digits in lower case. -/
  value : ∀ id, outcome = .ok id → id.text = t.map Char.toLower
  /-- A length is refused with the number of bytes. -/
  length : ∀ n, outcome = .error (.length n) ↔ n = t.utf8ByteSize ∧ n ≠ 64
  /-- A text of the right length is refused for a character that is no digit. -/
  digit : outcome = .error .digit ↔ t.utf8ByteSize = 64 ∧ ∃ c ∈ t.toList, c ∉ alphabet

theorem length_iff_of_digits (digits : ∀ c ∈ t.toList, c ∈ alphabet) :
    t.length = 64 ↔ t.utf8ByteSize = 64 := by
  rw [utf8ByteSize_of_digits digits]

theorem reading_ok (long : t.length = 64) (digits : ∀ c ∈ t.toList, c ∈ alphabet)
    (written : id.text = t.map Char.toLower) : Reading t (.ok id) where
  accepted := iff_of_true ⟨id, rfl⟩ ⟨long, digits⟩
  value := by
    rintro _ ⟨⟩
    exact written
  length n := iff_of_false (by simp) fun h =>
    h.2 (h.1.trans ((length_iff_of_digits digits).mp long))
  digit := by
    refine iff_of_false (by simp) ?_
    rintro ⟨-, c, there, other⟩
    exact other (digits c there)

theorem reading_digit (long : t.utf8ByteSize = 64) (other : ∃ c ∈ t.toList, c ∉ alphabet) :
    Reading t (.error .digit) where
  accepted := by
    refine iff_of_false (by simp) fun h => ?_
    obtain ⟨c, there, other⟩ := other
    exact other (h.2 c there)
  value := by simp
  length n := iff_of_false (by simp) fun h => h.2 (h.1.trans long)
  digit := iff_of_true rfl ⟨long, other⟩

theorem reading_length (other : t.utf8ByteSize ≠ 64) :
    Reading t (.error (.length t.utf8ByteSize)) where
  accepted := iff_of_false (by simp) fun h => other ((length_iff_of_digits h.2).mp h.1)
  value := by simp
  length n := by
    rw [Except.error.injEq, Error.length.injEq]
    exact ⟨fun same => ⟨same.symm, same ▸ other⟩, fun h => h.1.symm⟩
  digit := iff_of_false (by simp) fun h => other h.1

theorem Unmarked.reading (unmarked : Unmarked s t) : Reading t (ofText s) := by
  have found : (∃ id, (decode t.toList).bind ofList? = some id) ↔
      t.length = 64 ∧ ∀ c ∈ t.toList, c ∈ alphabet := by
    rw [exists_decode_ofList?_iff, String.length_toList]
  rw [ofText_of_unmarked unmarked]
  by_cases long : t.utf8ByteSize = 64
  · rw [if_neg (not_not_intro long)]
    cases read : (decode t.toList).bind ofList? with
    | some id =>
      obtain ⟨size, digits⟩ := found.mp ⟨id, read⟩
      refine reading_ok size digits ?_
      rw [text, digits_of_decode read, ← String.toList_inj, String.toList_ofList,
        String.toList_map]
    | none =>
      have other : ¬ ∀ c ∈ t.toList, c ∈ alphabet := fun digits => by
        obtain ⟨id, some⟩ := found.mpr ⟨(length_iff_of_digits digits).mpr long, digits⟩
        rw [read] at some
        cases some
      exact reading_digit long (by simpa using other)
  · rw [if_pos long]
    exact reading_length long

/-! ### The order -/

theorem compareBytes_eq_lt_iff : compareBytes as bs = .lt ↔ as < bs := by
  induction as generalizing bs with
  | nil => cases bs <;> simp [compareBytes]
  | cons a as ih =>
    cases bs with
    | nil => simp [compareBytes]
    | cons b bs =>
      rw [compareBytes, List.cons_lt_cons_iff]
      by_cases less : a < b
      · simp [less]
      · by_cases greater : b < a
        · have other : a ≠ b := fun same => less (same ▸ greater)
          simp [less, greater, other]
        · have same : a = b := UInt8.le_antisymm (UInt8.not_lt.mp greater) (UInt8.not_lt.mp less)
          simp [same, ih]

/-- Identifiers are ordered as their written forms. -/
theorem compare_eq_lt_iff (a b : Bytes32) : compare a b = .lt ↔ a.text < b.text := by
  change compareBytes a.toList b.toList = .lt ↔ _
  rw [compareBytes_eq_lt_iff, String.lt_iff, text, text, String.toList_ofList,
    String.toList_ofList]
  exact Text.Hex.encode_lt_encode_iff.symm

/-- The text of an identifier, be it a hash or a key: what is read from a text, that the written
form is read back, and that it keeps the order. -/
theorem text_exact : (∀ s, ∃ t, Unmarked s t ∧ Reading t (ofText s)) ∧
    (∀ id, ofText id.text = .ok id) ∧ ∀ a b : Bytes32, compare a b = .lt ↔ a.text < b.text := by
  refine ⟨fun s => ?_, ofText_text, compare_eq_lt_iff⟩
  obtain ⟨t, unmarked⟩ := exists_unmarked s
  exact ⟨t, unmarked, unmarked.reading⟩

end Bytes32

end RemoteNode
