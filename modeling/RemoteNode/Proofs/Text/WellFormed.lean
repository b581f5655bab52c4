import RemoteNode.Text.Utf8

/-! Well-formed bytes are the bytes of characters: a run of bytes is read as characters just if it
is what these characters are written as. -/

namespace RemoteNode.Text.Utf8

variable {a b d e : UInt8} {bs : List UInt8} {c : Char} {cs : List Char} {x y z least code : Nat}

theorem continuation?_eq_some_iff : continuation? b = some x ↔ x < 64 ∧ b.toNat = x + 128 := by
  simp only [continuation?, UInt8.le_iff_toNat_le, UInt8.toNat_ofNat]
  split
  · simp only [Option.some.injEq]
    omega
  · simp only [reduceCtorEq, false_iff]
    omega

theorem scalar?_eq_some_iff : scalar? least code = some c ↔ least ≤ code ∧ c.toNat = code := by
  unfold scalar?
  split
  · rename_i valid
    split
    · rename_i large
      simp only [Option.some.injEq, Char.ext_iff, large, true_and]
      constructor
      · intro h
        rw [Char.toNat, ← h]
        rfl
      · rintro rfl
        rfl
    · rename_i small
      simp [small]
  · rename_i invalid
    simp only [reduceCtorEq, false_iff, not_and]
    rintro - rfl
    exact invalid c.valid

/-! ### The four forms -/

theorem decode_one (lead : a.toNat < 0x80) (char : scalar? 0 a.toNat = some c) :
    decode (a :: bs) = (decode bs).map (c :: ·) := by
  rw [decode.eq_def]
  cases tail : decode bs <;> simp [UInt8.lt_iff_toNat_lt, lead, char, tail]

theorem decode_two (low : 0xC0 ≤ a.toNat) (high : a.toNat < 0xE0)
    (hx : continuation? b = some x) (char : scalar? 0x80 ((a.toNat - 0xC0) * 64 + x) = some c) :
    decode (a :: b :: bs) = (decode bs).map (c :: ·) := by
  have above : ¬a.toNat < 0x80 ∧ ¬a.toNat < 0xC0 := by omega
  rw [decode.eq_def]
  cases tail : decode bs <;> simp [UInt8.lt_iff_toNat_lt, high, above, hx, char, tail]

theorem decode_three (low : 0xE0 ≤ a.toNat) (high : a.toNat < 0xF0)
    (hx : continuation? b = some x) (hy : continuation? d = some y)
    (char : scalar? 0x800 ((a.toNat - 0xE0) * 4096 + x * 64 + y) = some c) :
    decode (a :: b :: d :: bs) = (decode bs).map (c :: ·) := by
  have above : ¬a.toNat < 0x80 ∧ ¬a.toNat < 0xC0 ∧ ¬a.toNat < 0xE0 := by omega
  rw [decode.eq_def]
  cases tail : decode bs <;> simp [UInt8.lt_iff_toNat_lt, high, above, hx, hy, char, tail]

theorem decode_four (low : 0xF0 ≤ a.toNat) (high : a.toNat < 0xF8)
    (hx : continuation? b = some x) (hy : continuation? d = some y) (hz : continuation? e = some z)
    (char : scalar? 0x10000 ((a.toNat - 0xF0) * 262144 + x * 4096 + y * 64 + z) = some c) :
    decode (a :: b :: d :: e :: bs) = (decode bs).map (c :: ·) := by
  have above : ¬a.toNat < 0x80 ∧ ¬a.toNat < 0xC0 ∧ ¬a.toNat < 0xE0 ∧ ¬a.toNat < 0xF0 := by omega
  rw [decode.eq_def]
  -- Proof terms in place of definitional steps, which would compute the product.
  cases tail : decode bs <;>
    simp -implicitDefEqProofs [UInt8.lt_iff_toNat_lt, high, above, hx, hy, hz, char, tail]

theorem continuation?_ofNat (n : Nat) :
    continuation? (UInt8.ofNat (n % 64 + 128)) = some (n % 64) := by
  rw [continuation?_eq_some_iff, UInt8.toNat_ofNat']
  omega

/-- One written character is read back, whatever follows. -/
theorem decode_encodeChar_append (c : Char) (bs : List UInt8) :
    decode (String.utf8EncodeChar c ++ bs) = (decode bs).map (c :: ·) := by
  have bound : c.val.toNat < 0x110000 := by
    have := c.valid
    simp only [UInt32.isValidChar, Nat.isValidChar] at this
    omega
  have char {least code : Nat} (h : least ≤ code ∧ c.val.toNat = code) :
      scalar? least code = some c := scalar?_eq_some_iff.mpr h
  fun_cases String.utf8EncodeChar c with
  | case1 v one =>
    have lead : (UInt8.ofNat v).toNat = v := by
      rw [UInt8.toNat_ofNat']
      omega
    exact decode_one (by omega) (char (by omega))
  | case2 v one two =>
    have lead : (UInt8.ofNat (v / 64 % 32 + 192)).toNat = v / 64 + 0xC0 := by
      rw [UInt8.toNat_ofNat']
      omega
    exact decode_two (by omega) (by omega) (continuation?_ofNat v) (char (by omega))
  | case3 v one two three =>
    have lead : (UInt8.ofNat (v / 4096 % 16 + 224)).toNat = v / 4096 + 0xE0 := by
      rw [UInt8.toNat_ofNat']
      omega
    exact decode_three (by omega) (by omega) (continuation?_ofNat _) (continuation?_ofNat v)
      (char (by omega))
  | case4 v one two three =>
    have lead : (UInt8.ofNat (v / 262144 % 8 + 240)).toNat = v / 262144 + 0xF0 := by
      rw [UInt8.toNat_ofNat']
      omega
    exact decode_four (by omega) (by omega) (continuation?_ofNat _) (continuation?_ofNat _)
      (continuation?_ofNat v) (char (by omega))

theorem decode_encode (cs : List Char) : decode (encode cs) = some cs := by
  induction cs with
  | nil => rfl
  | cons c cs ih => rw [encode_cons, decode_encodeChar_append, ih, Option.map_some]

/-- The bytes that were read as one character are what it is written as. -/
theorem encodeChar_one (lead : a.toNat < 0x80) (char : scalar? 0 a.toNat = some c) :
    String.utf8EncodeChar c = [a] := by
  obtain ⟨-, code⟩ := scalar?_eq_some_iff.mp char
  change c.val.toNat = _ at code
  rw [String.utf8EncodeChar, if_pos (by omega)]
  simp only [List.cons.injEq, and_true, ← UInt8.toNat_inj, UInt8.toNat_ofNat']
  omega

theorem encodeChar_two (low : 0xC0 ≤ a.toNat) (high : a.toNat < 0xE0)
    (hx : continuation? b = some x) (char : scalar? 0x80 ((a.toNat - 0xC0) * 64 + x) = some c) :
    String.utf8EncodeChar c = [a, b] := by
  obtain ⟨least, code⟩ := scalar?_eq_some_iff.mp char
  obtain ⟨belowx, tailx⟩ := continuation?_eq_some_iff.mp hx
  change c.val.toNat = _ at code
  rw [String.utf8EncodeChar, if_neg (by omega), if_pos (by omega)]
  simp only [List.cons.injEq, and_true, ← UInt8.toNat_inj, UInt8.toNat_ofNat']
  omega

theorem encodeChar_three (low : 0xE0 ≤ a.toNat) (high : a.toNat < 0xF0)
    (hx : continuation? b = some x) (hy : continuation? d = some y)
    (char : scalar? 0x800 ((a.toNat - 0xE0) * 4096 + x * 64 + y) = some c) :
    String.utf8EncodeChar c = [a, b, d] := by
  obtain ⟨least, code⟩ := scalar?_eq_some_iff.mp char
  obtain ⟨belowx, tailx⟩ := continuation?_eq_some_iff.mp hx
  obtain ⟨belowy, taily⟩ := continuation?_eq_some_iff.mp hy
  change c.val.toNat = _ at code
  rw [String.utf8EncodeChar, if_neg (by omega), if_neg (by omega), if_pos (by omega)]
  simp only [List.cons.injEq, and_true, ← UInt8.toNat_inj, UInt8.toNat_ofNat']
  omega

theorem encodeChar_four (low : 0xF0 ≤ a.toNat) (high : a.toNat < 0xF8)
    (hx : continuation? b = some x) (hy : continuation? d = some y) (hz : continuation? e = some z)
    (char : scalar? 0x10000 ((a.toNat - 0xF0) * 262144 + x * 4096 + y * 64 + z) = some c) :
    String.utf8EncodeChar c = [a, b, d, e] := by
  obtain ⟨least, code⟩ := scalar?_eq_some_iff.mp char
  obtain ⟨belowx, tailx⟩ := continuation?_eq_some_iff.mp hx
  obtain ⟨belowy, taily⟩ := continuation?_eq_some_iff.mp hy
  obtain ⟨belowz, tailz⟩ := continuation?_eq_some_iff.mp hz
  change c.val.toNat = _ at code
  rw [String.utf8EncodeChar, if_neg (by omega), if_neg (by omega), if_neg (by omega)]
  simp only [List.cons.injEq, and_true, ← UInt8.toNat_inj, UInt8.toNat_ofNat']
  omega

theorem eq_encode_of_decode (h : decode bs = some cs) : bs = encode cs := by
  fun_induction decode bs generalizing cs with
  | case1 =>
    cases h
    rfl
  | case2 a rest one ih =>
    simp only [Option.bind_eq_bind, Option.bind_eq_some_iff, Option.pure_def,
      Option.some.injEq] at h
    obtain ⟨c, char, cs, read, rfl⟩ := h
    rw [encode_cons, encodeChar_one (UInt8.lt_iff_toNat_lt.mp one) char, ← ih read]
    rfl
  | case4 a one stray two b rest ih =>
    simp only [Option.bind_eq_bind, Option.bind_eq_some_iff, Option.pure_def,
      Option.some.injEq] at h
    obtain ⟨x, hx, c, char, cs, read, rfl⟩ := h
    simp only [UInt8.lt_iff_toNat_lt, UInt8.toNat_ofNat] at stray two
    rw [encode_cons, encodeChar_two (by omega) (by omega) hx char, ← ih read]
    rfl
  | case6 a one stray two three b d rest ih =>
    simp only [Option.bind_eq_bind, Option.bind_eq_some_iff, Option.pure_def,
      Option.some.injEq] at h
    obtain ⟨x, hx, y, hy, c, char, cs, read, rfl⟩ := h
    simp only [UInt8.lt_iff_toNat_lt, UInt8.toNat_ofNat] at two three
    rw [encode_cons, encodeChar_three (by omega) (by omega) hx hy char, ← ih read]
    rfl
  | case8 a one stray two three four b d e rest ih =>
    simp only [Option.bind_eq_bind, Option.bind_eq_some_iff, Option.pure_def,
      Option.some.injEq] at h
    obtain ⟨x, hx, y, hy, z, hz, c, char, cs, read, rfl⟩ := h
    simp only [UInt8.lt_iff_toNat_lt, UInt8.toNat_ofNat] at three four
    rw [encode_cons, encodeChar_four (by omega) (by omega) hx hy hz char, ← ih read]
    rfl
  | case3 | case5 | case7 | case9 | case10 => cases h

theorem decode_eq_some_iff : decode bs = some cs ↔ bs = encode cs :=
  ⟨eq_encode_of_decode, fun h => h ▸ decode_encode cs⟩

/-- Bytes spell a text just if they are its bytes. -/
theorem text?_eq_some_iff {s : String} : text? bs = some s ↔ bs = bytes s := by
  rw [text?, Option.map_eq_some_iff]
  constructor
  · rintro ⟨cs, read, rfl⟩
    rw [decode_eq_some_iff.mp read, bytes, String.toList_ofList]
  · rintro rfl
    exact ⟨s.toList, decode_encode _, String.ofList_toList⟩

end RemoteNode.Text.Utf8
