import RemoteNode.Json.Tree
import RemoteNode.Proofs.Text.Numbers
import RemoteNode.Proofs.Text.WellFormed
import RemoteNode.Text.Hex
import Mathlib.Data.List.Basic
import Mathlib.Data.List.Forall2

/-! Compact JSON text is cut into the tokens it was made of: every text into one token with its own
content, every integer into one numeral of its own value. -/

namespace RemoteNode.Json

open Text

/-! ### Numerals -/

/-- The values of the digits of a natural number. -/
def decimalDigits (n : Nat) : List Nat := (Nat.toDigits 10 n).map fun c => c.toNat - 48

/-- The numeral of an integer. -/
def Numeral.ofInt (i : Int) : Numeral := ⟨decide (i < 0), decimalDigits i.natAbs, [], none⟩

theorem Numeral.value_decimalDigits (n : Nat) : value (decimalDigits n) = n := by
  have read : Nat.ofDigitChars 10 (Nat.toDigits 10 n) 0 = n := Nat.ofDigitChars_ten_toDigits
  rw [Nat.ofDigitChars_eq_foldl] at read
  rw [value, decimalDigits, List.foldl_map]
  exact read

/-- An integer that a 64-bit word holds is what its numeral stands for. -/
theorem Numeral.integer?_ofInt {i : Int} (low : Int64.minValue.toInt ≤ i) (high : i < UInt64.size) :
    (ofInt i).integer? = some i := by
  have least : Int64.minValue.toInt = -9223372036854775808 := by decide
  rw [least] at low
  simp only [UInt64.size] at high
  simp only [integer?, ofInt, isWhole, List.isEmpty_nil, Option.isNone_none, Bool.and_self, if_true,
    value_decimalDigits, least, UInt64.size, decide_eq_true_eq]
  by_cases negative : i < 0
  · rw [if_pos negative, if_pos (by omega), Option.some.injEq]
    omega
  · rw [if_neg negative, if_pos (by omega), Option.some.injEq]
    omega

/-- A positive number has no leading zero. -/
theorem head_toDigits {n : Nat} {c : Char} {cs : List Char} (h : Nat.toDigits 10 n = c :: cs)
    (pos : 0 < n) : c ≠ '0' := by
  induction n using Nat.strongRecOn generalizing cs with
  | ind n ih =>
    by_cases small : n < 10
    · rw [Nat.toDigits_of_lt_base small] at h
      obtain ⟨rfl, -⟩ := List.cons.inj h
      rw [ne_eq, Nat.digitChar_eq_zero]
      omega
    · rw [Nat.toDigits_of_base_le (by decide) (by omega)] at h
      cases front : Nat.toDigits 10 (n / 10) with
      | nil => exact absurd front Nat.toDigits_ne_nil
      | cons d ds =>
        rw [front] at h
        obtain ⟨rfl, -⟩ := List.cons.inj h
        exact ih (n / 10) (by omega) front (by omega)

/-- An integer is written as the digits of its magnitude, with a sign if it is negative. -/
theorem print_integer (i : Int) :
    print (.integer i) = (if i < 0 then ['-'] else []) ++ Nat.toDigits 10 i.natAbs := by
  rw [print]
  cases i with
  | ofNat n =>
    rw [if_neg (by simp)]
    exact Nat.toList_repr
  | negSucc n =>
    rw [if_pos (Int.negSucc_lt_zero n)]
    change ("-" ++ (n + 1).repr).toList = _
    rw [String.toList_append, Nat.toList_repr]
    rfl

/-! ### Tokens -/

/-- A value nests at most `room` containers, its integers are 64-bit words, and no double in it is
finite. -/
def Value.Fits : Nat → Value → Prop
  | _, .integer i => Int64.minValue.toInt ≤ i ∧ i < UInt64.size
  | _, .double d => d.isFinite = false
  | 0, .array _ | 0, .object _ => False
  | room + 1, .array items => ∀ item ∈ items, item.Fits room
  | room + 1, .object members => ∀ m ∈ members, m.2.Fits room
  | _, _ => True

mutual

/-- The tokens of a value none of whose doubles is finite: such a double is written as null. -/
def Value.tokens : Value → List Token
  | .null | .double _ => [.null]
  | .flag b => [.flag b]
  | .integer i => [.number (.ofInt i)]
  | .text s => [.text (some s)]
  | .array items => .openArray :: List.intercalate [.comma] (itemTokens items) ++ [.closeArray]
  | .object members =>
    .openObject :: List.intercalate [.comma] (memberTokens members) ++ [.closeObject]

/-- The tokens of the items of an array. -/
def itemTokens : List Value → List (List Token)
  | [] => []
  | item :: items => item.tokens :: itemTokens items

/-- The tokens of the members of an object. -/
def memberTokens : List (String × Value) → List (List Token)
  | [] => []
  | (key, value) :: members =>
    (.text (some key) :: .colon :: value.tokens) :: memberTokens members

end

namespace Lexer

variable {done ts : List Token} {rest bytes : List UInt8} {cs : List Char} {b : UInt8} {c : Char}
  {mode next : Mode} {state : NumberState} {numeral : Numeral} {ps : List Piece}

theorem run_cons (h : step mode b = some (next, ts)) :
    run mode done (b :: rest) = run next (ts.reverse ++ done) rest := by
  rw [run, h]

theorem encodeChar_ascii (h : c.toNat < 128) : String.utf8EncodeChar c = [UInt8.ofNat c.toNat] := by
  change c.val.toNat < 128 at h
  rw [String.utf8EncodeChar, if_pos (by omega)]
  rfl

/-! ### Numbers -/

/-- A number ends where nothing follows, or what comes between and after the parts of a value. -/
def Ends (rest : List UInt8) : Prop := ∀ b ∈ rest.head?, b = 44 ∨ b = 93 ∨ b = 125

theorem ends_nil : Ends [] := nofun

/-- At the end of a number it is as if the next token started. -/
theorem run_number (finished : finished? state = some numeral)
    (stops : ∀ b ∈ rest.head?, continued? state b = none) :
    run (.number state) done rest = run .idle (.number numeral :: done) rest := by
  cases rest with
  | nil => simp [run, finish, finished]
  | cons b rest =>
    have stops := stops b rfl
    rw [run, run, step, step, stops, finished]
    cases start b with
    | none => rfl
    | some begun =>
      obtain ⟨mode, _ | token⟩ := begun <;> rfl

theorem digit?_digit (h : c.isDigit) : digit? (UInt8.ofNat c.toNat) = some (c.toNat - 48) := by
  have bounds := Decimal.isDigit_iff.mp h
  have same : (UInt8.ofNat c.toNat).toNat = c.toNat := by
    rw [UInt8.toNat_ofNat']
    omega
  simp only [digit?, UInt8.le_iff_toNat_le, same]
  exact if_pos bounds

theorem encode_digit_cons (h : c.isDigit) (cs : List Char) :
    Utf8.encode (c :: cs) = UInt8.ofNat c.toNat :: Utf8.encode cs := by
  have bounds := Decimal.isDigit_iff.mp h
  rw [Utf8.encode_cons, encodeChar_ascii (by omega)]
  rfl

/-- Digits before the point are taken one by one. -/
theorem run_whole {negative : Bool} {whole : List Nat} (digits : ∀ c ∈ cs, c.isDigit) :
    run (.number ⟨.whole, negative, whole, [], false, []⟩) done (Utf8.encode cs ++ rest) =
      run (.number ⟨.whole, negative, (cs.map fun c => c.toNat - 48).reverse ++ whole, [], false,
        []⟩) done rest := by
  induction cs generalizing whole with
  | nil => rfl
  | cons c cs ih =>
    obtain ⟨digit, digits⟩ := List.forall_mem_cons.mp digits
    have taken : step (.number ⟨.whole, negative, whole, [], false, []⟩) (UInt8.ofNat c.toNat) =
        some (.number ⟨.whole, negative, (c.toNat - 48) :: whole, [], false, []⟩, []) := by
      rw [step, continued?, digit?_digit digit]
    rw [encode_digit_cons digit, List.cons_append, run_cons taken, List.reverse_nil,
      List.nil_append, ih digits]
    simp

/-- Nothing that may follow a number continues it. -/
theorem continued?_ends {negative : Bool} {whole : List Nat} {stage : NumberStage}
    (ends : Ends rest) (last : stage = .zero ∨ stage = .whole) :
    ∀ b ∈ rest.head?, continued? ⟨stage, negative, whole, [], false, []⟩ b = none := by
  intro b here
  obtain rfl | rfl | rfl := ends b here <;> obtain rfl | rfl := last <;> rfl

/-- The digits of a number, with the sign already taken, are one token. -/
theorem run_digits (negative : Bool) (n : Nat) (ends : Ends rest) :
    run (.number ⟨.sign, negative, [], [], false, []⟩) done
        (Utf8.encode (Nat.toDigits 10 n) ++ rest) =
      run .idle (.number ⟨negative, decimalDigits n, [], none⟩ :: done) rest := by
  rw [decimalDigits]
  cases front : Nat.toDigits 10 n with
  | nil => exact absurd front Nat.toDigits_ne_nil
  | cons c cs =>
    have digits : ∀ d ∈ c :: cs, d.isDigit := fun d there =>
      Nat.isDigit_of_mem_toDigits (by decide) (by decide) (front ▸ there)
    obtain ⟨digit, digits⟩ := List.forall_mem_cons.mp digits
    have taken : step (.number ⟨.sign, negative, [], [], false, []⟩) (UInt8.ofNat c.toNat) =
        some (.number ⟨if c.toNat - 48 = 0 then .zero else .whole, negative, [c.toNat - 48], [],
          false, []⟩, []) := by
      rw [step, continued?, digit?_digit digit]
    rw [encode_digit_cons digit, List.cons_append, run_cons taken, List.reverse_nil,
      List.nil_append]
    obtain rfl | pos := Nat.eq_zero_or_pos n
    · obtain ⟨rfl, rfl⟩ := List.cons.inj ((Nat.toDigits_zero 10).symm.trans front)
      exact run_number rfl (continued?_ends ends (.inl rfl))
    · have nonzero : ¬c.toNat - 48 = 0 := by
        intro zero
        have bounds := Decimal.isDigit_iff.mp digit
        exact head_toDigits front pos (Char.toNat_inj.mp (show c.toNat = 48 by omega))
      rw [if_neg nonzero, run_whole digits]
      refine run_number ?_ (continued?_ends ends (.inr rfl))
      simp [finished?]

theorem start_digit {d : Nat} (h : digit? b = some d) :
    start b = (continued? ⟨.sign, false, [], [], false, []⟩ b).map fun s => (.number s, none) := by
  have outside (k : UInt8) (h' : k < 48 ∨ 57 < k) : b ≠ k := by
    rintro rfl
    obtain ⟨⟨low, high⟩, -⟩ := Option.ite_none_right_eq_some.mp h
    rcases h' with below | above
    · exact UInt8.not_lt.mpr low below
    · exact UInt8.not_lt.mpr high above
  simp [start, outside]

theorem run_idle_digit (digit : c.isDigit) :
    run .idle done (UInt8.ofNat c.toNat :: rest) =
      run (.number ⟨.sign, false, [], [], false, []⟩) done (UInt8.ofNat c.toNat :: rest) := by
  have begun : continued? ⟨.sign, false, [], [], false, []⟩ (UInt8.ofNat c.toNat) =
      some ⟨if c.toNat - 48 = 0 then .zero else .whole, false, [c.toNat - 48], [], false, []⟩ := by
    rw [continued?, digit?_digit digit]
  rw [run, run, step, step, start_digit (digit?_digit digit), begun]
  rfl

theorem run_integer (i : Int) (ends : Ends rest) :
    run .idle done (Utf8.encode (print (.integer i)) ++ rest) =
      run .idle (.number (.ofInt i) :: done) rest := by
  rw [print_integer]
  by_cases negative : i < 0
  · have sign : step .idle 45 = some (.number ⟨.sign, true, [], [], false, []⟩, []) := rfl
    rw [if_pos negative]
    refine (run_cons sign).trans ?_
    rw [Numeral.ofInt, decide_eq_true negative]
    exact run_digits true i.natAbs ends
  · rw [if_neg negative, List.nil_append, Numeral.ofInt, decide_eq_false negative,
      ← run_digits false i.natAbs ends]
    cases front : Nat.toDigits 10 i.natAbs with
    | nil => exact absurd front Nat.toDigits_ne_nil
    | cons c cs =>
      have digit : c.isDigit := Nat.isDigit_of_mem_toDigits (by decide) (by decide)
        (front ▸ List.mem_cons_self ..)
      rw [encode_digit_cons digit, List.cons_append, run_idle_digit digit]

/-! ### Texts -/

/-- The pieces that a character of a text is read as. -/
def pieces (c : Char) : List Piece :=
  if c.toNat < 32 ∧ c.toNat ∉ [8, 9, 10, 12, 13] then [.unit c.toNat]
  else (String.utf8EncodeChar c).map .byte

/-- Bytes that are neither a quote nor a backslash nor a control character stand for themselves. -/
theorem run_plain (plain : ∀ b ∈ bytes, b ≠ 34 ∧ b ≠ 92 ∧ ¬b < 32) :
    run (.text ps) done (bytes ++ rest) =
      run (.text ((bytes.map .byte).reverse ++ ps)) done rest := by
  induction bytes generalizing ps with
  | nil => rfl
  | cons b bytes ih =>
    obtain ⟨⟨quote, backslash, control⟩, plain⟩ := List.forall_mem_cons.mp plain
    have taken : step (.text ps) b = some (.text (.byte b :: ps), []) := by
      rw [step, if_neg quote, if_neg backslash, if_neg control]
    rw [List.cons_append, run_cons taken, List.reverse_nil, List.nil_append, ih plain]
    simp

/-- The bytes of a character that is not escaped. -/
theorem plain_encodeChar (quote : c ≠ '"') (backslash : c ≠ '\\') (control : ¬c.toNat < 32) :
    ∀ b ∈ String.utf8EncodeChar c, b ≠ 34 ∧ b ≠ 92 ∧ ¬b < 32 := by
  have large {n : Nat} (high : 32 ≤ n) (byte : n < 256) (q : n ≠ 34) (r : n ≠ 92) :
      UInt8.ofNat n ≠ 34 ∧ UInt8.ofNat n ≠ 92 ∧ ¬UInt8.ofNat n < 32 := by
    have same : (UInt8.ofNat n).toNat = n := by
      rw [UInt8.toNat_ofNat']
      omega
    simp only [ne_eq, ← UInt8.toNat_inj, UInt8.lt_iff_toNat_lt, same]
    exact ⟨q, r, Nat.not_lt.mpr high⟩
  have q : c.toNat ≠ 34 := fun same => quote (Char.toNat_inj.mp same)
  have r : c.toNat ≠ 92 := fun same => backslash (Char.toNat_inj.mp same)
  change ¬c.val.toNat < 32 at control
  change c.val.toNat ≠ _ at q r
  have bound : c.val.toNat < 0x110000 := by
    have := c.valid
    simp only [UInt32.isValidChar, Nat.isValidChar] at this
    omega
  fun_cases String.utf8EncodeChar c with
  | case1 v one =>
    exact List.forall_mem_singleton.mpr (large (by omega) (by omega) q r)
  | case2 =>
    exact List.forall_mem_cons.mpr ⟨large (by omega) (by omega) (by omega) (by omega),
      List.forall_mem_singleton.mpr (large (by omega) (by omega) (by omega) (by omega))⟩
  | case3 =>
    simp only [List.forall_mem_cons]
    exact ⟨large (by omega) (by omega) (by omega) (by omega),
      large (by omega) (by omega) (by omega) (by omega),
      large (by omega) (by omega) (by omega) (by omega), List.forall_mem_nil _⟩
  | case4 =>
    simp only [List.forall_mem_cons]
    exact ⟨large (by omega) (by omega) (by omega) (by omega),
      large (by omega) (by omega) (by omega) (by omega),
      large (by omega) (by omega) (by omega) (by omega),
      large (by omega) (by omega) (by omega) (by omega), List.forall_mem_nil _⟩

/-- A control character without an escape of its own is written by its code. -/
theorem escape_control (control : c.toNat < 32) (others : c.toNat ∉ [8, 9, 10, 12, 13]) :
    escape c = ['\\', 'u', '0', '0', Hex.digit (c.toNat / 16), Hex.digit (c.toNat % 16)] := by
  have all : ∀ n ∈ List.range 32, n ∉ [8, 9, 10, 12, 13] → escape (Char.ofNat n) =
      ['\\', 'u', '0', '0', Hex.digit (n / 16), Hex.digit (n % 16)] := by decide
  have written := all c.toNat (List.mem_range.mpr control) others
  rwa [Char.ofNat_toNat] at written

/-- A written hexadecimal digit is read back. -/
theorem hexDigit?_digit {n : Nat} (h : n < 16) :
    ∃ b, String.utf8EncodeChar (Hex.digit n) = [b] ∧ hexDigit? b = some n := by
  have all : ∀ m ∈ List.range 16, String.utf8EncodeChar (Hex.digit m) =
      [UInt8.ofNat (Hex.digit m).toNat] ∧ hexDigit? (UInt8.ofNat (Hex.digit m).toNat) = some m := by
    decide
  exact ⟨_, all n (List.mem_range.mpr h)⟩

/-- A control character without an escape of its own is read by its code. -/
theorem run_escape_control (control : c.toNat < 32) (others : c.toNat ∉ [8, 9, 10, 12, 13]) :
    run (.text ps) done (Utf8.encode (escape c) ++ rest) =
      run (.text (.unit c.toNat :: ps)) done rest := by
  obtain ⟨b, high, readHigh⟩ := hexDigit?_digit (show c.toNat / 16 < 16 by omega)
  obtain ⟨d, low, readLow⟩ := hexDigit?_digit (show c.toNat % 16 < 16 by omega)
  have third : step (.unicode ps [0, 0]) b = some (.unicode ps [c.toNat / 16, 0, 0], []) := by
    rw [step, readHigh]
    rfl
  have last : step (.unicode ps [c.toNat / 16, 0, 0]) d =
      some (.text (.unit c.toNat :: ps), []) := by
    have code : 16 * (16 * (16 * (16 * 0 + 0) + 0) + c.toNat / 16) + c.toNat % 16 = c.toNat := by
      omega
    rw [step, readLow]
    change some (Mode.text (.unit (16 * (16 * (16 * (16 * 0 + 0) + 0) + c.toNat / 16) +
      c.toNat % 16) :: ps), []) = _
    rw [code]
  rw [escape_control control others, Utf8.encode]
  simp only [List.flatMap_cons, high, low]
  change run (.unicode ps [0, 0]) done (b :: d :: rest) = _
  exact (run_cons third).trans (run_cons last)

theorem run_escape (c : Char) :
    run (.text ps) done (Utf8.encode (escape c) ++ rest) =
      run (.text ((pieces c).reverse ++ ps)) done rest := by
  by_cases control : c.toNat < 32 ∧ c.toNat ∉ [8, 9, 10, 12, 13]
  · rw [pieces, if_pos control]
    exact run_escape_control control.1 control.2
  rw [pieces, if_neg control]
  -- the escapes of one letter are for single characters, so reading them is a computation
  have named (d : Char) (same : c.toNat = d.toNat)
      (read : ∀ rest, run (.text ps) done (Utf8.encode (escape d) ++ rest) =
        run (.text (((String.utf8EncodeChar d).map .byte).reverse ++ ps)) done rest) :
      run (.text ps) done (Utf8.encode (escape c) ++ rest) =
        run (.text (((String.utf8EncodeChar c).map .byte).reverse ++ ps)) done rest := by
    obtain rfl : c = d := Char.toNat_inj.mp same
    exact read rest
  by_cases quote : c = '"'
  · exact named '"' (by rw [quote]) fun _ => rfl
  by_cases backslash : c = '\\'
  · exact named '\\' (by rw [backslash]) fun _ => rfl
  by_cases small : c.toNat < 32
  · have letters : c.toNat ∈ [8, 9, 10, 12, 13] := by
      by_contra other
      exact control ⟨small, other⟩
    simp only [List.mem_cons, List.not_mem_nil, or_false] at letters
    obtain code | code | code | code | code := letters
    · exact named '\x08' code fun _ => rfl
    · exact named '\t' code fun _ => rfl
    · exact named '\n' code fun _ => rfl
    · exact named '\x0c' code fun _ => rfl
    · exact named '\r' code fun _ => rfl
  · have itself : escape c = [c] := by
      have code (n : Nat) (h : n < 32) : c.toNat ≠ n := by omega
      simp [escape, quote, backslash, small, code]
    rw [itself, Utf8.encode_cons, Utf8.encode_nil, List.append_nil]
    exact run_plain (plain_encodeChar quote backslash small)

theorem pieceBytes_pieces (c : Char) (ps : List Piece) :
    pieceBytes (pieces c ++ ps) = (pieceBytes ps).map (String.utf8EncodeChar c ++ ·) := by
  have plain (bs : List UInt8) :
      pieceBytes (bs.map .byte ++ ps) = (pieceBytes ps).map (bs ++ ·) := by
    induction bs with
    | nil => simp
    | cons b bs ih =>
      rw [List.map_cons, List.cons_append, pieceBytes, ih, Option.map_map]
      rfl
  rw [pieces]
  split
  · rename_i control
    rw [List.cons_append, List.nil_append, pieceBytes.eq_def]
    refine (if_pos (.inl (by omega))).trans ?_
    rw [codePointBytes, Char.ofNat_toNat]
  · exact plain _

/-- The characters of a text give its content. -/
theorem content?_pieces (s : String) : content? (s.toList.flatMap pieces) = some s := by
  have bytes (cs : List Char) : pieceBytes (cs.flatMap pieces) = some (Utf8.encode cs) := by
    induction cs with
    | nil => rfl
    | cons c cs ih =>
      rw [List.flatMap_cons, pieceBytes_pieces, ih, Option.map_some, Utf8.encode_cons]
  rw [content?, bytes, Option.bind_some]
  exact Utf8.text?_eq_some_iff.mpr rfl

/-- A text between its quotes is one token with that text. -/
theorem run_quote (s : String) :
    run .idle done (Utf8.encode (quote s) ++ rest) = run .idle (.text (some s) :: done) rest := by
  have escaped (cs : List Char) (ps : List Piece) (rest : List UInt8) :
      run (.text ps) done (Utf8.encode (cs.flatMap escape) ++ rest) =
        run (.text ((cs.flatMap pieces).reverse ++ ps)) done rest := by
    induction cs generalizing ps with
    | nil => rfl
    | cons c cs ih =>
      rw [List.flatMap_cons, Utf8.encode_append, List.append_assoc, run_escape, ih]
      simp
  have opened : step .idle 34 = some (.text [], []) := rfl
  have closed : step (.text (s.toList.flatMap pieces).reverse) 34 =
      some (.idle, [.text (some s)]) := by
    rw [step, if_pos rfl, List.reverse_reverse, content?_pieces]
  rw [quote, Utf8.encode_append, List.append_assoc]
  refine (run_cons opened).trans ?_
  change run (.text []) done (Utf8.encode (s.toList.flatMap escape) ++ 34 :: rest) = _
  rw [escaped, List.append_nil]
  exact run_cons closed

/-! ### Values -/

/-- Characters are cut into tokens wherever a number may end after them. -/
def Cuts (cs : List Char) (ts : List Token) : Prop :=
  ∀ done rest, Ends rest →
    run .idle done (Utf8.encode cs ++ rest) = run .idle (ts.reverse ++ done) rest

/-- Parts with commas between them are cut part by part. -/
theorem cuts_intercalate {parts : List (List Char)} {tokens : List (List Token)}
    (each : List.Forall₂ Cuts parts tokens) :
    Cuts (commaSeparated parts) (List.intercalate [.comma] tokens) := by
  induction each with
  | nil => exact fun _ _ _ => rfl
  | @cons cs ts parts tokens first each ih =>
    cases each with
    | nil =>
      rw [commaSeparated, List.intercalate_singleton, List.intercalate_singleton]
      exact first
    | cons second each =>
      intro done rest ends
      have comma : step .idle 44 = some (.idle, [.comma]) := rfl
      have follows (rest : List UInt8) : Ends (44 :: rest) := by simp [Ends]
      rw [commaSeparated, List.intercalate_cons_cons, List.intercalate_cons_cons, List.append_assoc,
        Utf8.encode_append, List.append_assoc]
      refine (first done _ (follows _)).trans ((run_cons comma).trans ((ih _ _ ends).trans ?_))
      simp

theorem Cuts.enclosed {opening closing : Char} {a b : UInt8} {before after : Token}
    (cuts : Cuts cs ts) (first : String.utf8EncodeChar opening = [a])
    (last : String.utf8EncodeChar closing = [b]) (opens : step .idle a = some (.idle, [before]))
    (closes : step .idle b = some (.idle, [after])) (ends : b = 93 ∨ b = 125) :
    Cuts (opening :: cs ++ [closing]) (before :: ts ++ [after]) := by
  intro done rest _
  have follows : Ends (b :: rest) := by simp [Ends, ends]
  rw [Utf8.encode_append, Utf8.encode_cons, first, Utf8.encode_cons, last, List.append_assoc,
    List.append_assoc]
  refine (run_cons opens).trans ((cuts _ _ follows).trans ((run_cons closes).trans ?_))
  simp

mutual

/-- A value that fits is cut into its tokens. -/
theorem cuts_print {room : Nat} (v : Value) (fits : v.Fits room) : Cuts (print v) v.tokens := by
  cases v with
  | null => exact fun _ _ _ => rfl
  | flag b => cases b <;> exact fun _ _ _ => rfl
  | integer i => exact fun _ _ ends => run_integer i ends
  | double d =>
    have infinite : d.isFinite = false := by cases room <;> exact fits
    rw [print, doubleText?, infinite]
    exact fun _ _ _ => rfl
  | text s => exact fun _ _ _ => run_quote s
  | array items =>
    cases room with
    | zero => exact fits.elim
    | succ room =>
      rw [print, Value.tokens]
      exact (cuts_intercalate (cuts_items items fits)).enclosed rfl rfl rfl rfl (.inl rfl)
  | object members =>
    cases room with
    | zero => exact fits.elim
    | succ room =>
      rw [print, Value.tokens]
      exact (cuts_intercalate (cuts_members members fits)).enclosed rfl rfl rfl rfl (.inr rfl)

theorem cuts_items {room : Nat} (items : List Value) (fits : ∀ item ∈ items, item.Fits room) :
    List.Forall₂ Cuts (printItems items) (itemTokens items) := by
  cases items with
  | nil => exact .nil
  | cons item items =>
    obtain ⟨first, others⟩ := List.forall_mem_cons.mp fits
    exact .cons (cuts_print item first) (cuts_items items others)

theorem cuts_members {room : Nat} (members : List (String × Value))
    (fits : ∀ m ∈ members, m.2.Fits room) :
    List.Forall₂ Cuts (printMembers members) (memberTokens members) := by
  cases members with
  | nil => exact .nil
  | cons m members =>
    obtain ⟨key, value⟩ := m
    obtain ⟨first, others⟩ := List.forall_mem_cons.mp fits
    refine .cons (fun done rest ends => ?_) (cuts_members members others)
    have colon : step .idle 58 = some (.idle, [.colon]) := rfl
    rw [Utf8.encode_append, List.append_assoc, run_quote]
    refine (run_cons colon).trans ((cuts_print value first _ _ ends).trans ?_)
    simp

end

end Lexer

/-- The compact text of a value that fits is cut into its tokens. -/
theorem tokens?_toBytes {room : Nat} {v : Value} (fits : v.Fits room) :
    tokens? v.toBytes = some v.tokens := by
  have cut := Lexer.cuts_print v fits [] [] Lexer.ends_nil
  rw [List.append_nil, List.append_nil] at cut
  rw [tokens?, Value.toBytes, cut, Lexer.run]
  simp [Lexer.finish]

end RemoteNode.Json
