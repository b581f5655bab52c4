import RemoteNode.Json.Numeral
import RemoteNode.Text.Decimal
import RemoteNode.Text.Hex
import RemoteNode.Text.Utf8
import RemoteNode.Toml.Value

/-!
The smallest parts of TOML documents: blanks, comments, keys, texts, numbers, dates and times. Each
scanner takes its part from the start of the text and leaves the rest.
-/

namespace RemoteNode.Toml

/-- Takes a part from the start of a text. -/
abbrev Scan (α : Type) := StateT (List Char) Option α

namespace Scan

def isBlank (c : Char) : Bool := c = ' ' || c = '\t'

/-- A character that may stand in a line: no control character but the tab. -/
def isPlain (c : Char) : Bool := c = '\t' || (0x20 ≤ c.toNat && c.toNat != 0x7F)

def blanks : Scan Unit := fun cs => some ((), cs.dropWhile isBlank)

def char (c : Char) : Scan Unit
  | d :: cs => if d = c then some ((), cs) else none
  | [] => none

def tryChar (c : Char) : Scan Bool
  | d :: cs => if d = c then some (true, cs) else some (false, d :: cs)
  | [] => some (false, [])

def comment : Scan Unit
  | '#' :: cs => some ((), cs.dropWhile isPlain)
  | cs => some ((), cs)

/-- The rest of a line: blanks, a comment and a line break or the end of the text. -/
def lineEnd : Scan Unit := do
  blanks
  comment
  fun
    | [] => some ((), [])
    | '\n' :: cs => some ((), cs)
    | '\r' :: '\n' :: cs => some ((), cs)
    | _ => none

/-- Skips blanks, line breaks and comments. -/
def gap : Bool → List Char → Option (List Char)
  | _, '\n' :: cs => gap false cs
  | _, '\r' :: '\n' :: cs => gap false cs
  | true, c :: cs => if isPlain c then gap true cs else none
  | true, [] => some []
  | false, '#' :: cs => gap true cs
  | false, c :: cs => if isBlank c then gap false cs else some (c :: cs)
  | false, [] => some []

/-- The character with a code point given by hexadecimal digits. -/
def codePoint? (ds : List Char) : Option Char := do
  let vs ← ds.mapM Text.Hex.value?
  Text.Utf8.scalar? 0 (vs.foldl (fun n d => 16 * n + d) 0)

/-- The character that a letter stands for after a backslash. -/
def escaped? : Char → Option Char
  | 'b' => some (Char.ofNat 8)
  | 't' => some '\t'
  | 'n' => some '\n'
  | 'f' => some (Char.ofNat 12)
  | 'r' => some '\r'
  | '"' => some '"'
  | '\\' => some '\\'
  | _ => none

def quoted : List Char → Option (List Char × List Char)
  | '"' :: rest => some ([], rest)
  | '\\' :: 'u' :: a :: b :: c :: d :: rest => do
    let x ← codePoint? [a, b, c, d]
    let (content, rest) ← quoted rest
    pure (x :: content, rest)
  | '\\' :: 'U' :: a :: b :: c :: d :: e :: f :: g :: h :: rest => do
    let x ← codePoint? [a, b, c, d, e, f, g, h]
    let (content, rest) ← quoted rest
    pure (x :: content, rest)
  | '\\' :: c :: rest => do
    let x ← escaped? c
    let (content, rest) ← quoted rest
    pure (x :: content, rest)
  | c :: rest => do
    if isPlain c then
      let (content, rest) ← quoted rest
      pure (c :: content, rest)
    else none
  | [] => none

def literal (cs : List Char) : Option (List Char × List Char) :=
  let isContent := fun c => isPlain c && c != '\x27'
  match cs.dropWhile isContent with
  | '\x27' :: rest => some (cs.takeWhile isContent, rest)
  | _ => none

/-- What follows a run of marks that closes a text of several lines: the last three marks close it,
and up to two before them belong to it. -/
def closing (mark : Char) (n : Nat) (rest : List Char) : Option (List Char × List Char) :=
  if 3 ≤ n ∧ n ≤ 5 then some (List.replicate (n - 3) mark, rest) else none

/-- A line break or blanks up to one follow. -/
def isLineBreakNext (cs : List Char) : Bool :=
  match cs.dropWhile isBlank with
  | '\n' :: _ => true
  | '\r' :: '\n' :: _ => true
  | _ => false

/-- A text of several lines with escapes. `marks` counts the quotes just passed; while `skipping`,
blanks and line breaks after a backslash at the end of a line are left out. -/
def quotedLines (marks : Nat) (skipping : Bool) : List Char → Option (List Char × List Char)
  | [] => closing '"' marks []
  | c :: cs =>
    if c = '"' then quotedLines (marks + 1) false cs
    else if 3 ≤ marks then closing '"' marks (c :: cs)
    else
      let continued (content : List Char) (r : Option (List Char × List Char)) :=
        r.map fun (later, rest) => (List.replicate marks '"' ++ content ++ later, rest)
      match c, cs with
      | '\\', 'u' :: a :: b :: c :: d :: rest =>
        (codePoint? [a, b, c, d]).bind fun x => continued [x] (quotedLines 0 false rest)
      | '\\', 'U' :: a :: b :: c :: d :: e :: f :: g :: h :: rest =>
        (codePoint? [a, b, c, d, e, f, g, h]).bind fun x =>
          continued [x] (quotedLines 0 false rest)
      | '\\', d :: rest =>
        match escaped? d with
        | some x => continued [x] (quotedLines 0 false rest)
        | none =>
          if isLineBreakNext (d :: rest) then continued [] (quotedLines 0 true (d :: rest))
          else none
      | '\\', [] => none
      | '\r', '\n' :: rest =>
        continued (if skipping then [] else ['\n']) (quotedLines 0 skipping rest)
      | c, cs =>
        if skipping && (isBlank c || c = '\n') then continued [] (quotedLines 0 true cs)
        else if isPlain c || c = '\n' then continued [c] (quotedLines 0 false cs)
        else none

def literalLines (marks : Nat) : List Char → Option (List Char × List Char)
  | [] => closing '\x27' marks []
  | c :: cs =>
    if c = '\x27' then literalLines (marks + 1) cs
    else if 3 ≤ marks then closing '\x27' marks (c :: cs)
    else
      let continued (c : Char) (r : Option (List Char × List Char)) :=
        r.map fun (later, rest) => (List.replicate marks '\x27' ++ c :: later, rest)
      match c, cs with
      | '\r', '\n' :: rest => continued '\n' (literalLines 0 rest)
      | c, cs =>
        if isPlain c || c = '\n' then continued c (literalLines 0 cs) else none

/-- A line break right after the opening marks does not belong to the text. -/
def afterFirstBreak : List Char → List Char
  | '\n' :: cs => cs
  | '\r' :: '\n' :: cs => cs
  | cs => cs

/-- A text of any of the four kinds. -/
def text : Scan String
  | '"' :: '"' :: '"' :: cs =>
    (quotedLines 0 false (afterFirstBreak cs)).map fun (s, rest) => (String.ofList s, rest)
  | '"' :: cs => (quoted cs).map fun (s, rest) => (String.ofList s, rest)
  | '\x27' :: '\x27' :: '\x27' :: cs =>
    (literalLines 0 (afterFirstBreak cs)).map fun (s, rest) => (String.ofList s, rest)
  | '\x27' :: cs => (literal cs).map fun (s, rest) => (String.ofList s, rest)
  | _ => none

/-- A character of a key without quotes. -/
def isKeyChar (c : Char) : Bool := c.isAlphanum || c = '_' || c = '-'

def keyPart : Scan String
  | '"' :: cs => (quoted cs).map fun (s, rest) => (String.ofList s, rest)
  | '\x27' :: cs => (literal cs).map fun (s, rest) => (String.ofList s, rest)
  | cs =>
    let part := cs.takeWhile isKeyChar
    if part.isEmpty then none else some (String.ofList part, cs.dropWhile isKeyChar)

def keyPartLimit : Nat := 79

/-- A key of at most `n + 1` parts: those before the last, and the last. -/
def keyParts : Nat → Scan (List String × String)
  | 0 => fun _ => none
  | n + 1 => do
    blanks
    let part ← keyPart
    blanks
    if ← tryChar '.' then
      let (path, last) ← keyParts n
      pure (part :: path, last)
    else pure ([], part)

/-- A dotted key: the path to its table, and the key in it. -/
def key : Scan (List String × String) := keyParts keyPartLimit

/-! ### Numbers, dates and times -/

/-- Digits that may have single underscores between them. -/
def separated? (p : Char → Bool) : List Char → Option (List Char)
  | [] => none
  | [c] => if p c then some [c] else none
  | c :: '_' :: cs => if p c then (separated? p cs).map (c :: ·) else none
  | c :: cs => if p c then (separated? p cs).map (c :: ·) else none

/-- Decimal digits without a leading zero. -/
def decimal? (cs : List Char) : Option (List Char) :=
  match separated? Char.isDigit cs with
  | some ('0' :: _ :: _) => none
  | r => r

def inBase? (base : Nat) (cs : List Char) : Option Nat := do
  let ds ← separated? (fun c => ((Text.Hex.value? c).getD base) < base) cs
  let vs ← ds.mapM Text.Hex.value?
  pure (vs.foldl (fun n d => base * n + d) 0)

/-- A sign, if any, and the rest. -/
def signed : List Char → Bool × List Char
  | '-' :: cs => (true, cs)
  | '+' :: cs => (false, cs)
  | cs => (false, cs)

/-- An integer that a signed 64-bit word holds. -/
def integer? (cs : List Char) : Option Int :=
  let bounded (n : Int) : Option Int := 
    if Int64.minValue.toInt ≤ n ∧ n ≤ Int64.maxValue.toInt then some n else none
  match cs with
  | '0' :: 'x' :: ds => (inBase? 16 ds).bind fun n => bounded n
  | '0' :: 'o' :: ds => (inBase? 8 ds).bind fun n => bounded n
  | '0' :: 'b' :: ds => (inBase? 2 ds).bind fun n => bounded n
  | cs => do
    let (negative, ds) := signed cs
    let ds ← decimal? ds
    let n ← Text.Decimal.natural? ds
    bounded (if negative then -(n : Int) else n)

def digitValues (ds : List Char) : List Nat := ds.map fun c => c.toNat - 48

def exponent? (cs : List Char) : Option (Bool × List Nat) :=
  let (negative, ds) := signed cs
  (separated? Char.isDigit ds).map fun ds => (negative, digitValues ds)

/-- The written number, if it has a fraction or an exponent. -/
def numeral? (cs : List Char) : Option Json.Numeral := do
  let (negative, body) := signed cs
  let isExponent := fun c => c = 'e' || c = 'E'
  let mantissa := body.takeWhile fun c => !isExponent c
  let exponent ← match body.dropWhile fun c => !isExponent c with
    | _ :: e => (exponent? e).map some
    | [] => some none
  let whole ← decimal? (mantissa.takeWhile (· != '.'))
  let fraction ← match mantissa.dropWhile (· != '.') with
    | _ :: f => separated? Char.isDigit f
    | [] => some []
  if fraction.isEmpty && exponent.isNone then none
  else pure ⟨negative, digitValues whole, digitValues fraction, exponent⟩

/-- A double. Infinity and what is no number are written as words; what is too large for a double is
refused unless it is negative. -/
def double? (cs : List Char) : Option Double :=
  let (negative, body) := signed cs
  if body = ['i', 'n', 'f'] then some (.ofMagnitude negative Double.infinityBits)
  else if body = ['n', 'a', 'n'] then some (.ofMagnitude negative Double.quietBits)
  else (numeral? cs).bind fun n =>
    match n.double? with
    | some d => some d
    | none => if negative then some (.ofMagnitude true Double.infinityBits) else none

def twoDigits? (least greatest : Nat) (a b : Char) : Option Nat := do
  let n ← Text.Decimal.natural? [a, b]
  if least ≤ n ∧ n ≤ greatest then some n else none

def daysInMonth (year month : Nat) : Nat :=
  if month = 2 then
    if year % 4 = 0 ∧ (year % 100 ≠ 0 ∨ year % 400 = 0) then 29 else 28
  else if month = 4 ∨ month = 6 ∨ month = 9 ∨ month = 11 then 30 else 31

def afterDate? : List Char → Option (List Char)
  | a :: b :: c :: d :: '-' :: e :: f :: '-' :: g :: h :: rest => do
    let year ← Text.Decimal.natural? [a, b, c, d]
    let month ← twoDigits? 1 12 e f
    let _ ← twoDigits? 1 (daysInMonth year month) g h
    pure rest
  | _ => none

def afterTime? : List Char → Option (List Char)
  | a :: b :: ':' :: c :: d :: ':' :: e :: f :: rest => do
    let _ ← twoDigits? 0 23 a b
    let _ ← twoDigits? 0 59 c d
    let _ ← twoDigits? 0 60 e f
    match rest with
    | '.' :: g :: rest => if g.isDigit then some (rest.dropWhile Char.isDigit) else none
    | '.' :: [] => none
    | rest => some rest
  | _ => none

/-- Nothing or an offset from universal time. -/
def isOffset : List Char → Bool
  | [] => true
  | [z] => z = 'Z' || z = 'z'
  | [s, a, b, ':', c, d] =>
    (s = '+' || s = '-') && (twoDigits? 0 23 a b).isSome && (twoDigits? 0 59 c d).isSome
  | _ => false

/-- A date, a time, or a date and a time with or without an offset. -/
def isMoment (cs : List Char) : Bool :=
  match afterDate? cs with
  | some [] => true
  | some (t :: rest) =>
    (t = 'T' || t = 't' || t = ' ') && ((afterTime? rest).map isOffset).getD false
  | none => afterTime? cs == some []

def isBareChar (c : Char) : Bool := c.isAlphanum || ['+', '-', '_', '.', ':'].contains c

/-- What the characters of a value without quotes or brackets stand for. -/
def bare? (cs : List Char) : Option Value :=
  match cs with
  | ['t', 'r', 'u', 'e'] => some (.flag true)
  | ['f', 'a', 'l', 's', 'e'] => some (.flag false)
  | cs =>
    if isMoment cs then some (.moment cs)
    else match integer? cs with
      | some n => some (.integer n)
      | none => (double? cs).map .double

/-- A value without quotes or brackets. A date may be followed by a space and a time. -/
def bare : Scan Value := fun cs =>
  let word := cs.takeWhile isBareChar
  let rest := cs.dropWhile isBareChar
  match afterDate? word, rest with
  | some [], ' ' :: d :: more =>
    if d.isDigit then
      let time := (d :: more).takeWhile isBareChar
      (bare? (word ++ ' ' :: time)).map (·, (d :: more).dropWhile isBareChar)
    else (bare? word).map (·, rest)
  | _, _ => (bare? word).map (·, rest)

end Scan

end RemoteNode.Toml
