import RemoteNode.Json.Numeral
import RemoteNode.Text.Utf8

/-!
JSON text cut into tokens, one byte at a time. A text token keeps its content only if its bytes are
well-formed and its escaped surrogates are paired; otherwise it is a token without content, which a
reader may skip but not use.
-/

namespace RemoteNode.Json

/-- The tokens of JSON text. -/
inductive Token where
  | openArray
  | closeArray
  | openObject
  | closeObject
  | colon
  | comma
  | null
  | flag (b : Bool)
  | number (n : Numeral)
  | text (content : Option String)
  deriving DecidableEq, Repr

/-- What is written between quotes: plain bytes and the units of `\u` escapes. -/
inductive Piece where
  | byte (b : UInt8)
  | unit (u : Nat)
  deriving DecidableEq, Repr

/-- The bytes of a character given by its code point. -/
def codePointBytes (n : Nat) : List UInt8 := String.utf8EncodeChar (Char.ofNat n)

/-- The bytes spelled by the pieces of a text; a surrogate must stand in a pair. -/
def pieceBytes : List Piece → Option (List UInt8)
  | [] => some []
  | .byte b :: rest => (pieceBytes rest).map (b :: ·)
  | .unit u :: rest =>
    if u < 0xD800 ∨ 0xDFFF < u then (pieceBytes rest).map (codePointBytes u ++ ·)
    else if u < 0xDC00 then
      match rest with
      | .unit v :: rest =>
        if 0xDC00 ≤ v ∧ v ≤ 0xDFFF then
          (pieceBytes rest).map
            (codePointBytes (0x10000 + (u - 0xD800) * 1024 + (v - 0xDC00)) ++ ·)
        else none
      | _ => none
    else none

def content? (pieces : List Piece) : Option String := (pieceBytes pieces).bind Text.Utf8.text?

namespace Lexer

/-- How far the number being read has come. Digits are kept latest first. -/
inductive NumberStage where
  | sign
  | zero
  | whole
  | point
  | fraction
  | exponentMark
  | exponentSign
  | exponent
  deriving DecidableEq, Repr

/-- The number being read. -/
structure NumberState where
  stage : NumberStage
  negative : Bool
  whole : List Nat
  fraction : List Nat
  exponentNegative : Bool
  exponent : List Nat
  deriving Repr

/-- What the bytes read so far leave open. Pieces are kept latest first. -/
inductive Mode where
  | idle
  | word (rest : List UInt8) (token : Token)
  | number (state : NumberState)
  | text (pieces : List Piece)
  | escape (pieces : List Piece)
  | unicode (pieces : List Piece) (digits : List Nat)

def digit? (b : UInt8) : Option Nat := if 48 ≤ b ∧ b ≤ 57 then some (b.toNat - 48) else none

def hexDigit? (b : UInt8) : Option Nat :=
  if 48 ≤ b ∧ b ≤ 57 then some (b.toNat - 48)
  else if 97 ≤ b ∧ b ≤ 102 then some (b.toNat - 87)
  else if 65 ≤ b ∧ b ≤ 70 then some (b.toNat - 55)
  else none

/-- The byte an escape of one letter stands for. -/
def escaped? (b : UInt8) : Option UInt8 :=
  if b = 34 ∨ b = 92 ∨ b = 47 then some b
  else if b = 98 then some 8
  else if b = 102 then some 12
  else if b = 110 then some 10
  else if b = 114 then some 13
  else if b = 116 then some 9
  else none

/-- The numeral read so far, if it may end here. -/
def finished? (s : NumberState) : Option Numeral :=
  let numeral (exponent : Option (Bool × List Nat)) : Numeral :=
    ⟨s.negative, s.whole.reverse, s.fraction.reverse, exponent⟩
  match s.stage with
  | .zero | .whole | .fraction => some (numeral none)
  | .exponent => some (numeral (some (s.exponentNegative, s.exponent.reverse)))
  | _ => none

/-- The number with one more byte, if the byte continues it. -/
def continued? (s : NumberState) (b : UInt8) : Option NumberState :=
  match s.stage, digit? b with
  | .sign, some d => some { s with stage := if d = 0 then .zero else .whole, whole := [d] }
  | .whole, some d => some { s with whole := d :: s.whole }
  | .point, some d | .fraction, some d =>
    some { s with stage := .fraction, fraction := d :: s.fraction }
  | .exponentMark, some d | .exponentSign, some d | .exponent, some d =>
    some { s with stage := .exponent, exponent := d :: s.exponent }
  | .zero, none | .whole, none =>
    if b = 46 then some { s with stage := .point }
    else if b = 101 ∨ b = 69 then some { s with stage := .exponentMark }
    else none
  | .fraction, none => if b = 101 ∨ b = 69 then some { s with stage := .exponentMark } else none
  | .exponentMark, none =>
    if b = 43 then some { s with stage := .exponentSign }
    else if b = 45 then some { s with stage := .exponentSign, exponentNegative := true }
    else none
  | _, _ => none

/-- A byte between tokens: the next mode and the token it completes. -/
def start (b : UInt8) : Option (Mode × Option Token) :=
  if b = 32 ∨ b = 9 ∨ b = 10 ∨ b = 13 then some (.idle, none)
  else if b = 91 then some (.idle, some .openArray)
  else if b = 93 then some (.idle, some .closeArray)
  else if b = 123 then some (.idle, some .openObject)
  else if b = 125 then some (.idle, some .closeObject)
  else if b = 58 then some (.idle, some .colon)
  else if b = 44 then some (.idle, some .comma)
  else if b = 34 then some (.text [], none)
  else if b = 45 then some (.number ⟨.sign, true, [], [], false, []⟩, none)
  else if b = 110 then some (.word [117, 108, 108] .null, none)
  else if b = 116 then some (.word [114, 117, 101] (.flag true), none)
  else if b = 102 then some (.word [97, 108, 115, 101] (.flag false), none)
  else (continued? ⟨.sign, false, [], [], false, []⟩ b).map fun s => (.number s, none)

/-- One byte: the next mode and the tokens it completes. -/
def step : Mode → UInt8 → Option (Mode × List Token)
  | .idle, b => (start b).map fun (mode, token) => (mode, token.toList)
  | .word [] _, _ => none
  | .word [c] token, b => if b = c then some (.idle, [token]) else none
  | .word (c :: rest) token, b => if b = c then some (.word rest token, []) else none
  | .number s, b =>
    match continued? s b with
    | some s => some (.number s, [])
    | none => do
      let n ← finished? s
      let (mode, token) ← start b
      pure (mode, .number n :: token.toList)
  | .text pieces, b =>
    if b = 34 then some (.idle, [.text (content? pieces.reverse)])
    else if b = 92 then some (.escape pieces, [])
    else if b < 32 then none
    else some (.text (.byte b :: pieces), [])
  | .escape pieces, b =>
    if b = 117 then some (.unicode pieces [], [])
    else (escaped? b).map fun c => (.text (.byte c :: pieces), [])
  | .unicode pieces digits, b => do
    let d ← hexDigit? b
    if digits.length = 3 then
      let unit := (digits.reverse ++ [d]).foldl (fun n d => 16 * n + d) 0
      pure (.text (.unit unit :: pieces), [])
    else pure (.unicode pieces (d :: digits), [])

/-- The token that the end of the text completes. -/
def finish : Mode → Option (List Token)
  | .idle => some []
  | .number s => (finished? s).map fun n => [.number n]
  | _ => none

/-- Reads the remaining bytes; `done` holds the tokens so far, latest first. -/
def run : Mode → List Token → List UInt8 → Option (List Token)
  | mode, done, [] => (finish mode).map fun last => (last ++ done).reverse
  | mode, done, b :: rest =>
    match step mode b with
    | some (mode, tokens) => run mode (tokens.reverse ++ done) rest
    | none => none

end Lexer

def tokens? (bytes : List UInt8) : Option (List Token) := Lexer.run .idle [] bytes

end RemoteNode.Json
