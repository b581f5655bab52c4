import RemoteNode.Double.Shortest
import RemoteNode.Text.Utf8

/-!
JSON values and their compact text. Only the quote, the backslash and control characters are
escaped. A finite double is written with the fewest digits that read back: plainly and with a
point from `1e-5` up to below `1e16`, else with an exponent.
-/

namespace RemoteNode.Json

/-- A JSON value; the members of an object keep their order. -/
inductive Value where
  | null
  | flag (b : Bool)
  | integer (n : Int)
  | double (d : Double)
  | text (s : String)
  | array (items : List Value)
  | object (members : List (String × Value))
  deriving Inhabited

namespace Value

abbrev natural (n : Nat) : Value := .integer n

def member? (key : String) : Value → Option Value
  | object members => members.lookup key
  | _ => none

end Value

/-- Where a decimal changes between plain and exponent form, by the place of its point. -/
structure DecimalForm where
  /-- The least place of the point that is written plainly. -/
  least : Int
  /-- The greatest. -/
  greatest : Int

/-- Plain from four zeros after the point up to sixteen places before it. -/
def decimalForm : DecimalForm := ⟨-4, 16⟩

/-- The digits `ds` with the point after place `p`. -/
def placePoint (form : DecimalForm) (ds : List Char) (p : Int) : List Char :=
  let n : Int := ds.length
  if form.least ≤ p ∧ p ≤ form.greatest then
    if p ≤ 0 then '0' :: '.' :: List.replicate p.natAbs '0' ++ ds
    else if n ≤ p then ds ++ List.replicate (p - n).natAbs '0' ++ ['.', '0']
    else ds.take p.natAbs ++ '.' :: ds.drop p.natAbs
  else
    let e := p - 1
    let exponent := (if e < 0 then ['-'] else []) ++ Nat.toDigits 10 e.natAbs
    match ds with
    | [d] => d :: 'e' :: exponent
    | ds => ds.take 1 ++ '.' :: ds.drop 1 ++ 'e' :: exponent

/-- The text of a double; one that is not finite has none. -/
def doubleText? (d : Double) : Option (List Char) :=
  if d.isFinite then
    let body :=
      if d.magnitude = 0 then ['0', '.', '0']
      else
        let x := Double.shortest d.magnitude
        let ds := Nat.toDigits 10 x.digits
        placePoint decimalForm ds ((x.exponent : Int) - Double.Decimal.bias + ds.length)
    some (if d.isNegative then '-' :: body else body)
  else none

/-- One character of a text. -/
def escape (c : Char) : List Char :=
  if c = '"' then ['\\', '"']
  else if c = '\\' then ['\\', '\\']
  else if c.toNat = 8 then ['\\', 'b']
  else if c.toNat = 9 then ['\\', 't']
  else if c.toNat = 10 then ['\\', 'n']
  else if c.toNat = 12 then ['\\', 'f']
  else if c.toNat = 13 then ['\\', 'r']
  else if c.toNat < 32 then
    let digits := Nat.toDigits 16 c.toNat
    '\\' :: 'u' :: List.replicate (4 - digits.length) '0' ++ digits
  else [c]

def quote (s : String) : List Char := '"' :: s.toList.flatMap escape ++ ['"']

def commaSeparated (parts : List (List Char)) : List Char := List.intercalate [','] parts

mutual

/-- The compact text of a value. -/
def print : Value → List Char
  | .null => "null".toList
  | .flag b => if b then "true".toList else "false".toList
  | .integer n => (toString n).toList
  | .double d => (doubleText? d).getD "null".toList
  | .text s => quote s
  | .array items => '[' :: commaSeparated (printItems items) ++ [']']
  | .object members => '\x7b' :: commaSeparated (printMembers members) ++ ['\x7d']

def printItems : List Value → List (List Char)
  | [] => []
  | item :: items => print item :: printItems items

def printMembers : List (String × Value) → List (List Char)
  | [] => []
  | (key, value) :: members => (quote key ++ ':' :: print value) :: printMembers members

end

def Value.toText (v : Value) : String := String.ofList (print v)

def Value.toBytes (v : Value) : List UInt8 := Text.Utf8.encode (print v)

end RemoteNode.Json
