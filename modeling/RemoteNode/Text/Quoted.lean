import RemoteNode.Text.Invisible

/-!
Text between double quotes for diagnostics. The quote, the backslash and four control characters get
a backslash form, every other character without a visible form is written by its code point.
-/

namespace RemoteNode.Text.Quoted

/-- The lower-case hexadecimal number in braces after `\u`. -/
def codePoint (c : Char) : List Char :=
  '\\' :: 'u' :: '\x7b' :: Nat.toDigits 16 c.toNat ++ ['\x7d']

/-- One character between the quotes. -/
def escape (c : Char) : List Char :=
  if c = '\t' then ['\\', 't']
  else if c = '\n' then ['\\', 'n']
  else if c = '\r' then ['\\', 'r']
  else if c.toNat = 0 then ['\\', '0']
  else if c = '"' then ['\\', '"']
  else if c = '\\' then ['\\', '\\']
  else if isInvisible c then codePoint c
  else [c]

def text (s : String) : String :=
  String.ofList ('"' :: s.toList.flatMap escape ++ ['"'])

end RemoteNode.Text.Quoted
