import RemoteNode.Url.Percent

/-!
Paths of URLs: a list of segments, or a text without structure where no authority and no slash
follow the scheme. A segment of one dot is dropped and one of two dots also removes the segment
before it.
-/

namespace RemoteNode.Url

/-- A path. -/
inductive Path where
  | segments (ss : List (List Char))
  /-- A path that nothing can be resolved against. -/
  | whole (cs : List Char)
  deriving DecidableEq

namespace Path

/-- How segments are read: what separates them and whether drive letters are known. -/
structure Style where
  /-- A backslash separates like a slash. -/
  special : Bool
  /-- The first segment may name a drive, which is never removed. -/
  drives : Bool

def Style.isSeparator (style : Style) (c : Char) : Bool := c = '/' || (style.special && c = '\\')

/-- The written forms of a dot inside a segment. -/
def dots : List Char → Option Nat
  | [] => some 0
  | '.' :: cs => (dots cs).map (· + 1)
  | '%' :: '2' :: e :: cs => if e = 'e' || e = 'E' then (dots cs).map (· + 1) else none
  | _ => none

/-- A letter and a colon or bar. -/
def isDrive : List Char → Bool
  | [c, s] => c.isAlpha && (s = ':' || s = '|')
  | _ => false

/-- A letter and a colon. -/
def isNormalDrive : List Char → Bool
  | [c, s] => c.isAlpha && s = ':'
  | _ => false

/-- Removes the last segment, but not a drive. -/
def shorten (style : Style) : List (List Char) → List (List Char)
  | [first] => if style.drives && isNormalDrive first then [first] else []
  | ss => ss.dropLast

/-- A segment as it is kept. -/
def keep (style : Style) (before : List (List Char)) (s : List Char) : List Char :=
  if style.drives && before.isEmpty && isDrive s then s.take 1 ++ [':']
  else Percent.encode Percent.path s

/-- Adds the segments one by one. After a segment of dots at the end an empty one is left. -/
def resolve (style : Style) : List (List Char) → List (List Char) → List (List Char)
  | before, [] => before
  | before, s :: rest =>
    match dots s with
    | some 1 => if rest.isEmpty then before ++ [[]] else resolve style before rest
    | some 2 =>
      let shorter := shorten style before
      if rest.isEmpty then shorter ++ [[]] else resolve style shorter rest
    | _ => resolve style (before ++ [keep style before s]) rest

/-- Reads the segments after the first slash. -/
def ofCharacters (style : Style) (cs : List Char) : Path :=
  segments (resolve style [] (cs.splitOnP style.isSeparator))

def characters : Path → List Char
  | segments ss => ss.flatMap ('/' :: ·)
  | whole cs => cs

end Path

end RemoteNode.Url
