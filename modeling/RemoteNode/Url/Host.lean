import RemoteNode.Url.Address
import RemoteNode.Url.Percent
import RemoteNode.Url.Punycode

/-!
Hosts. In a URL of a special scheme a host is a sixteen-byte address in brackets, a four-byte
address or a domain name, which is brought to lower case; in any other URL a name is kept as it
is. What a domain name outside ASCII stands for is taken from a naming, since it depends on tables
of Unicode; without one, no such name is known.
-/

namespace RemoteNode.Url

/-- A host. -/
inductive Host where
  | domain (name : List Char)
  | fourBytes (n : Nat)
  | eightGroups (groups : List Nat)
  /-- The name in a URL whose scheme is not special. -/
  | verbatim (cs : List Char)
  deriving DecidableEq

namespace Host

/-- Characters that stand in no host. -/
def isForbidden (c : Char) : Bool :=
  ['\x00', '\t', '\n', '\r', ' ', '#', '/', ':', '<', '>', '?', '@', '[', '\\', ']', '^',
    '|'].contains c

/-- Characters that stand in no domain name. -/
def isForbiddenInDomain (c : Char) : Bool :=
  isForbidden c || c.toNat < 0x20 || c = '%' || c.toNat = 0x7F

/-- Reads an address in brackets, without the first. -/
def bracketed? (cs : List Char) : Option Host :=
  if cs.getLast? = some ']' then (Address.eightGroups? cs.dropLast).map eightGroups else none

/-- The characters that delimit the parts of a URL, or are dropped from it. -/
def delimiters : List Char := ['\t', '\n', '\r', '#', '/', ':', '?', '@', '[', '\\', ']']

/-- How domain names outside ASCII are brought into ASCII. -/
structure Naming where
  /-- The name that bytes stand for, if they stand for one. -/
  toAscii? : List UInt8 → Option (List Char)
  /-- Delimiters are neither mapped to other characters nor composed with them. -/
  keeps : ∀ bytes name, toAscii? bytes = some name → ∀ c ∈ delimiters,
    UInt8.ofNat c.toNat ∈ bytes → c ∈ name

/-- No name outside ASCII is known. -/
def Naming.ascii : Naming := ⟨fun _ => none, fun _ _ h => nomatch h⟩

/-- A label in lower case. One that says it carries characters outside ASCII has to do so. -/
def isLabel : List Char → Bool
  | 'x' :: 'n' :: '-' :: '-' :: cs => Punycode.isLabel cs
  | _ => true

/-- The domain name that a text stands for. -/
def domainName? (naming : Naming) (cs : List Char) : Option (List Char) :=
  let bytes := Percent.decode (Text.Utf8.encode cs)
  if bytes.all (· < 0x80) then
    let name := bytes.map fun b => (Char.ofNat b.toNat).toLower
    if name.isEmpty || name.any isForbiddenInDomain || !(splitAt '.' name).all isLabel then none
    else some name
  else (naming.toAscii? bytes).filter fun name => !name.isEmpty && !name.any isForbiddenInDomain

/-- Reads the host of a URL whose scheme is special. -/
def parse? (naming : Naming) : List Char → Option Host
  | '[' :: cs => bracketed? cs
  | cs =>
    (domainName? naming cs).bind fun name =>
      if Address.endsInNumber name then (Address.fourBytes? name).map fourBytes
      else some (domain name)

/-- Reads the host of a URL whose scheme is not special. -/
def parseName? : List Char → Option Host
  | '[' :: cs => bracketed? cs
  | cs => if cs.any isForbidden then none else some (verbatim (Percent.encode Percent.controls cs))

def characters : Host → List Char
  | domain name => name
  | fourBytes n => Address.showFourBytes n
  | eightGroups gs => '[' :: Address.showEightGroups gs ++ [']']
  | verbatim cs => cs

end Host

end RemoteNode.Url
