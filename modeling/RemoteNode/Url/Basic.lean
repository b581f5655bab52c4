import RemoteNode.Text.Cut
import RemoteNode.Url.Host
import RemoteNode.Url.Path

/-!
URLs, read and written by the rules of the WHATWG standard. Blanks and control characters at both
ends and all tabs and line breaks are ignored. The schemes that browsers know are special: they
always have a host, a backslash separates like a slash, and each but `file` has a standard port
that is not shown.
-/

namespace RemoteNode

/-- A URL. -/
structure Url where
  scheme : List Char
  /-- The user name and password as written, up to the `@`. -/
  userName : List Char
  password : List Char
  /-- An authority without a name has no characters; a URL without an authority has none. -/
  host : Option Url.Host
  port : Option Nat
  path : Url.Path
  query : Option (List Char)
  fragment : Option (List Char)
  deriving DecidableEq

namespace Url

/-- What the rules for a URL depend on. -/
inductive Kind where
  | file
  /-- A special scheme with its standard port. -/
  | special (port : Nat)
  | plain

def Kind.ofScheme (scheme : List Char) : Kind :=
  match String.ofList scheme with
  | "http" | "ws" => special 80
  | "https" | "wss" => special 443
  | "ftp" => special 21
  | "file" => file
  | _ => plain

/-- The scheme is one that browsers know. -/
def Kind.isSpecial : Kind → Bool
  | plain => false
  | _ => true

/-- How the segments of a path are read. -/
def Kind.style : Kind → Path.Style
  | file => ⟨true, true⟩
  | special _ => ⟨true, false⟩
  | plain => ⟨false, false⟩

/-- A control character or a space. -/
def isOuter (c : Char) : Bool := c.toNat ≤ 0x20

def clean (cs : List Char) : List Char :=
  let inner := ((cs.dropWhile isOuter).reverse.dropWhile isOuter).reverse
  inner.filter fun c => c != '\t' && c != '\n' && c != '\r'

def isSchemeChar (c : Char) : Bool := c.isAlphanum || c = '+' || c = '-' || c = '.'

/-- The scheme in lower case and what follows its colon. -/
def scheme? (cs : List Char) : Option (List Char × List Char) :=
  let scheme := cs.takeWhile isSchemeChar
  match scheme, cs.dropWhile isSchemeChar with
  | c :: _, ':' :: rest => if c.isAlpha then some (scheme.map Char.toLower, rest) else none
  | _, _ => none

/-- The host ends at the first colon outside brackets. -/
def splitHost : Bool → List Char → List Char × List Char
  | _, [] => ([], [])
  | inside, c :: cs =>
    if c = ':' && !inside then ([], c :: cs)
    else
      let inside := if c = '[' then true else if c = ']' then false else inside
      let (host, rest) := splitHost inside cs
      (c :: host, rest)

/-- The host and port of a URL, and what is left of the text. -/
structure Place where
  host : Host
  port : Option Nat
  rest : List Char

/-- Reads a port: digits up to 65535, or none. A backslash ends it. -/
def port? (standard : Option Nat) (cs : List Char) : Option (Option Nat × List Char) :=
  let ds := cs.takeWhile Char.isDigit
  match cs.dropWhile Char.isDigit with
  | c :: rest => if c = '\\' then finish ds (c :: rest) else none
  | [] => finish ds []
where
  /-- The port that digits stand for; the standard port stands for none. -/
  finish (ds rest : List Char) : Option (Option Nat × List Char) :=
    match Text.Decimal.natural? ds with
    | none => some (none, rest)
    | some n =>
      if n < 65536 then some (if some n = standard then none else some n, rest) else none

def place? (naming : Host.Naming) (kind : Kind) (cs : List Char) : Option Place :=
  let (name, rest) := splitHost false cs
  if name.isEmpty && (kind.isSpecial || !rest.isEmpty) then none
  else do
    let host ← match kind with
      | .plain => Host.parseName? name
      | _ => Host.parse? naming name
    match rest with
    | _ :: digits =>
      let standard := match kind with
        | .special port => some port
        | _ => none
      let (port, rest) ← port? standard digits
      pure ⟨host, port, rest⟩
    | [] => pure ⟨host, none, []⟩

def credentials (cs : List Char) : List Char × List Char :=
  let (user, password) := Text.cut ':' cs
  (Percent.encode Percent.userInfo user, Percent.encode Percent.userInfo (password.getD []))

def pathAfter (kind : Kind) (cs : List Char) : Path :=
  match cs with
  | [] => if kind.isSpecial then .segments [[]] else .segments []
  | c :: rest =>
    if kind.style.isSeparator c then .ofCharacters kind.style rest
    else .ofCharacters kind.style cs

def withAuthority? (naming : Host.Naming) (scheme : List Char) (kind : Kind) (cs : List Char) :
    Option Url :=
  let isEnd := kind.style.isSeparator
  let authority := cs.takeWhile fun c => !isEnd c
  let after := cs.dropWhile fun c => !isEnd c
  let (user, password, address) :=
    match Text.cutLast '@' authority with
    | some (info, address) => let (u, p) := credentials info; (u, p, address)
    | none => ([], [], authority)
  let anonymous := user.isEmpty && password.isEmpty
  if address.isEmpty && (!anonymous || (authority != [] && after != [])) then none
  else (place? naming kind address).map fun place =>
    ⟨scheme, user, password, some place.host, place.port, pathAfter kind (place.rest ++ after),
      none, none⟩

/-- The host of a file; `localhost` stands for no name. -/
def fileHost? (naming : Host.Naming) (cs : List Char) : Option Host :=
  if cs.isEmpty then some (.verbatim [])
  else (Host.parse? naming cs).map fun host =>
    if host = .domain "localhost".toList then .verbatim [] else host

def file? (naming : Host.Naming) (scheme cs : List Char) : Option Url :=
  let style := Kind.file.style
  let make (host : Host) (path : Path) : Url := ⟨scheme, [], [], some host, none, path, none, none⟩
  match cs with
  | a :: b :: rest =>
    if style.isSeparator a && style.isSeparator b then
      let name := rest.takeWhile fun c => !style.isSeparator c
      if Path.isDrive name then some (make (.verbatim []) (.ofCharacters style rest))
      else (fileHost? naming name).map fun host =>
        make host (pathAfter .file (rest.dropWhile fun c => !style.isSeparator c))
    else some (make (.verbatim []) (pathAfter .file cs))
  | cs => some (make (.verbatim []) (pathAfter .file cs))

/-- Reads what stands between the scheme and the query. -/
def ofScheme? (naming : Host.Naming) (scheme : List Char) (kind : Kind) (cs : List Char) :
    Option Url :=
  match kind with
  | .file => file? naming scheme cs
  | .special _ => withAuthority? naming scheme kind (cs.dropWhile kind.style.isSeparator)
  | .plain =>
    match cs with
    | '/' :: '/' :: rest => withAuthority? naming scheme kind rest
    | '/' :: rest => some ⟨scheme, [], [], none, none, .ofCharacters kind.style rest, none, none⟩
    | cs => some ⟨scheme, [], [], none, none, .whole (Percent.encode Percent.controls cs), none,
        none⟩

def parse? (cs : List Char) (naming : Host.Naming := .ascii) : Option Url := do
  let (scheme, rest) ← scheme? (clean cs)
  let kind := Kind.ofScheme scheme
  let (rest, fragment) := Text.cut '#' rest
  let (rest, query) := Text.cut '?' rest
  let url ← ofScheme? naming scheme kind rest
  let querySet := if kind.isSpecial then Percent.specialQuery else Percent.query
  pure { url with
    query := query.map (Percent.encode querySet)
    fragment := fragment.map (Percent.encode Percent.fragment) }

def ofText? (s : String) (naming : Host.Naming := .ascii) : Option Url := parse? s.toList naming

def hasCredentials (u : Url) : Bool := !u.userName.isEmpty || !u.password.isEmpty

def credentialText (u : Url) : List Char :=
  if u.hasCredentials then
    u.userName ++ (if u.password.isEmpty then [] else ':' :: u.password) ++ ['@']
  else []

/-- What stands between the scheme and the path. -/
def authorityText (u : Url) : List Char :=
  match u.host with
  | some host =>
    let port := match u.port with
      | some n => ':' :: Text.Decimal.digits n
      | none => []
    ['/', '/'] ++ u.credentialText ++ host.characters ++ port
  | none =>
    match u.path with
    | .segments ([] :: _ :: _) => ['/', '.']
    | _ => []

/-- A mark and a part, if there is one. -/
def marked (mark : Char) : Option (List Char) → List Char
  | some part => mark :: part
  | none => []

def characters (u : Url) : List Char :=
  u.scheme ++ ':' :: u.authorityText ++ u.path.characters ++ marked '?' u.query ++
    marked '#' u.fragment

def text (u : Url) : String := String.ofList u.characters

/-- Other paths can be resolved against the URL. -/
def isBase (u : Url) : Bool :=
  match u.path with
  | .segments _ => true
  | .whole _ => false

def atPath (u : Url) (path : List Char) : Url :=
  { u with path := .ofCharacters (Kind.ofScheme u.scheme).style path, query := none,
           fragment := none }

/-- The port that is connected to. -/
def effectivePort (u : Url) : Option Nat :=
  match u.port, Kind.ofScheme u.scheme with
  | some n, _ => some n
  | none, .special n => some n
  | none, _ => none

end Url

end RemoteNode
