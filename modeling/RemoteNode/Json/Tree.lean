import RemoteNode.Json.Token
import RemoteNode.Json.Value

/-!
The tree of a JSON text. Any depth of nesting is read, repeated keys are kept, and what the grammar
admits but a value cannot hold (texts without content, numbers of any size) stands in the tree until
a reader asks for it.
-/

namespace RemoteNode.Json

/-- A JSON text by its grammar alone. -/
inductive Tree where
  | null
  | flag (b : Bool)
  | number (n : Numeral)
  | text (content : Option String)
  | array (items : List Tree)
  | object (members : List (Option String × Tree))
  deriving Inhabited

namespace Parser

/-- A container still open; what it holds is kept latest first. -/
inductive Frame where
  | array (items : List Tree)
  | object (members : List (Option String × Tree)) (key : Option String)

/-- What may come next. -/
inductive Expected where
  | value
  /-- A value or the end of the array just opened. -/
  | firstItem
  /-- A key or the end of the object just opened. -/
  | firstKey
  | key
  | colon
  /-- A comma or the end of the innermost container. -/
  | separator
  /-- Nothing: the text is complete. -/
  | nothing (result : Tree)

/-- The open containers, innermost first, and what may come next. -/
structure State where
  frames : List Frame
  expected : Expected

/-- A finished value goes into the innermost container. -/
def give (frames : List Frame) (v : Tree) : State :=
  match frames with
  | [] => ⟨[], .nothing v⟩
  | .array items :: rest => ⟨.array (v :: items) :: rest, .separator⟩
  | .object members key :: rest => ⟨.object ((key, v) :: members) key :: rest, .separator⟩

/-- A token where a value may start. -/
def startValue (frames : List Frame) : Token → Option State
  | .openArray => some ⟨.array [] :: frames, .firstItem⟩
  | .openObject => some ⟨.object [] none :: frames, .firstKey⟩
  | .null => some (give frames .null)
  | .flag b => some (give frames (.flag b))
  | .number n => some (give frames (.number n))
  | .text content => some (give frames (.text content))
  | _ => none

/-- A token where a key must stand. -/
def takeKey (frames : List Frame) : Token → Option State
  | .text content =>
    match frames with
    | .object members _ :: rest => some ⟨.object members content :: rest, .colon⟩
    | _ => none
  | _ => none

/-- A token that ends the innermost container. -/
def close (frames : List Frame) : Token → Option State
  | .closeArray =>
    match frames with
    | .array items :: rest => some (give rest (.array items.reverse))
    | _ => none
  | .closeObject =>
    match frames with
    | .object members _ :: rest => some (give rest (.object members.reverse))
    | _ => none
  | _ => none

def step (s : State) (t : Token) : Option State :=
  match s.expected with
  | .value => startValue s.frames t
  | .firstItem => if t = .closeArray then close s.frames t else startValue s.frames t
  | .firstKey => if t = .closeObject then close s.frames t else takeKey s.frames t
  | .key => takeKey s.frames t
  | .colon => if t = .colon then some ⟨s.frames, .value⟩ else none
  | .separator =>
    if t = .comma then
      match s.frames with
      | .array _ :: _ => some ⟨s.frames, .value⟩
      | .object _ _ :: _ => some ⟨s.frames, .key⟩
      | [] => none
    else close s.frames t
  | .nothing _ => none

/-- The tree, if the text is complete. -/
def result? (s : State) : Option Tree :=
  match s.expected with
  | .nothing v => some v
  | _ => none

def run : State → List Token → Option Tree
  | s, [] => result? s
  | s, t :: rest => (step s t).bind fun s => run s rest

end Parser

/-- The tree of a text, which may be surrounded by blanks. -/
def Tree.parse (bytes : List UInt8) : Option Tree :=
  (tokens? bytes).bind (Parser.run ⟨[], .value⟩)

def putMember (members : List (String × Value)) (key : String) (v : Value) :
    List (String × Value) :=
  if members.any (·.1 == key) then
    members.map fun m => if m.1 == key then (key, v) else m
  else members ++ [(key, v)]

def Numeral.toValue? (n : Numeral) : Option Value :=
  match n.integer? with
  | some i => some (.integer i)
  | none => n.double?.map .double

/-- The value of a tree that nests at most `room` containers. A repeated key keeps its first place
and its last value. -/
def Tree.toValue? : Nat → Tree → Option Value
  | _, .null => some .null
  | _, .flag b => some (.flag b)
  | _, .number n => n.toValue?
  | _, .text content => content.map .text
  | 0, .array _ => none
  | 0, .object _ => none
  | room + 1, .array items => (items.mapM (toValue? room)).map .array
  | room + 1, .object members => do
    let read ← members.mapM fun (key, v) => do
      let key ← key
      let v ← toValue? room v
      pure (key, v)
    pure (.object (read.foldl (fun ms m => putMember ms m.1 m.2) []))

/-- The containers a value may nest, counted from the outermost of the text. -/
def nestingLimit : Nat := 127

def Value.parse (bytes : List UInt8) : Option Value :=
  (Tree.parse bytes).bind (Tree.toValue? nestingLimit)

end RemoteNode.Json
