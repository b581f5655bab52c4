import RemoteNode.Toml.Scan

/-!
TOML documents: lines that give values to keys or open tables. Arrays may stretch over lines, tables
between braces may not. Values nest at most seventy-nine arrays and such tables.
-/

namespace RemoteNode.Toml

open Scan

/-- The containers a value may nest. -/
def nestingLimit : Nat := 79

/-- A key with its path and value. -/
structure Assignment where
  path : List String
  key : String
  value : Value

/-- The table that assignments make between braces. -/
def inlineTable (assignments : List Assignment) : Option Value :=
  (assignments.foldlM (fun ms a => Members.assign a.path a.key a.value ms) []).map fun ms =>
    .table (finishMembers ms)

mutual

/-- A value. `steps` bounds the values and separators still to be taken, `room` the containers still
to be nested. -/
def value : (steps room : Nat) → Scan Value
  | 0, _ => fun _ => none
  | steps + 1, room => fun cs =>
    match cs, room with
    | '"' :: _, _ => (text cs).map fun (s, rest) => (.text s, rest)
    | '\x27' :: _, _ => (text cs).map fun (s, rest) => (.text s, rest)
    | '[' :: rest, room + 1 => do
      let (vs, rest) ← items steps room rest
      pure (.array vs, rest)
    | '\x7b' :: rest, room + 1 => do
      match rest.dropWhile isBlank with
      | '\x7d' :: rest => pure (.table [], rest)
      | rest =>
        let (as, rest) ← assignments steps room rest
        let v ← inlineTable as
        pure (v, rest)
    | cs, _ => bare cs

/-- The items of an array up to its bracket; a comma may follow the last. -/
def items : (steps room : Nat) → Scan (List Value)
  | 0, _ => fun _ => none
  | steps + 1, room => fun cs => do
    match ← gap false cs with
    | ']' :: rest => pure ([], rest)
    | cs =>
      let (v, rest) ← value steps room cs
      match ← gap false rest with
      | ']' :: rest => pure ([v], rest)
      | ',' :: rest =>
        let (vs, rest) ← items steps room rest
        pure (v :: vs, rest)
      | _ => none

def assignments : (steps room : Nat) → Scan (List Assignment)
  | 0, _ => fun _ => none
  | steps + 1, room => fun cs => do
    let (a, rest) ← assignment steps room cs
    match rest.dropWhile isBlank with
    | '\x7d' :: rest => pure ([a], rest)
    | ',' :: rest =>
      let (as, rest) ← assignments steps room rest
      pure (a :: as, rest)
    | _ => none

def assignment : (steps room : Nat) → Scan Assignment
  | 0, _ => fun _ => none
  | steps + 1, room => fun cs => do
    let ((path, last), rest) ← key cs
    let ((), rest) ← char '=' rest
    let (v, rest) ← value steps room (rest.dropWhile isBlank)
    pure (⟨path, last, v⟩, rest)

end

/-- A line that says something. -/
inductive Statement where
  | assign (a : Assignment)
  | openTable (path : List String) (key : String)
  | openNext (path : List String) (key : String)

def statement (steps : Nat) : Scan Statement := fun cs =>
  match cs with
  | '[' :: '[' :: rest => do
    let ((path, last), rest) ← key rest
    let ((), rest) ← char ']' rest
    let ((), rest) ← char ']' rest
    pure (.openNext path last, rest)
  | '[' :: rest => do
    let ((path, last), rest) ← key rest
    let ((), rest) ← char ']' rest
    pure (.openTable path last, rest)
  | cs => do
    let (a, rest) ← assignment steps nestingLimit cs
    pure (.assign a, rest)

def statements (steps : Nat) : (lines : Nat) → List Char → Option (List Statement)
  | 0, _ => none
  | lines + 1, cs => do
    match ← gap false cs with
    | [] => pure []
    | cs =>
      let (s, rest) ← statement steps cs
      let ((), rest) ← lineEnd rest
      let ss ← statements steps lines rest
      pure (s :: ss)

/-- A document while it is read: its members and the table that assignments go to. -/
structure Draft where
  root : Members
  current : List String

def Draft.inCurrent (d : Draft) (change : Members → Option Members) : Option Draft :=
  (Members.descend .implied change d.current d.root).map fun root => { d with root := root }

def Draft.add (d : Draft) : Statement → Option Draft
  | .assign a => d.inCurrent (Members.assign a.path a.key a.value)
  | .openTable path key => (Members.openTable path key d.root).map (⟨·, path ++ [key]⟩)
  | .openNext path key => (Members.openNext path key d.root).map (⟨·, path ++ [key]⟩)

def parse (s : String) : Option (List (String × Value)) := do
  let cs := match s.toList with
    | '\ufeff' :: cs => cs
    | cs => cs
  let bound := cs.length + 1
  let ss ← statements (4 * bound) bound cs
  let draft ← ss.foldlM Draft.add ⟨[], []⟩
  pure (finishMembers draft.root)

end RemoteNode.Toml
