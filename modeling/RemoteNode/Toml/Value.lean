import RemoteNode.Double

/-!
Values of TOML documents, and the tables they are collected in. A table remembers how it came to
be, since a document may add to it only in certain ways: a header opens a table once, and dotted
keys add only to tables that dotted keys have made.
-/

namespace RemoteNode.Toml

/-- A value of a document. -/
inductive Value where
  | text (s : String)
  | integer (n : Int)
  | double (d : Double)
  | flag (b : Bool)
  /-- A date, a time or both, as written. -/
  | moment (cs : List Char)
  | array (items : List Value)
  | table (members : List (String × Value))
  deriving Inhabited

/-- What made a table. -/
inductive Origin where
  /-- Its own header. -/
  | header
  /-- The header of a table in it. -/
  | implied
  /-- A dotted key. -/
  | dotted
  deriving DecidableEq

/-- What a key of a document under construction stands for. -/
inductive Entry where
  | value (v : Value)
  | table (origin : Origin) (members : List (String × Entry))
  /-- Tables that each began with a header of their own, at least one. -/
  | tables (ts : List (List (String × Entry)))

/-- The members of a table under construction. -/
abbrev Members := List (String × Entry)

mutual

def Entry.finish : Entry → Value
  | .value v => v
  | .table _ ms => .table (finishMembers ms)
  | .tables ts => .array (finishTables ts)

/-- The values of the members of a finished table. -/
def finishMembers : List (String × Entry) → List (String × Value)
  | [] => []
  | (key, e) :: ms => (key, e.finish) :: finishMembers ms

def finishTables : List (List (String × Entry)) → List Value
  | [] => []
  | ms :: ts => .table (finishMembers ms) :: finishTables ts

end

namespace Members

/-- Gives an entry to a key that has one. -/
def replace (key : String) (e : Entry) : Members → Members :=
  List.map fun m => if m.1 == key then (key, e) else m

/-- Changes the table at the end of a path of keys, making tables on the way where there are none.
Of several tables under one key the last is entered. -/
def descend (made : Origin) (change : Members → Option Members) :
    List String → Members → Option Members
  | [], ms => change ms
  | key :: path, ms =>
    match ms.lookup key with
    | none => (descend made change path []).map fun inner => ms ++ [(key, .table made inner)]
    | some (.value _) => none
    | some (.tables ts) =>
      match ts.getLast? with
      | none => none
      | some last =>
        if made = .dotted && path.isEmpty then none
        else (descend made change path last).map fun last =>
          replace key (.tables (ts.dropLast ++ [last])) ms
    | some (.table origin inner) =>
      if made = .dotted && (origin = .header || (path.isEmpty && origin ≠ .dotted)) then none
      else (descend made change path inner).map fun inner =>
        replace key (.table origin inner) ms

/-- Adds a key that is not there yet. -/
def add (key : String) (e : Entry) (ms : Members) : Option Members :=
  if (ms.lookup key).isSome then none else some (ms ++ [(key, e)])

/-- Gives a value to a dotted key. -/
def assign (path : List String) (key : String) (v : Value) : Members → Option Members :=
  descend .dotted (add key (.value v)) path

def openTable (path : List String) (key : String) : Members → Option Members :=
  descend .implied (fun ms =>
    match ms.lookup key with
    | none => some (ms ++ [(key, .table .header [])])
    | some (.table .implied inner) => some (replace key (.table .header inner) ms)
    | some _ => none) path

/-- Opens one more table under a header for several. -/
def openNext (path : List String) (key : String) : Members → Option Members :=
  descend .implied (fun ms =>
    match ms.lookup key with
    | none => some (ms ++ [(key, .tables [[]])])
    | some (.tables ts) => some (replace key (.tables (ts ++ [[]])) ms)
    | some _ => none) path

end Members

end RemoteNode.Toml
