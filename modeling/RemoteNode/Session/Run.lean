import RemoteNode.Session.Step

/-!
How a world goes on by itself: one order in which its threads run, of the many that may be. A
thread that can run does; a worker told to stop ends its tasks before anything else. Whatever is
reached this way can be reached.
-/

namespace RemoteNode.Session

/-- What an idle worker tries, in this order. -/
def Worker.turns (x : Worker) : List Turn :=
  if x.stopped then [.poll, .interrupt 0, .wake, .take, .close, .reject, .finish]
  else [.poll, .take, .wake]

namespace World

/-- The moves that need nobody from outside, in the order in which they are tried. -/
def ownMoves (w : World) : List Move :=
  (List.range w.callers.length).map (fun n => .run (.caller n)) ++
    w.workers.zipIdx.flatMap fun (x, s) => .run (.worker s) :: x.turns.map (.turn s)

def next? (w : World) : Option World := w.ownMoves.findSome? w.step

/-- Goes on by itself for at most so many moves. -/
def settle : Nat → World → World
  | 0, w => w
  | n + 1, w =>
    match w.next? with
    | some v => settle n v
    | none => w

/-- A caller acts, and the world goes on by itself for at most so many moves. -/
def perform (w : World) (n : Nat) (a : Act) (limit : Nat) : World :=
  ((w.step (.call n a)).getD w).settle limit

def lastReturned? (w : World) : Option Returned :=
  w.log.findSome? fun
    | .returned .caller _ v => some v
    | _ => none

/-- The way to a world continues to what is reached from there. -/
theorem Reaches.trans {w v u : World} (h : Reaches w v) (k : Reaches v u) : Reaches w u := by
  induction h with
  | refl => exact k
  | step m h _ ih => exact .step m h (ih k)

/-- One move reaches what it leads to. -/
theorem Reaches.single {w v : World} {m : Move} (h : w.step m = some v) : Reaches w v :=
  .step m h (.refl v)

theorem reaches_next {w v : World} (h : w.next? = some v) : Reaches w v := by
  obtain ⟨m, -, hm⟩ := List.exists_of_findSome?_eq_some h
  exact .single hm

/-- Going on by itself, a world takes steps only. -/
theorem reaches_settle (n : Nat) (w : World) : Reaches w (w.settle n) := by
  induction n generalizing w with
  | zero => exact .refl w
  | succ n ih =>
    unfold settle
    split
    · rename_i v h
      exact (reaches_next h).trans (ih v)
    · exact .refl w

/-- So does a caller who acts. -/
theorem reaches_perform (w : World) (n : Nat) (a : Act) (limit : Nat) :
    Reaches w (w.perform n a limit) := by
  unfold perform
  cases h : w.step (.call n a) with
  | none => exact reaches_settle limit w
  | some v => exact (Reaches.single h).trans (reaches_settle limit v)

end World

end RemoteNode.Session
