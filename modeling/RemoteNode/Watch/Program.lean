import RemoteNode.CommandLine
import RemoteNode.Proxy
import RemoteNode.Session.Rehearsal
import RemoteNode.Watch.Log

/-!
The watcher: it connects to a node, logs what it is told, and stops when it is interrupted. The
node's replies are written down; a request beyond them gets no answer in time. The interrupt comes
as soon as the connection is there.
-/

namespace RemoteNode.Watch

open Session (Cue Happening Rehearsal Reply)

/-- What a run of the watcher leaves: its log and how it exits. -/
structure Account where
  /-- The log is written as JSON. -/
  jsonLogs : Bool
  lines : List Line
  exit : UInt32

def exitDone : UInt32 := 0

def exitFailed : UInt32 := 1

def exitUsage : UInt32 := 2

def linesOf (a : Session.Account) : List Line :=
  a.happenings.flatMap fun
    | .told _ n => Line.ofNotice n
    | .did _ _ _ => []

def isInitialized (a : Session.Account) : Bool :=
  a.completions.any fun c => match c.outcome with
    | .init (.ok ()) => true
    | _ => false

/-- Connects through a proxy, is interrupted and stops: the log, and whether it came about. -/
def connect (p : Proxy) (replies : List Reply) : List Line × Bool :=
  let r := Rehearsal.begin true true p.timeout
  let (r, _) := r.step (.register .node "log" fun _ _ => [])
  let (r, _) := r.step (.register .connectivity "log" fun _ _ => [])
  let (r, opened) := r.step (.init "init" [] (replies ++ [.arrival .late]))
  if isInitialized opened then
    let chain := opened.overview.chain
    let (_, closed) := r.step .shutdown
    (linesOf opened ++ [Line.initialized chain.header chain.knownHeight,
      Line.info "received shutdown signal" []] ++ linesOf closed ++
      [Line.info "node watcher stopped" []], true)
  else (linesOf opened ++ [Line.failed "failed to connect to node"], false)

def watch (s : Settings) (replies : List Reply) : List Line × Bool :=
  match Proxy.ofSettings s with
  | .error e => ([Line.starting s, Line.failed e.message], false)
  | .ok p =>
    let (lines, fine) := connect p replies
    (Line.starting s :: lines, fine)

/-- Runs the watcher with a command line that was read. -/
def run (r : CommandLine.Request) (read : String → Option (List UInt8)) (replies : List Reply) :
    Account :=
  match r.settings read with
  | .error _ => ⟨r.jsonLogs, [], exitFailed⟩
  | .ok s =>
    let (lines, fine) := watch s replies
    ⟨r.jsonLogs, lines, if fine then exitDone else exitFailed⟩

/-- How the watcher exits when nothing is watched. -/
def exitOf : CommandLine.Stop → UInt32
  | .help | .version => exitDone
  | .usage _ => exitUsage

end RemoteNode.Watch
