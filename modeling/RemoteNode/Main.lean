import RemoteNode.Watch.Program
import RemoteNode.Watch.Recording

/-!
The command line of the watcher. Nothing here reaches a network: the replies of the node are read
from the standard input, and the interrupt comes as soon as the connection is there.
-/

namespace RemoteNode.Watch

/-- What is shown to those who ask for help. -/
def help : String :=
  String.intercalate "\n"
    ["Follows a remote Dynex node and logs chain, pool and connectivity changes",
      "",
      "Usage: dynex-node-watch [OPTIONS]",
      "",
      "Options:",
      "  -c, --config <FILE>              TOML file with the proxy configuration",
      "      --host <HOST>                Daemon RPC host [default: 127.0.0.1]",
      "      --port <PORT>                Daemon RPC port [default: 18333]",
      "      --timeout-ms <MILLIS>        Timeout of a single RPC round-trip",
      "      --pull-interval-ms <MILLIS>  Delay between two node status pulls",
      "      --json-logs                  Emit logs as JSON lines",
      "  -h, --help                       Print help",
      "  -V, --version                    Print version"]

/-- The text that explains why nothing is watched. -/
def explanation : CommandLine.Stop → String
  | .help => help
  | .version => "dynex-node-watch"
  | .usage .unknownArgument => "error: unexpected argument"
  | .usage .missingValue => "error: a value is required"
  | .usage .badValue => "error: invalid value"
  | .usage .repeated => "error: an argument cannot be used multiple times"
  | .usage .needlessValue => "error: unexpected value"

def rendered (jsonLogs : Bool) (l : Line) : String :=
  if jsonLogs then l.toJson.toText else l.text

def contents (path : String) : IO (Option (List UInt8)) := do
  try
    let bytes ← IO.FS.readBinFile path
    return some bytes.toList
  catch _ => return none

/-- The lines of a stream, without their ends. -/
partial def linesFrom (input : IO.FS.Stream) : IO (List String) := do
  let line ← input.getLine
  if line.isEmpty then return []
  let rest ← linesFrom input
  return String.ofList (line.toList.takeWhile (· != '\n')) :: rest

/-- Watches as the command line asks for. -/
def start (r : CommandLine.Request) : IO UInt32 := do
  let bytes ← match r.file with
    | some path => contents path
    | none => pure none
  match r.settings fun _ => bytes with
  | .error e =>
    IO.eprintln ("Error: " ++ e.message ++ ": " ++ e.cause.message)
    return exitFailed
  | .ok _ =>
    let replies := (← linesFrom (← IO.getStdin)).map replyOfLine
    let account := run r (fun _ => bytes) replies
    for l in account.lines do
      IO.println (rendered account.jsonLogs l)
    return account.exit

end RemoteNode.Watch

/-- Follows a remote node. -/
def main (args : List String) : IO UInt32 := do
  let host ← IO.getEnv "DYNEX_NODE_HOST"
  let port ← IO.getEnv "DYNEX_NODE_PORT"
  match RemoteNode.CommandLine.parse ⟨host, port⟩ args with
  | .ok r => RemoteNode.Watch.start r
  | .error stop =>
    IO.println (RemoteNode.Watch.explanation stop)
    return RemoteNode.Watch.exitOf stop
