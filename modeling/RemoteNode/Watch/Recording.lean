import RemoteNode.Session.World
import RemoteNode.Text.Cut
import RemoteNode.Text.Decimal
import RemoteNode.Text.Hex

/-!
Replies of a node written down, one in a line: the status, a blank and the body in hexadecimal
digits. The line `lost` stands for a connection that breaks, and any other for a reply that never
comes.
-/

namespace RemoteNode.Watch

open Exchange (Arrival Response)

def response? (cs : List Char) : Option Response :=
  let (status, body) := Text.cut ' ' cs
  match Text.Decimal.natural? status, Text.Hex.decode (body.getD []) with
  | some n, some bytes => if n < 65536 then some ⟨UInt16.ofNat n, .inTime bytes⟩ else none
  | _, _ => none

def arrivalOfLine (line : String) : Arrival Response :=
  if line = "lost" then .failed (.other "the connection was lost")
  else match response? line.toList with
    | some r => .inTime r
    | none => .late

/-- The reply that a line stands for. -/
def replyOfLine (line : String) : Session.Reply := .arrival (arrivalOfLine line)

example : arrivalOfLine "200 4f4b" = .inTime ⟨200, .inTime [0x4f, 0x4b]⟩ := by cbv
example : arrivalOfLine "404" = .inTime ⟨404, .inTime []⟩ := by cbv
example : arrivalOfLine "lost" = .failed (.other "the connection was lost") := by cbv
example : arrivalOfLine "" = .late := by cbv

end RemoteNode.Watch
