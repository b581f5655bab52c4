import RemoteNode.Schema.Basic

/-!
Outputs as a node lists them for mixing, and those that ask for several signatures.
-/

namespace RemoteNode.Chain

/-- An output that may be mixed with. -/
structure Decoy where
  /-- The place among all outputs of its amount. -/
  index : UInt32
  key : PublicKey
  deriving DecidableEq

/-- The outputs offered for one amount. -/
structure Decoys where
  amount : UInt64
  outputs : List Decoy
  deriving DecidableEq

/-- An output that asks for several signatures. -/
structure MultisignatureOutput where
  keys : List PublicKey
  requiredSignatures : UInt32
  /-- How long it stays locked; zero if it is not. -/
  term : UInt32
  deriving DecidableEq

/-- All members have to be present. -/
def Decoy.schema : Schema Decoy :=
  .record (.needed "global_amount_index" .word32 <| .needed "out_key" .bytes32 .nil)
    ⟨fun (a, b, ()) => ⟨a, b⟩, fun v => (v.index, v.key, ()), fun _ => rfl, fun _ => rfl⟩

def Decoys.schema : Schema Decoys :=
  .record (.needed "amount" .word64 <| .needed "outs" (.list Decoy.schema) .nil)
    ⟨fun (a, b, ()) => ⟨a, b⟩, fun v => (v.amount, v.outputs, ()), fun _ => rfl, fun _ => rfl⟩

/-- The term may be missing. -/
def MultisignatureOutput.schema : Schema MultisignatureOutput :=
  .record (.needed "keys" (.list .bytes32) <| .needed "required_signature_count" .word32 <|
      .defaulted "term" .word32 .nil)
    ⟨fun (a, b, c, ()) => ⟨a, b, c⟩, fun v => (v.keys, v.requiredSignatures, v.term, ()),
     fun _ => rfl, fun _ => rfl⟩

end RemoteNode.Chain
