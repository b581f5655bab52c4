import RemoteNode.Keccak
import RemoteNode.Schema.Basic

/-!
Transactions: as the opaque bytes that are relayed and hashed, and as the detailed records that a
node makes of them.
-/

namespace RemoteNode.Chain

/-- A serialized transaction. -/
abbrev Transaction := List UInt8

namespace Transaction

/-- The identifier: the digest of the bytes. -/
def id (tx : Transaction) : Hash := Keccak.digest tx

/-- The hexadecimal form in which a transaction is relayed. -/
def hex (tx : Transaction) : String := Text.Hex.text tx

end Transaction

/-- What a transaction spends. -/
inductive Input where
  /-- The reward of a block at this height. -/
  | base (height : UInt32)
  /-- An output hidden among `mixin` others. -/
  | key (amount : UInt64) (keyImage : PublicKey) (mixin : UInt64)
  /-- An output that asks for several signatures. -/
  | multisignature (amount : UInt64) (outputIndex signatures : UInt32)
  deriving DecidableEq

/-- What a transaction creates. -/
structure Output where
  amount : UInt64
  /-- The place among all outputs of this amount. -/
  globalIndex : UInt32
  key : PublicKey
  deriving DecidableEq

/-- A transaction as a node describes it. -/
structure TransactionDetails where
  hash : Hash
  size : UInt64
  fee : UInt64
  totalInputsAmount : UInt64
  totalOutputsAmount : UInt64
  mixin : UInt64
  unlockTime : UInt64
  timestamp : UInt64
  paymentId : Hash
  hasPaymentId : Bool
  inBlockchain : Bool
  blockHash : Hash
  blockHeight : UInt32
  inputs : List Input
  outputs : List Output
  deriving DecidableEq

/-- A transaction's identifier with its bytes up to the signatures. -/
structure TransactionPrefix where
  id : Hash
  bytes : List UInt8
  deriving DecidableEq

/-- Inputs are told apart by a member `type`. -/
def Input.schema : Schema Input :=
  .variant "type"
    (.cons "base" (.needed "height" .word32 .nil) <|
     .cons "key" (.needed "amount" .word64 <| .needed "key_image" .bytes32 <|
       .needed "mixin" .word64 .nil) <|
     .cons "multisignature" (.needed "amount" .word64 <| .needed "output_index" .word32 <|
       .needed "signatures" .word32 .nil) .nil)
    { make := fun
        | .inl (height, ()) => .base height
        | .inr (.inl (amount, keyImage, mixin, ())) => .key amount keyImage mixin
        | .inr (.inr (.inl (amount, outputIndex, signatures, ()))) =>
          .multisignature amount outputIndex signatures
      parts := fun
        | .base height => .inl (height, ())
        | .key amount keyImage mixin => .inr (.inl (amount, keyImage, mixin, ()))
        | .multisignature amount outputIndex signatures =>
          .inr (.inr (.inl (amount, outputIndex, signatures, ())))
      make_parts := fun v => by cases v <;> rfl
      parts_make := fun
        | .inl _ => rfl
        | .inr (.inl _) => rfl
        | .inr (.inr (.inl _)) => rfl }

def Output.schema : Schema Output :=
  .record (.needed "amount" .word64 <| .needed "global_index" .word32 <|
      .needed "key" .bytes32 .nil)
    ⟨fun (a, b, c, ()) => ⟨a, b, c⟩, fun v => (v.amount, v.globalIndex, v.key, ()),
     fun _ => rfl, fun _ => rfl⟩

/-- Only the hash has to be present. -/
def TransactionDetails.schema : Schema TransactionDetails :=
  .record
    (.needed "hash" .bytes32 <| .defaulted "size" .word64 <| .defaulted "fee" .word64 <|
     .defaulted "total_inputs_amount" .word64 <| .defaulted "total_outputs_amount" .word64 <|
     .defaulted "mixin" .word64 <| .defaulted "unlock_time" .word64 <|
     .defaulted "timestamp" .word64 <| .defaulted "payment_id" .bytes32 <|
     .defaulted "has_payment_id" .flag <| .defaulted "in_blockchain" .flag <|
     .defaulted "block_hash" .bytes32 <| .defaulted "block_height" .word32 <|
     .defaulted "inputs" (.list Input.schema) <| .defaulted "outputs" (.list Output.schema) .nil)
    ⟨fun (a, b, c, d, e, f, g, h, i, j, k, l, m, n, o, ()) =>
      ⟨a, b, c, d, e, f, g, h, i, j, k, l, m, n, o⟩,
     fun v => (v.hash, v.size, v.fee, v.totalInputsAmount, v.totalOutputsAmount, v.mixin,
      v.unlockTime, v.timestamp, v.paymentId, v.hasPaymentId, v.inBlockchain, v.blockHash,
      v.blockHeight, v.inputs, v.outputs, ()),
     fun _ => rfl, fun _ => rfl⟩

def TransactionPrefix.schema : Schema TransactionPrefix :=
  .record (.needed "tx_id" .bytes32 <| .needed "tx_prefix" .bytes .nil)
    ⟨fun (a, b, ()) => ⟨a, b⟩, fun v => (v.id, v.bytes, ()), fun _ => rfl, fun _ => rfl⟩

end RemoteNode.Chain
