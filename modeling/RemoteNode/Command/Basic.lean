import RemoteNode.Command.Answer

/-!
The commands a node serves: what each asks for and answers, where it is posted and in which format.
-/

namespace RemoteNode

/-- A command that a node serves. -/
inductive Command where
  | info
  | height
  | feeAddress
  | lastHeader
  | sendTransaction
  | randomOutputs
  | blocks
  | outputIndices
  | liteBlocks
  | poolChanges
  | blocksByHeights
  | blocksByHashes
  | blockByHeight
  | blockHashesInWindow
  | transactionsByHashes
  | transactionHashesByPaymentId
  | poolTransactionsInWindow
  | multisignatureOutput
  deriving DecidableEq, Repr

/-- The three ways in which requests and answers are written. -/
inductive Format where
  | packed
  | json
  /-- JSON inside an envelope that names the method. -/
  | rpc
  deriving DecidableEq, Repr

namespace Format

def name : Format → String
  | packed => "binary"
  | json => "json"
  | rpc => "json-rpc"

def contentType : Format → String
  | packed => "application/octet-stream"
  | json | rpc => "application/json"

end Format

namespace Command

open Chain

/-- What a command asks for. -/
abbrev Request : Command → Type
  | info | height | feeAddress | lastHeader => Unit
  | sendTransaction => String
  | randomOutputs => DecoyQuery
  | blocks | blocksByHashes | transactionsByHashes => List Hash
  | outputIndices | transactionHashesByPaymentId => Hash
  | liteBlocks => ChainQuery
  | poolChanges => PoolView
  | blocksByHeights => List UInt32
  | blockByHeight => UInt32
  | blockHashesInWindow => Window UInt32
  | poolTransactionsInWindow => Window UInt64
  | multisignatureOutput => OutputPlace

/-- What the answer to a command carries besides its status. -/
abbrev Content : Command → Type
  | info => NodeInfo
  | height => UInt32
  | feeAddress => String
  | lastHeader => HeaderReport
  | sendTransaction => Unit
  | randomOutputs => List Decoys
  | blocks => BlockRun
  | outputIndices => List UInt32
  | liteBlocks => LiteRun
  | poolChanges => PoolChanges
  | blocksByHeights | blocksByHashes => List BlockDetails
  | blockByHeight => BlockDetails
  | blockHashesInWindow => Excerpt UInt32 Hash
  | transactionsByHashes => List TransactionDetails
  | transactionHashesByPaymentId => List Hash
  | poolTransactionsInWindow => Excerpt UInt64 TransactionDetails
  | multisignatureOutput => MultisignatureOutput

def format : Command → Format
  | randomOutputs | blocks | outputIndices | liteBlocks | poolChanges => .packed
  | lastHeader | blockByHeight | multisignatureOutput => .rpc
  | _ => .json

/-- The method of a command inside an envelope, the path of every other. -/
def endpoint : Command → String
  | info => "/getinfo"
  | height => "/getheight"
  | feeAddress => "/feeaddress"
  | lastHeader => "getlastblockheader"
  | sendTransaction => "/sendrawtransaction"
  | randomOutputs => "/getrandom_outs.bin"
  | blocks => "/getblocks.bin"
  | outputIndices => "/get_o_indexes.bin"
  | liteBlocks => "/queryblockslite.bin"
  | poolChanges => "/get_pool_changes_lite.bin"
  | blocksByHeights => "/get_blocks_details_by_heights"
  | blocksByHashes => "/get_blocks_details_by_hashes"
  | blockByHeight => "getblockdetailsbyheight"
  | blockHashesInWindow => "/get_blocks_hashes_by_timestamps"
  | transactionsByHashes => "/get_transaction_details_by_hashes"
  | transactionHashesByPaymentId => "/get_transaction_hashes_by_payment_id"
  | poolTransactionsInWindow => "/get_pool_transactions_by_timestamps"
  | multisignatureOutput => "getmultisignatureoutput"

/-- The path to which a command is posted; all methods share one. -/
def path (c : Command) : String :=
  match c.format with
  | .rpc => "/json_rpc"
  | .packed | .json => c.endpoint

def request : (c : Command) → Schema c.Request
  | info | height | feeAddress | lastHeader => Layout.empty
  | sendTransaction => Layout.single "tx_as_hex" .text
  | randomOutputs => Layout.decoyQuery
  | blocks => Layout.single "block_ids" (.list .bytes32)
  | outputIndices => Layout.single "txid" .bytes32
  | liteBlocks => Layout.chainQuery
  | poolChanges => Layout.poolView
  | blocksByHeights => Layout.single "block_heights" (.list .word32)
  | blocksByHashes => Layout.single "block_hashes" (.list .bytes32)
  | blockByHeight => Layout.single "block_height" .word32
  | blockHashesInWindow => Layout.window .word32
  | transactionsByHashes => Layout.single "transaction_hashes" (.list .bytes32)
  | transactionHashesByPaymentId => Layout.single "payment_id" .bytes32
  | poolTransactionsInWindow => Layout.window .word64
  | multisignatureOutput => Layout.outputPlace

def answer : (c : Command) → Schema (Answer c.Content)
  | info => Layout.nodeInfo
  | height => Layout.statusFirst "height" .word32 none
  | feeAddress => Layout.statusFirst "fee_address" .text (some "")
  | lastHeader => Layout.statusFirst "block_header" HeaderReport.schema none
  | sendTransaction => Layout.statusOnly
  | randomOutputs => Layout.statusLast "outs" (.list Decoys.schema)
  | blocks => Layout.blockRun
  | outputIndices => Layout.statusLast "o_indexes" (.list .word32)
  | liteBlocks => Layout.liteRun
  | poolChanges => Layout.poolChanges
  | blocksByHeights | blocksByHashes =>
    Layout.statusFirst "blocks" (.list BlockDetails.schema) (some [])
  | blockByHeight => Layout.statusFirst "block" BlockDetails.schema none
  | blockHashesInWindow => Layout.excerpt "block_hashes" .bytes32 .word32
  | transactionsByHashes =>
    Layout.statusFirst "transactions" (.list TransactionDetails.schema) (some [])
  | transactionHashesByPaymentId =>
    Layout.statusFirst "transaction_hashes" (.list .bytes32) (some [])
  | poolTransactionsInWindow => Layout.excerpt "transactions" TransactionDetails.schema .word64
  | multisignatureOutput => Layout.statusFirst "output" MultisignatureOutput.schema none

end Command

end RemoteNode
