import RemoteNode.Bytes32

/-!
The Keccak sponge with a 1088-bit rate and a 256-bit digest. Padding appends a byte `01` and sets
the high bit of the block's last byte, so it differs from the later standard's padding in one
byte.
-/

namespace RemoteNode.Keccak

/-- Twenty-five lanes, the lane of column `x` and row `y` at `x + 5 * y`. -/
abbrev Lanes := Array UInt64

/-- Bytes taken in by one block. -/
def rate : Nat := 136

def roundConstants : List UInt64 :=
  [0x0000000000000001, 0x0000000000008082, 0x800000000000808A, 0x8000000080008000,
   0x000000000000808B, 0x0000000080000001, 0x8000000080008081, 0x8000000000008009,
   0x000000000000008A, 0x0000000000000088, 0x0000000080008009, 0x000000008000000A,
   0x000000008000808B, 0x800000000000008B, 0x8000000000008089, 0x8000000000008003,
   0x8000000000008002, 0x8000000000000080, 0x000000000000800A, 0x800000008000000A,
   0x8000000080008081, 0x8000000000008080, 0x0000000080000001, 0x8000000080008008]

/-- The rotation of each lane, in the order of the lanes. -/
def rotations : Array Nat :=
  #[0, 1, 62, 28, 27, 36, 44, 6, 55, 20, 3, 10, 43, 25, 39, 41, 45, 15, 21, 8, 18, 2, 61, 56, 14]

/-- Rotates a lane towards its high bit. -/
def rotate (w : UInt64) (n : Nat) : UInt64 :=
  if n = 0 then w else (w <<< UInt64.ofNat n) ||| (w >>> UInt64.ofNat (64 - n))

def lane (a : Lanes) (i : Nat) : UInt64 := a.getD i 0

/-- Adds to each lane the parities of the two neighbouring columns. -/
def mixColumns (a : Lanes) : Lanes :=
  let parity := Array.ofFn fun x : Fin 5 =>
    lane a x ^^^ lane a (x + 5) ^^^ lane a (x + 10) ^^^ lane a (x + 15) ^^^ lane a (x + 20)
  Array.ofFn fun i : Fin 25 =>
    lane a i ^^^ lane parity ((i + 4) % 5) ^^^ rotate (lane parity ((i + 1) % 5)) 1

/-- Rotates every lane and moves it: the lane now at column `x`, row `y` comes from column
`x + 3 * y` and row `x`. -/
def spread (a : Lanes) : Lanes :=
  Array.ofFn fun i : Fin 25 =>
    let x := i.val % 5
    let y := i.val / 5
    let source := (x + 3 * y) % 5 + 5 * x
    rotate (lane a source) (rotations.getD source 0)

/-- Combines each lane with its two successors in the row. -/
def combineRows (a : Lanes) : Lanes :=
  Array.ofFn fun i : Fin 25 =>
    let row := 5 * (i.val / 5)
    lane a i ^^^
      ((lane a (row + (i + 1) % 5) ^^^ 0xFFFFFFFFFFFFFFFF) &&& lane a (row + (i + 2) % 5))

def round (a : Lanes) (constant : UInt64) : Lanes :=
  let b := combineRows (spread (mixColumns a))
  b.set! 0 (lane b 0 ^^^ constant)

def permute (a : Lanes) : Lanes := roundConstants.foldl round a

/-- Eight bytes as a lane, the first the lowest. -/
def laneOfBytes (bytes : List UInt8) : UInt64 :=
  bytes.foldr (fun b w => (w <<< 8) ||| b.toUInt64) 0

/-- The bytes of a lane, the lowest first. -/
def bytesOfLane (w : UInt64) : List UInt8 :=
  (List.range 8).map fun i => (w >>> UInt64.ofNat (8 * i)).toUInt8

/-- Takes in one block of `rate` bytes. -/
def absorb (a : Lanes) (block : List UInt8) : Lanes :=
  permute (Array.ofFn fun i : Fin 25 =>
    if i.val < 17 then lane a i ^^^ laneOfBytes ((block.drop (8 * i)).take 8) else lane a i)

def pad (block : List UInt8) : List UInt8 :=
  let free := rate - block.length
  if free ≤ 1 then block ++ [0x81]
  else block ++ 0x01 :: (List.replicate (free - 2) 0 ++ [0x80])

/-- Takes in all bytes, block by block, the last one padded. -/
def absorbAll (a : Lanes) (bytes : List UInt8) : Lanes :=
  if _small : bytes.length < rate then absorb a (pad bytes)
  else absorbAll (absorb a (bytes.take rate)) (bytes.drop rate)
termination_by bytes.length
decreasing_by
  simp only [List.length_drop, rate] at *
  omega

/-- The first four lanes as bytes. -/
def squeeze (a : Lanes) : List UInt8 := (List.range 4).flatMap fun i => bytesOfLane (lane a i)

theorem length_squeeze (a : Lanes) : (squeeze a).length = 32 := by
  simp [squeeze, bytesOfLane, List.range_succ]

def digest (bytes : List UInt8) : Hash :=
  ⟨squeeze (absorbAll (Array.replicate 25 0) bytes), length_squeeze _⟩

end RemoteNode.Keccak
