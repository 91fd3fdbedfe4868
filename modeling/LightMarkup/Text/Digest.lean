import LightMarkup.Text.Utf8

/-!
BLAKE2b without a key, cut to a four-byte digest, in hexadecimal.
-/

namespace LightMarkup

namespace Digest

/-- Fractional parts of the square roots of the first eight primes. -/
def initialState : Array UInt64 := #[
  0x6a09e667f3bcc908, 0xbb67ae8584caa73b, 0x3c6ef372fe94f82b, 0xa54ff53a5f1d36f1,
  0x510e527fade682d1, 0x9b05688c2b3e6c1f, 0x1f83d9abfb41bd6b, 0x5be0cd19137e2179]

/-- The order in which each round reads the message words; twelve rounds use the ten rows in turn. -/
def schedule : List (List Nat) := [
  [0, 1, 2, 3, 4, 5, 6, 7, 8, 9, 10, 11, 12, 13, 14, 15],
  [14, 10, 4, 8, 9, 15, 13, 6, 1, 12, 0, 2, 11, 7, 5, 3],
  [11, 8, 12, 0, 5, 2, 15, 13, 10, 14, 3, 6, 7, 1, 9, 4],
  [7, 9, 3, 1, 13, 12, 11, 14, 2, 6, 5, 10, 4, 0, 15, 8],
  [9, 0, 5, 7, 2, 4, 10, 15, 14, 1, 11, 12, 6, 8, 3, 13],
  [2, 12, 6, 10, 0, 11, 8, 3, 4, 13, 7, 5, 15, 14, 1, 9],
  [12, 5, 1, 15, 14, 13, 4, 10, 0, 7, 6, 3, 9, 2, 8, 11],
  [13, 11, 7, 14, 12, 1, 3, 9, 5, 0, 15, 4, 8, 6, 2, 10],
  [6, 15, 14, 9, 11, 3, 0, 8, 12, 2, 13, 7, 1, 4, 10, 5],
  [10, 2, 8, 4, 7, 6, 1, 5, 15, 11, 9, 14, 3, 12, 13, 0],
  [0, 1, 2, 3, 4, 5, 6, 7, 8, 9, 10, 11, 12, 13, 14, 15],
  [14, 10, 4, 8, 9, 15, 13, 6, 1, 12, 0, 2, 11, 7, 5, 3]]

/-- The columns, then the diagonals, of the four by four working state. -/
def quarters : List (Nat × Nat × Nat × Nat) := [
  (0, 4, 8, 12), (1, 5, 9, 13), (2, 6, 10, 14), (3, 7, 11, 15),
  (0, 5, 10, 15), (1, 6, 11, 12), (2, 7, 8, 13), (3, 4, 9, 14)]

def rotateRight (w : UInt64) (n : UInt64) : UInt64 :=
  (w >>> n) ||| (w <<< (64 - n))

def mix (v : Array UInt64) (quarter : Nat × Nat × Nat × Nat) (x y : UInt64) : Array UInt64 :=
  let (ia, ib, ic, id) := quarter
  let a := v.getD ia 0 + v.getD ib 0 + x
  let d := rotateRight (v.getD id 0 ^^^ a) 32
  let c := v.getD ic 0 + d
  let b := rotateRight (v.getD ib 0 ^^^ c) 24
  let a := a + b + y
  let d := rotateRight (d ^^^ a) 16
  let c := c + d
  let b := rotateRight (b ^^^ c) 63
  (((v.setIfInBounds ia a).setIfInBounds ib b).setIfInBounds ic c).setIfInBounds id d

def mixRow (message : Array UInt64) (v : Array UInt64) : List (Nat × Nat × Nat × Nat) → List Nat → Array UInt64
  | quarter :: quarters, x :: y :: order =>
    mixRow message (mix v quarter (message.getD x 0) (message.getD y 0)) quarters order
  | _, _ => v

/-- The eight bytes of a word, least first. -/
def wordOfBytes (bytes : List UInt8) : UInt64 :=
  bytes.foldr (fun b w => w * 256 + b.toUInt64) 0

def wordsOfBlock : Nat → List UInt8 → List UInt64
  | 0, _ => []
  | n + 1, bytes => wordOfBytes (bytes.take 8) :: wordsOfBlock n (bytes.drop 8)

/-- Take in one block of 128 bytes (the last one padded by zeros); `total` counts the bytes so far. -/
def compress (state : Array UInt64) (block : List UInt8) (total : Nat) (last : Bool) : Array UInt64 :=
  let message := (wordsOfBlock 16 block).toArray
  let v := state ++ initialState
  let v := v.setIfInBounds 12 (v.getD 12 0 ^^^ total.toUInt64)
  let v := if last then v.setIfInBounds 14 (v.getD 14 0 ^^^ 0xffffffffffffffff) else v
  let v := schedule.foldl (fun v order => mixRow message v quarters order) v
  (Array.range 8).map fun i => state.getD i 0 ^^^ v.getD i 0 ^^^ v.getD (i + 8) 0

-- `blocks` bounds the number of blocks; the last block is the one that leaves nothing over.
def absorb : (blocks : Nat) → Array UInt64 → List UInt8 → (total : Nat) → Array UInt64
  | 0, state, bytes, total => compress state bytes (total + bytes.length) true
  | n + 1, state, bytes, total =>
    if bytes.length ≤ 128 then compress state bytes (total + bytes.length) true
    else absorb n (compress state (bytes.take 128) (total + 128) false) (bytes.drop 128) (total + 128)

/-- Four bytes in hexadecimal. -/
def ofText (t : Text) : Text :=
  let bytes := t.toUtf8
  let seeded := initialState.setIfInBounds 0 (initialState.getD 0 0 ^^^ 0x01010004)
  let word := ((absorb (bytes.length / 128) seeded bytes 0).getD 0 0).toNat
  [1, 256, 65536, 16777216].flatMap fun weight => Text.ofHex 2 (word / weight % 256)

end Digest

end LightMarkup
