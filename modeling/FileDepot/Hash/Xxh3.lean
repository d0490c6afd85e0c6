import FileDepot.Bytes

/-!
# XXH3

The 64-bit XXH3 hash of a byte string, unseeded. Short inputs are read in overlapping pieces by
length class; inputs over 240 bytes are accumulated in eight lanes, stripe by stripe.
-/

namespace FileDepot.Xxh3

def prime32a : UInt64 := 0x9E3779B1
def prime32b : UInt64 := 0x85EBCA77
def prime32c : UInt64 := 0xC2B2AE3D
def prime64a : UInt64 := 0x9E3779B185EBCA87
def prime64b : UInt64 := 0xC2B2AE3D27D4EB4F
def prime64c : UInt64 := 0x165667B19E3779F9
def prime64d : UInt64 := 0x85EBCA77C2B2AE63
def prime64e : UInt64 := 0x27D4EB2F165667C5

/-- The key material that is mixed into every input. -/
def secret : Array UInt8 :=
  #[0xb8, 0xfe, 0x6c, 0x39, 0x23, 0xa4, 0x4b, 0xbe, 0x7c, 0x01, 0x81, 0x2c, 0xf7, 0x21, 0xad, 0x1c,
    0xde, 0xd4, 0x6d, 0xe9, 0x83, 0x90, 0x97, 0xdb, 0x72, 0x40, 0xa4, 0xa4, 0xb7, 0xb3, 0x67, 0x1f,
    0xcb, 0x79, 0xe6, 0x4e, 0xcc, 0xc0, 0xe5, 0x78, 0x82, 0x5a, 0xd0, 0x7d, 0xcc, 0xff, 0x72, 0x21,
    0xb8, 0x08, 0x46, 0x74, 0xf7, 0x43, 0x24, 0x8e, 0xe0, 0x35, 0x90, 0xe6, 0x81, 0x3a, 0x26, 0x4c,
    0x3c, 0x28, 0x52, 0xbb, 0x91, 0xc3, 0x00, 0xcb, 0x88, 0xd0, 0x65, 0x8b, 0x1b, 0x53, 0x2e, 0xa3,
    0x71, 0x64, 0x48, 0x97, 0xa2, 0x0d, 0xf9, 0x4e, 0x38, 0x19, 0xef, 0x46, 0xa9, 0xde, 0xac, 0xd8,
    0xa8, 0xfa, 0x76, 0x3f, 0xe3, 0x9c, 0x34, 0x3f, 0xf9, 0xdc, 0xbb, 0xc7, 0xc7, 0x0b, 0x4f, 0x1d,
    0x8a, 0x51, 0xe0, 0x4b, 0xcd, 0xb4, 0x59, 0x31, 0xc8, 0x9f, 0x7e, 0xc9, 0xd9, 0x78, 0x73, 0x64,
    0xea, 0xc5, 0xac, 0x83, 0x34, 0xd3, 0xeb, 0xc3, 0xc5, 0x81, 0xa0, 0xff, 0xfa, 0x13, 0x63, 0xeb,
    0x17, 0x0d, 0xdd, 0x51, 0xb7, 0xf0, 0xda, 0x49, 0xd3, 0x16, 0x55, 0x26, 0x29, 0xd4, 0x68, 0x9e,
    0x2b, 0x16, 0xbe, 0x58, 0x7d, 0x47, 0xa1, 0xfc, 0x8f, 0xf8, 0xb8, 0xd1, 0x7a, 0xd0, 0x31, 0xce,
    0x45, 0xcb, 0x3a, 0x8f, 0x95, 0x16, 0x04, 0x28, 0xaf, 0xd7, 0xfb, 0xca, 0xbb, 0x4b, 0x40, 0x7e]

/-- The number of key bytes in use. -/
def secretSize : Nat := 192

/-- The little-endian number in `width` bytes from `offset` on. -/
def readLE (width : Nat) (data : Array UInt8) (offset : Nat) : UInt64 :=
  (List.range width).foldr
    (fun i n => (n <<< 8) ||| (data.getD (offset + i) 0).toUInt64) 0

/-- The little-endian 32-bit number at an offset. -/
def read32 : Array UInt8 → Nat → UInt64 := readLE 4

/-- The little-endian 64-bit number at an offset. -/
def read64 : Array UInt8 → Nat → UInt64 := readLE 8

/-- The exclusive or of two key words. -/
def keyPair (i j : Nat) : UInt64 :=
  read64 secret i ^^^ read64 secret j

/-- Rotation to the left. -/
def rotate (x n : UInt64) : UInt64 :=
  (x <<< n) ||| (x >>> (64 - n))

/-- Reverses the bytes of a word. -/
def swapBytes (x : UInt64) : UInt64 :=
  (List.range 8).foldl (fun n i => (n <<< 8) ||| ((x >>> (8 * UInt64.ofNat i)) &&& 0xFF)) 0

/-- The two halves of the 128-bit product, folded by exclusive or. -/
def foldedProduct (x y : UInt64) : UInt64 :=
  let p := x.toNat * y.toNat
  UInt64.ofNat p ^^^ UInt64.ofNat (p / UInt64.size)

/-- The finaliser for inputs of at most three bytes. -/
def finishTiny (h : UInt64) : UInt64 :=
  let h := (h ^^^ (h >>> 33)) * prime64b
  let h := (h ^^^ (h >>> 29)) * prime64c
  h ^^^ (h >>> 32)

/-- The finaliser for four to eight bytes. -/
def finishWord (h length : UInt64) : UInt64 :=
  let h := h ^^^ rotate h 49 ^^^ rotate h 24
  let h := h * 0x9FB21C651E98DF25
  let h := h ^^^ ((h >>> 35) + length)
  let h := h * 0x9FB21C651E98DF25
  h ^^^ (h >>> 28)

/-- The finaliser for all longer inputs. -/
def finish (h : UInt64) : UInt64 :=
  let h := (h ^^^ (h >>> 37)) * 0x165667919E3779F9
  h ^^^ (h >>> 32)

/-- Mixes sixteen bytes of input with sixteen bytes of key. -/
def mix16 (data : Array UInt8) (i key : Nat) : UInt64 :=
  foldedProduct (read64 data i ^^^ read64 secret key) (read64 data (i + 8) ^^^ read64 secret (key + 8))

/-- Inputs of one to three bytes. -/
def hashTiny (data : Array UInt8) : UInt64 :=
  let n := data.size
  let first := (data.getD 0 0).toUInt64
  let middle := (data.getD (n / 2) 0).toUInt64
  let last := (data.getD (n - 1) 0).toUInt64
  let combined := (first <<< 16) ||| (middle <<< 24) ||| last ||| (UInt64.ofNat n <<< 8)
  finishTiny (combined ^^^ (read32 secret 0 ^^^ read32 secret 4))

/-- Inputs of four to eight bytes. -/
def hashWord (data : Array UInt8) : UInt64 :=
  let n := data.size
  let input := read32 data (n - 4) + (read32 data 0 <<< 32)
  finishWord (input ^^^ keyPair 8 16) (UInt64.ofNat n)

/-- Inputs of nine to sixteen bytes. -/
def hashPair (data : Array UInt8) : UInt64 :=
  let n := data.size
  let low := read64 data 0 ^^^ keyPair 24 32
  let high := read64 data (n - 8) ^^^ keyPair 40 48
  finish (UInt64.ofNat n + swapBytes low + high + foldedProduct low high)

/-- Inputs of 17 to 128 bytes: sixteen bytes from either end, moving inwards. -/
def hashShort (data : Array UInt8) : UInt64 :=
  let n := data.size
  finish <| (List.range ((n - 1) / 32 + 1)).foldl
    (fun acc i =>
      acc + mix16 data (16 * i) (32 * i) + mix16 data (n - 16 * (i + 1)) (32 * i + 16))
    (UInt64.ofNat n * prime64a)

/-- Inputs of 129 to 240 bytes: sixteen bytes at a time from the front, then the last sixteen. -/
def hashMedium (data : Array UInt8) : UInt64 :=
  let n := data.size
  let head := (List.range 8).foldl (fun acc i => acc + mix16 data (16 * i) (16 * i))
    (UInt64.ofNat n * prime64a)
  let body := (List.range (n / 16 - 8)).foldl
    (fun acc i => acc + mix16 data (16 * (i + 8)) (16 * i + 3)) (finish head)
  finish (body + mix16 data (n - 16) 119)

/-- The eight lanes before the first stripe. -/
def initialLanes : Array UInt64 :=
  #[prime32c, prime64a, prime64b, prime64c, prime64d, prime32b, prime64e, prime32a]

/-- Adds a 64-byte stripe to the lanes. -/
def addStripe (lanes : Array UInt64) (data : Array UInt8) (i key : Nat) : Array UInt64 :=
  (Array.range 8).map fun lane =>
    let own := read64 data (i + 8 * lane)
    let neighbour := read64 data (i + 8 * (if lane % 2 = 0 then lane + 1 else lane - 1))
    let keyed := own ^^^ read64 secret (key + 8 * lane)
    let low : UInt64 := keyed &&& 0xFFFFFFFF
    let high : UInt64 := keyed >>> 32
    lanes.getD lane 0 + neighbour + low * high

/-- Stirs the lanes at the end of a block. -/
def scramble (lanes : Array UInt64) : Array UInt64 :=
  lanes.mapIdx fun lane (acc : UInt64) =>
    (acc ^^^ (acc >>> 47) ^^^ read64 secret (secretSize - 64 + 8 * lane)) * prime32a

/-- Stripes in a block: the key moves on by eight bytes for each. -/
def stripesPerBlock : Nat := (secretSize - 64) / 8

/-- Adds the first `count` stripes of the block at `start`. -/
def addStripes (lanes : Array UInt64) (data : Array UInt8) (start count : Nat) : Array UInt64 :=
  (List.range count).foldl (fun acc s => addStripe acc data (start + 64 * s) (8 * s)) lanes

/-- Inputs over 240 bytes. -/
def hashLong (data : Array UInt8) : UInt64 :=
  let n := data.size
  let block := 64 * stripesPerBlock
  let blocks := (n - 1) / block
  let lanes := (List.range blocks).foldl
    (fun acc b => scramble (addStripes acc data (block * b) stripesPerBlock)) initialLanes
  let lanes := addStripes lanes data (block * blocks) ((n - 1 - block * blocks) / 64)
  let lanes := addStripe lanes data (n - 64) (secretSize - 64 - 7)
  finish <| (List.range 4).foldl
    (fun acc i =>
      acc + foldedProduct (lanes.getD (2 * i) 0 ^^^ read64 secret (11 + 16 * i))
        (lanes.getD (2 * i + 1) 0 ^^^ read64 secret (11 + 16 * i + 8)))
    (UInt64.ofNat n * prime64a)

/-- The hash of a byte string. -/
def hash (bs : Bytes) : UInt64 :=
  let data := bs.toArray
  if data.size = 0 then finishTiny (keyPair 56 64)
  else if data.size ≤ 3 then hashTiny data
  else if data.size ≤ 8 then hashWord data
  else if data.size ≤ 16 then hashPair data
  else if data.size ≤ 128 then hashShort data
  else if data.size ≤ 240 then hashMedium data
  else hashLong data

end FileDepot.Xxh3
