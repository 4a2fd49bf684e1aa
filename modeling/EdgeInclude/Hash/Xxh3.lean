import EdgeInclude.Text.Basic

/-!
# The hash XXH3 with 64 bits

`Xxh3.hash` is the hash of a byte string for the seed zero. Short inputs are read whole, in
overlapping words; inputs of more than 240 bytes go through eight lanes, a stripe of 64 bytes at
a time. Words are read with the low byte first.
-/

namespace EdgeInclude.Xxh3

/-! ## 1. Constants -/

def prime32a : UInt64 := 0x9E3779B1
def prime32b : UInt64 := 0x85EBCA77
def prime32c : UInt64 := 0xC2B2AE3D
def prime64a : UInt64 := 0x9E3779B185EBCA87
def prime64b : UInt64 := 0xC2B2AE3D27D4EB4F
def prime64c : UInt64 := 0x165667B19E3779F9
def prime64d : UInt64 := 0x85EBCA77C2B2AE63
def prime64e : UInt64 := 0x27D4EB2F165667C5
def mixPrimeA : UInt64 := 0x165667919E3779F9
def mixPrimeB : UInt64 := 0x9FB21C651E98DF25

/-- The bytes that inputs are mixed with. -/
def secret : Array UInt8 := #[
  0xb8, 0xfe, 0x6c, 0x39, 0x23, 0xa4, 0x4b, 0xbe, 0x7c, 0x01, 0x81, 0x2c, 0xf7, 0x21, 0xad, 0x1c,
  0xde, 0xd4, 0x6d, 0xe9, 0x83, 0x90, 0x97, 0xdb, 0x72, 0x40, 0xa4, 0xa4, 0xb7, 0xb3, 0x67, 0x1f,
  0xcb, 0x79, 0xe6, 0x4e, 0xcc, 0xc0, 0xe5, 0x78, 0x82, 0x5a, 0xd0, 0x7d, 0xcc, 0xff, 0x72, 0x21,
  0xb8, 0x08, 0x46, 0x74, 0xf7, 0x43, 0x24, 0x8e, 0xe0, 0x35, 0x90, 0xe6, 0x81, 0x3a, 0x26, 0x4c,
  0x3c, 0x28, 0x52, 0xbb, 0x91, 0xc3, 0x00, 0xcb, 0x88, 0xd0, 0x65, 0x8b, 0x1b, 0x53, 0x2e, 0xa3,
  0x71, 0x64, 0x48, 0x97, 0xa2, 0x0d, 0xf9, 0x4e, 0x38, 0x19, 0xef, 0x46, 0xa9, 0xde, 0xac, 0xd8,
  0xa8, 0xfa, 0x76, 0x3f, 0xe3, 0x9c, 0x34, 0x3f, 0xf9, 0xdc, 0xbb, 0xc7, 0xc7, 0x0b, 0x4f, 0x1d,
  0x8a, 0x51, 0xe0, 0x4b, 0xcd, 0xb4, 0x59, 0x31, 0xc8, 0x9f, 0x7e, 0xc9, 0xd9, 0x78, 0x73, 0x64,
  0xea, 0xc5, 0xac, 0x83, 0x34, 0xd3, 0xeb, 0xc3, 0xc5, 0x81, 0xa0, 0xff, 0xfa, 0x13, 0x63, 0xeb,
  0x17, 0x0d, 0xdd, 0x51, 0xb7, 0xf0, 0xda, 0x49, 0xd3, 0x16, 0x55, 0x26, 0x29, 0xd4, 0x68, 0x9e,
  0x2b, 0x16, 0xbe, 0x58, 0x7d, 0x47, 0xa1, 0xfc, 0x8f, 0xf8, 0xb8, 0xd1, 0x7a, 0xd0, 0x31, 0xce,
  0x45, 0xcb, 0x3a, 0x8f, 0x95, 0x16, 0x04, 0x28, 0xaf, 0xd7, 0xfb, 0xca, 0xbb, 0x4b, 0x40, 0x7e]

/-! ## 2. Words -/

/-- The number of `n` bytes from an offset on, the low byte first. -/
def readLow (s : Array UInt8) (offset : Nat) : Nat → UInt64
  | 0 => 0
  | n + 1 => (readLow s (offset + 1) n <<< 8) ||| ((s[offset]?).getD 0).toUInt64

/-- A word of 32 bits. -/
def read32 (s : Array UInt8) (offset : Nat) : UInt64 := readLow s offset 4

/-- A word of 64 bits. -/
def read64 (s : Array UInt8) (offset : Nat) : UInt64 := readLow s offset 8

/-- The bits of a word, moved round by `n` places. -/
def rotate (x : UInt64) (n : UInt64) : UInt64 := (x <<< n) ||| (x >>> (64 - n))

/-- The bytes of a word in the opposite order. -/
def swapBytes (x : UInt64) : UInt64 :=
  (List.range 8).foldl (fun r i => (r <<< 8) ||| ((x >>> (8 * UInt64.ofNat i)) &&& 0xFF)) 0

/-- Both halves of a product of 128 bits, combined. -/
def foldProduct (x y : UInt64) : UInt64 :=
  let p := x.toNat * y.toNat
  UInt64.ofNat p ^^^ UInt64.ofNat (p >>> 64)

/-! ## 3. Final mixing -/

/-- The mixing after inputs of up to three bytes. -/
def avalancheShort (h : UInt64) : UInt64 :=
  let h := (h ^^^ (h >>> 33)) * prime64b
  let h := (h ^^^ (h >>> 29)) * prime64c
  h ^^^ (h >>> 32)

/-- The mixing after longer inputs. -/
def avalanche (h : UInt64) : UInt64 :=
  let h := (h ^^^ (h >>> 37)) * mixPrimeA
  h ^^^ (h >>> 32)

/-- The mixing after inputs of four to eight bytes. -/
def avalancheWord (h length : UInt64) : UInt64 :=
  let h := (h ^^^ rotate h 49 ^^^ rotate h 24) * mixPrimeB
  let h := (h ^^^ ((h >>> 35) + length)) * mixPrimeB
  h ^^^ (h >>> 28)

/-! ## 4. Inputs of up to 240 bytes -/

/-- Sixteen bytes of the input, mixed with sixteen bytes of the secret. -/
def mix16 (s : Array UInt8) (offset key : Nat) : UInt64 :=
  foldProduct (read64 s offset ^^^ read64 secret key)
    (read64 s (offset + 8) ^^^ read64 secret (key + 8))

/-- The hash of an input of up to sixteen bytes. -/
def hashSmall (s : Array UInt8) : UInt64 :=
  let n := s.size
  let length := UInt64.ofNat n
  if 8 < n then
    let low := read64 s 0 ^^^ (read64 secret 24 ^^^ read64 secret 32)
    let high := read64 s (n - 8) ^^^ (read64 secret 40 ^^^ read64 secret 48)
    avalanche (length + swapBytes low + high + foldProduct low high)
  else if 4 ≤ n then
    let word := read32 s (n - 4) + (read32 s 0 <<< 32)
    avalancheWord (word ^^^ (read64 secret 8 ^^^ read64 secret 16)) length
  else if 0 < n then
    let byte := fun i => readLow s i 1
    let word := (byte 0 <<< 16) ||| (byte (n / 2) <<< 24) ||| byte (n - 1) ||| (length <<< 8)
    avalancheShort (word ^^^ (read32 secret 0 ^^^ read32 secret 4))
  else avalancheShort (read64 secret 56 ^^^ read64 secret 64)

/-- The hash of an input of 17 to 128 bytes, read from both ends. -/
def hashMedium (s : Array UInt8) : UInt64 :=
  let n := s.size
  let pairs := (n - 1) / 32
  avalanche <| (List.range (pairs + 1)).foldl
    (fun h i => h + mix16 s (16 * i) (32 * i) + mix16 s (n - 16 * (i + 1)) (32 * i + 16))
    (UInt64.ofNat n * prime64a)

/-- The hash of an input of 129 to 240 bytes. -/
def hashLarge (s : Array UInt8) : UInt64 :=
  let n := s.size
  let first := (List.range 8).foldl (fun h i => h + mix16 s (16 * i) (16 * i))
    (UInt64.ofNat n * prime64a)
  let rest := (List.range (n / 16 - 8)).foldl
    (fun h i => h + mix16 s (16 * (i + 8)) (16 * i + 3)) (avalanche first)
  avalanche (rest + mix16 s (n - 16) 119)

/-! ## 5. Long inputs -/

/-- The lanes before the first stripe. -/
def lanes : Array UInt64 :=
  #[prime32c, prime64a, prime64b, prime64c, prime64d, prime32b, prime64e, prime32a]

/-- Takes in one stripe. -/
def stripe (s : Array UInt8) (offset key : Nat) (acc : Array UInt64) : Array UInt64 :=
  (List.range 8).foldl (fun acc i =>
    let v : UInt64 := read64 s (offset + 8 * i)
    let k : UInt64 := v ^^^ read64 secret (key + 8 * i)
    let neighbour := if i % 2 == 0 then i + 1 else i - 1
    let product : UInt64 := (k &&& (0xFFFFFFFF : UInt64)) * (k >>> 32)
    (acc.modify neighbour (· + v)).modify i (· + product)) acc

/-- Mixes the lanes at the end of a block. -/
def scramble (acc : Array UInt64) : Array UInt64 :=
  acc.mapIdx fun i (a : UInt64) => (a ^^^ (a >>> 47) ^^^ read64 secret (128 + 8 * i)) * prime32a

/-- The number of stripes in a block. -/
def blockStripes : Nat := 16

/-- The hash of an input of more than 240 bytes. -/
def hashLong (s : Array UInt8) : UInt64 :=
  let n := s.size
  -- the last stripe is taken in on its own, with the end of the secret
  let acc := (List.range ((n - 1) / 64)).foldl (fun acc i =>
    let acc := stripe s (64 * i) (8 * (i % blockStripes)) acc
    if i % blockStripes + 1 == blockStripes then scramble acc else acc) lanes
  let acc := stripe s (n - 64) 121 acc
  let lane : Nat → UInt64 := fun i => (acc[i]?).getD 0
  avalanche <| (List.range 4).foldl (fun h i =>
    h + foldProduct (lane (2 * i) ^^^ read64 secret (11 + 16 * i))
      (lane (2 * i + 1) ^^^ read64 secret (19 + 16 * i))) (UInt64.ofNat n * prime64a)

/-- The hash of a byte string. -/
def hash (s : Bytes) : UInt64 :=
  let s := s.toArray
  if s.size ≤ 16 then hashSmall s
  else if s.size ≤ 128 then hashMedium s
  else if s.size ≤ 240 then hashLarge s
  else hashLong s

end EdgeInclude.Xxh3
