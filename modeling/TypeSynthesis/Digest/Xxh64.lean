/-!
# The 64-bit xxHash digest

XXH64 of a byte string under a seed.  The digest reads 32-byte stripes into four
lanes, then the rest in words of eight, four and one bytes, and ends with an
avalanche that spreads every input bit over the whole word.

* `word`: little-endian reading of a few bytes;
* `Lanes`, `Lanes.absorb`, `Lanes.merge`: the striped part;
* `absorbTail`, `avalanche`: the rest;
* `xxh64`: the digest of a byte string, `xxh64Text` of the UTF-8 form of a text.

All arithmetic is modulo `2 ^ 64`.
-/

namespace TypeSynthesis.Digest

/-- The first of the five odd multipliers. -/
def prime₁ : UInt64 := 0x9E3779B185EBCA87

/-- The second multiplier. -/
def prime₂ : UInt64 := 0xC2B2AE3D27D4EB4F

/-- The third multiplier. -/
def prime₃ : UInt64 := 0x165667B19E3779F9

/-- The fourth multiplier. -/
def prime₄ : UInt64 := 0x85EBCA77C2B2AE63

/-- The fifth multiplier. -/
def prime₅ : UInt64 := 0x27D4EB2F165667C5

/-- Rotate a word to the left by `k` places, `0 < k < 64`. -/
def rotateLeft (x k : UInt64) : UInt64 := (x <<< k) ||| (x >>> (64 - k))

/-- The little-endian value of the bytes. -/
def word (bytes : List UInt8) : UInt64 :=
  bytes.foldr (fun b acc => acc * 256 + b.toUInt64) 0

/-- Mix one eight-byte word into a lane. -/
def mixLane (lane input : UInt64) : UInt64 :=
  rotateLeft (lane + input * prime₂) 31 * prime₁

/-- The four lanes of the striped part. -/
structure Lanes where
  a : UInt64
  b : UInt64
  c : UInt64
  d : UInt64
  deriving DecidableEq

/-- The lanes before any stripe. -/
def Lanes.start (seed : UInt64) : Lanes :=
  ⟨seed + prime₁ + prime₂, seed + prime₂, seed, seed - prime₁⟩

/-- Absorb the first 32 bytes of a byte string. -/
def Lanes.absorb (l : Lanes) (bytes : List UInt8) : Lanes :=
  { a := mixLane l.a (word (bytes.take 8))
    b := mixLane l.b (word ((bytes.drop 8).take 8))
    c := mixLane l.c (word ((bytes.drop 16).take 8))
    d := mixLane l.d (word ((bytes.drop 24).take 8)) }

/-- Absorb as many whole stripes as the byte string has, at most `n`. -/
def Lanes.absorbStripes : Nat → Lanes → List UInt8 → Lanes
  | 0, l, _ => l
  | n + 1, l, bytes => Lanes.absorbStripes n (l.absorb bytes) (bytes.drop 32)

/-- Fold one lane into the accumulator. -/
def mergeLane (acc lane : UInt64) : UInt64 := (acc ^^^ mixLane 0 lane) * prime₁ + prime₄

/-- The accumulator after the striped part. -/
def Lanes.merge (l : Lanes) : UInt64 :=
  let acc := rotateLeft l.a 1 + rotateLeft l.b 7 + rotateLeft l.c 12 + rotateLeft l.d 18
  mergeLane (mergeLane (mergeLane (mergeLane acc l.a) l.b) l.c) l.d

/-- Absorb one eight-byte word of the rest. -/
def absorbEight (acc input : UInt64) : UInt64 :=
  rotateLeft (acc ^^^ mixLane 0 input) 27 * prime₁ + prime₄

/-- Absorb one four-byte word of the rest. -/
def absorbFour (acc input : UInt64) : UInt64 :=
  rotateLeft (acc ^^^ (input * prime₁)) 23 * prime₂ + prime₃

/-- Absorb one byte of the rest. -/
def absorbByte (acc : UInt64) (b : UInt8) : UInt64 :=
  rotateLeft (acc ^^^ (b.toUInt64 * prime₅)) 11 * prime₁

/-- Absorb the rest: whole words of eight, one word of four, single bytes.  `fuel` bounds the
number of words of eight. -/
def absorbTail : Nat → UInt64 → List UInt8 → UInt64
  | 0, acc, bytes => bytes.foldl absorbByte acc
  | fuel + 1, acc, bytes =>
    if 8 ≤ bytes.length then
      absorbTail fuel (absorbEight acc (word (bytes.take 8))) (bytes.drop 8)
    else if 4 ≤ bytes.length then
      (bytes.drop 4).foldl absorbByte (absorbFour acc (word (bytes.take 4)))
    else
      bytes.foldl absorbByte acc

/-- Spread every bit over the whole word. -/
def avalanche (acc : UInt64) : UInt64 :=
  let acc := (acc ^^^ (acc >>> 33)) * prime₂
  let acc := (acc ^^^ (acc >>> 29)) * prime₃
  acc ^^^ (acc >>> 32)

/-- The digest of a byte string under a seed. -/
def xxh64 (seed : UInt64) (bytes : List UInt8) : UInt64 :=
  let size := bytes.length
  let stripes := size / 32
  let acc := if stripes = 0 then seed + prime₅
    else (Lanes.absorbStripes stripes (Lanes.start seed) bytes).merge
  avalanche (absorbTail 4 (acc + UInt64.ofNat size) (bytes.drop (32 * stripes)))

/-- The digest of the UTF-8 form of a text under a seed. -/
def xxh64Text (seed : UInt64) (s : String) : UInt64 :=
  xxh64 seed (s.toList.flatMap String.utf8EncodeChar)

/-- The published digest of the empty string. -/
example : xxh64 0 [] = 0xEF46DB3751D8E999 := by decide

end TypeSynthesis.Digest
