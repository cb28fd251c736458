import SvgKit.Text.Quoted
import SvgKit.Text.Utf8

/-! The SHA-256 digest of bytes. -/

namespace SvgKit.Sha256

/-- The first 32 bits of the fractional parts of the cube roots of the first 64 primes, by
rows of sixteen.
-/
def roundRows : List (List UInt32) :=
  [ [ 0x428a2f98, 0x71374491, 0xb5c0fbcf, 0xe9b5dba5, 0x3956c25b, 0x59f111f1, 0x923f82a4,
      0xab1c5ed5, 0xd807aa98, 0x12835b01, 0x243185be, 0x550c7dc3, 0x72be5d74, 0x80deb1fe,
      0x9bdc06a7, 0xc19bf174 ],
    [ 0xe49b69c1, 0xefbe4786, 0x0fc19dc6, 0x240ca1cc, 0x2de92c6f, 0x4a7484aa, 0x5cb0a9dc,
      0x76f988da, 0x983e5152, 0xa831c66d, 0xb00327c8, 0xbf597fc7, 0xc6e00bf3, 0xd5a79147,
      0x06ca6351, 0x14292967 ],
    [ 0x27b70a85, 0x2e1b2138, 0x4d2c6dfc, 0x53380d13, 0x650a7354, 0x766a0abb, 0x81c2c92e,
      0x92722c85, 0xa2bfe8a1, 0xa81a664b, 0xc24b8b70, 0xc76c51a3, 0xd192e819, 0xd6990624,
      0xf40e3585, 0x106aa070 ],
    [ 0x19a4c116, 0x1e376c08, 0x2748774c, 0x34b0bcb5, 0x391c0cb3, 0x4ed8aa4a, 0x5b9cca4f,
      0x682e6ff3, 0x748f82ee, 0x78a5636f, 0x84c87814, 0x8cc70208, 0x90befffa, 0xa4506ceb,
      0xbef9a3f7, 0xc67178f2 ] ]

/-- The constants of the rounds. -/
def roundConstants : List UInt32 := roundRows.flatten

/-- The eight words of the state. -/
structure State where
  a : UInt32
  b : UInt32
  c : UInt32
  d : UInt32
  e : UInt32
  f : UInt32
  g : UInt32
  h : UInt32
  deriving Repr, DecidableEq

/-- The first 32 bits of the fractional parts of the square roots of the first eight primes. -/
def State.start : State :=
  ⟨0x6a09e667, 0xbb67ae85, 0x3c6ef372, 0xa54ff53a, 0x510e527f, 0x9b05688c, 0x1f83d9ab,
    0x5be0cd19⟩

/-- The words of the state in order. -/
def State.words (s : State) : List UInt32 := [s.a, s.b, s.c, s.d, s.e, s.f, s.g, s.h]

/-- Adds two states word by word. -/
def State.add (s t : State) : State :=
  ⟨s.a + t.a, s.b + t.b, s.c + t.c, s.d + t.d, s.e + t.e, s.f + t.f, s.g + t.g, s.h + t.h⟩

/-- Rotates a word to the right by fewer than 32 bits. -/
def rotate (x : UInt32) (n : UInt32) : UInt32 := (x >>> n) ||| (x <<< (32 - n))

/-- One round with a constant and a word of the schedule. -/
def State.round (s : State) (constant word : UInt32) : State :=
  let s1 := rotate s.e 6 ^^^ rotate s.e 11 ^^^ rotate s.e 25
  let choice := (s.e &&& s.f) ^^^ (~~~s.e &&& s.g)
  let t1 := s.h + s1 + choice + constant + word
  let s0 := rotate s.a 2 ^^^ rotate s.a 13 ^^^ rotate s.a 22
  let majority := (s.a &&& s.b) ^^^ (s.a &&& s.c) ^^^ (s.b &&& s.c)
  ⟨t1 + s0 + majority, s.a, s.b, s.c, s.d + t1, s.e, s.f, s.g⟩

/-- Four bytes as a word, the highest first. -/
def wordAt (block : Array UInt8) (i : Nat) : UInt32 :=
  let byte (k : Nat) := (block.getD (4 * i + k) 0).toUInt32
  (byte 0 <<< 24) ||| (byte 1 <<< 16) ||| (byte 2 <<< 8) ||| byte 3

/-- The next word of a schedule. -/
def nextWord (w : Array UInt32) : UInt32 :=
  let word (back : Nat) := w.getD (w.size - back) 0
  let x := word 15
  let y := word 2
  let s0 := rotate x 7 ^^^ rotate x 18 ^^^ (x >>> 3)
  let s1 := rotate y 17 ^^^ rotate y 19 ^^^ (y >>> 10)
  word 16 + s0 + word 7 + s1

/-- The schedule of a block: its sixteen words, and 48 more. -/
def schedule (block : Array UInt8) : Array UInt32 :=
  let first := (List.range 16).foldl (fun w i => w.push (wordAt block i)) #[]
  (List.range 48).foldl (fun w _ => w.push (nextWord w)) first

/-- The state after a block of 64 bytes. -/
def State.compress (s : State) (block : Array UInt8) : State :=
  s.add
    ((roundConstants.zip (schedule block).toList).foldl (fun s (k, w) => s.round k w) s)

/-- A state and the bytes of a block that is not yet full. -/
structure Progress where
  state : State
  block : Array UInt8

/-- Takes in a byte, and the block once it is full. -/
def Progress.take (p : Progress) (b : UInt8) : Progress :=
  let block := p.block.push b
  if block.size = 64 then ⟨p.state.compress block, #[]⟩ else ⟨p.state, block⟩

/-- A number in bytes, the highest first. -/
def bigEndian (count n : Nat) : List UInt8 :=
  (List.range count).map fun i => UInt8.ofNat (n / Nat.pow 256 (count - 1 - i))

/-- What is appended to a message of `n` bytes: a one bit, zeros and the number of bits. -/
def padding (n : Nat) : List UInt8 :=
  0x80 :: List.replicate ((119 - n % 64) % 64) 0 ++ bigEndian 8 (8 * n)

/-- The digest of a message in 64 hexadecimal digits. -/
def hexDigest (message : List UInt8) : Text :=
  let done :=
    (padding message.length).foldl Progress.take (message.foldl Progress.take ⟨.start, #[]⟩)
  done.state.words.flatMap fun word => Text.hex 8 word.toNat

end SvgKit.Sha256
