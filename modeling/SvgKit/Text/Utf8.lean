import SvgKit.Text.Quoted

/-! UTF-8 sizes, encoding and decoding. Decoding names the first bytes that are no character
and says why.
-/

namespace SvgKit.Text

/-- The number of bytes of a text in UTF-8. -/
def utf8Size (s : Text) : Nat := s.foldl (fun n c => n + c.utf8Size) 0

/-- The bytes of a text in UTF-8. -/
def utf8Bytes (s : Text) : List UInt8 := s.flatMap String.utf8EncodeChar

/-- Why bytes are no character. -/
inductive Utf8Reason where
  | start
  | continuation
  | ended
  deriving Repr, DecidableEq

/-- The wording of the reason. -/
def Utf8Reason.message : Utf8Reason → Text
  | .start => "invalid start byte"
  | .continuation => "invalid continuation byte"
  | .ended => "unexpected end of data"

/-- Bytes at a position, `count` of them, that are no character. -/
structure Utf8Fault where
  position : Nat
  count : Nat
  byte : UInt8
  reason : Utf8Reason
  deriving Repr, DecidableEq

/-- The wording of the fault; a single byte is shown. -/
def Utf8Fault.message (f : Utf8Fault) : Text :=
  let place : Text :=
    if f.count = 1 then
      "byte 0x" ++ hex 2 f.byte.toNat ++ " in position " ++ ofNat f.position
    else
      "bytes in position " ++ ofNat f.position ++ "-" ++ ofNat (f.position + f.count - 1)
  "'utf-8' codec can't decode " ++ place ++ ": " ++ f.reason.message

/-- A byte that continues a character. -/
def isContinuation (b : UInt8) : Bool := 0x80 ≤ b && b < 0xC0

/-- The second byte may follow the first: no overlong form, no surrogate, nothing above
U+10FFFF.
-/
def secondFits (first second : UInt8) : Bool :=
  isContinuation second
    && !(first == 0xE0 && second < 0xA0)
    && !(first == 0xED && second ≥ 0xA0)
    && !(first == 0xF0 && second < 0x90)
    && !(first == 0xF4 && second ≥ 0x90)

/-- The character whose bits are in a head and in continuation bytes. -/
def assemble (head : Nat) (following : List UInt8) : Char :=
  Char.ofNat (following.foldl (fun n b => n * 64 + (b.toNat - 0x80)) head)

/-- Reads the bytes of one character at their head: the character and what is left, or the
number of bytes at fault and the reason.
-/
def readUtf8 (first : UInt8) (rest : List UInt8)
    : Except (Nat × Utf8Reason) (Char × List UInt8) :=
  if first < 0x80 then .ok (Char.ofNat first.toNat, rest)
  else if first < 0xC2 || first > 0xF4 then .error (1, .start)
  else
    match rest with
    | [] => .error (1, .ended)
    | b :: rest =>
      if !secondFits first b then .error (1, .continuation)
      else if first < 0xE0 then .ok (assemble (first.toNat - 0xC0) [b], rest)
      else
        match rest with
        | [] => .error (2, .ended)
        | c :: rest =>
          if !isContinuation c then .error (2, .continuation)
          else if first < 0xF0 then .ok (assemble (first.toNat - 0xE0) [b, c], rest)
          else
            match rest with
            | [] => .error (3, .ended)
            | d :: rest =>
              if !isContinuation d then .error (3, .continuation)
              else .ok (assemble (first.toNat - 0xF0) [b, c, d], rest)

/-- What is left after a character is no longer than what followed its first byte. Witness:
every branch that reads a character drops at most three bytes.
-/
theorem length_readUtf8 {first : UInt8} {rest left : List UInt8} {c : Char}
    (h : readUtf8 first rest = .ok (c, left))
    : left.length ≤ rest.length := by
  have ok {x y : Char} {l r : List UInt8}
      (e : (.ok (x, l) : Except (Nat × Utf8Reason) _) = .ok (y, r)) : r = l := by
    cases e; rfl
  simp only [readUtf8] at h
  split at h
  · exact (ok h) ▸ Nat.le_refl _
  split at h
  · cases h
  split at h
  · cases h
  split at h
  · cases h
  split at h
  · exact (ok h) ▸ Nat.le_succ _
  split at h
  · cases h
  split at h
  · cases h
  split at h
  · rw [ok h]; simp only [List.length_cons]; omega
  split at h
  · cases h
  split at h
  · cases h
  · rw [ok h]; simp only [List.length_cons]; omega

/-- Decodes the bytes from a position on, after characters in reverse order. -/
def decodeAfter (done : Text) (position : Nat) : List UInt8 → Except Utf8Fault Text
  | [] => .ok done.reverse
  | first :: rest =>
    match _read : readUtf8 first rest with
    | .ok (c, left) => decodeAfter (c :: done) (position + c.utf8Size) left
    | .error (count, reason) => .error ⟨position, count, first, reason⟩
termination_by bytes => bytes.length
decreasing_by
  have := length_readUtf8 _read
  simp only [List.length_cons]
  omega

/-- The text that the bytes spell in UTF-8. -/
def decodeUtf8 (bytes : List UInt8) : Except Utf8Fault Text := decodeAfter [] 0 bytes

end SvgKit.Text
