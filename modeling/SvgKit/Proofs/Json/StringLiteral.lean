import SvgKit.Json.Basic
import Mathlib.Data.List.Basic

/-! String literals with the escapes that JSON and JavaScript share. A literal stands for a list of
UTF-16 units; the literal that writes a text in ASCII stands for the units of the text, whatever
follows it.
-/

namespace SvgKit

-----------------------------------------------------------------------------------------
-- UTF-16
-----------------------------------------------------------------------------------------

namespace Text

/-- The UTF-16 units of a character. -/
def charUnits (c : Char) : List Nat :=
  if c.toNat < 0x10000 then [c.toNat]
  else [0xD800 + (c.toNat - 0x10000) / 0x400, 0xDC00 + (c.toNat - 0x10000) % 0x400]

/-- The UTF-16 units of a text. -/
def units (s : Text) : List Nat := s.flatMap charUnits

/-- A character is no surrogate, and lies in the code space. -/
theorem toNat_cases (c : Char)
    : c.toNat < 0xD800 ∨ 0xDFFF < c.toNat ∧ c.toNat < 0x110000 :=
  c.valid

/-- The units of a character are told apart from those of another one, whatever follows: high
surrogates are no characters, and with the low ones they determine the character.
-/
theorem charUnits_append_inj {c d : Char} {front back : List Nat}
    (h : charUnits c ++ front = charUnits d ++ back)
    : c = d ∧ front = back := by
  have hc := toNat_cases c
  have hd := toNat_cases d
  unfold charUnits at h
  split at h <;> split at h
  · obtain ⟨hfirst, hrest⟩ := List.cons.inj h
    exact ⟨Char.toNat_inj.mp hfirst, hrest⟩
  · have hfirst := (List.cons.inj h).1
    omega
  · have hfirst := (List.cons.inj h).1
    omega
  · obtain ⟨hfirst, hrest⟩ := List.cons.inj h
    obtain ⟨hsecond, hrest⟩ := List.cons.inj hrest
    exact ⟨Char.toNat_inj.mp (by omega), hrest⟩

/-- A text is determined by its units, by induction over the text. -/
theorem units_injective : Function.Injective units := by
  intro s t h
  have hne (c : Char) : charUnits c ≠ [] := by
    unfold charUnits
    split <;> simp
  induction s generalizing t with
  | nil =>
      cases t with
      | nil => rfl
      | cons d t => simp [units, hne] at h
  | cons c s ih =>
      cases t with
      | nil => simp [units, hne] at h
      | cons d t =>
          simp only [units, List.flatMap_cons] at h
          obtain ⟨rfl, hrest⟩ := charUnits_append_inj h
          rw [ih hrest]

end Text

namespace Json

-----------------------------------------------------------------------------------------
-- Reading
-----------------------------------------------------------------------------------------

/-- The value of a hexadecimal digit. -/
def hexValue? (c : Char) : Option Nat :=
  if c.isDigit then some (c.toNat - '0'.toNat)
  else if 'a' ≤ c ∧ c ≤ 'f' then some (c.toNat - 'a'.toNat + 10)
  else if 'A' ≤ c ∧ c ≤ 'F' then some (c.toNat - 'A'.toNat + 10)
  else none

/-- The unit that hexadecimal digits write. -/
def hexUnit? (digits : Text) : Option Nat :=
  digits.foldlM (fun n c => (hexValue? c).map (16 * n + ·)) 0

/-- The unit that a single character behind a backslash stands for. -/
def escapedUnit? (c : Char) : Option Nat :=
  if c = '"' || c = '\\' || c = '/' then some c.toNat
  else if c = 'b' then some 8
  else if c = 't' then some 9
  else if c = 'n' then some 10
  else if c = 'f' then some 12
  else if c = 'r' then some 13
  else none

/-- A unit in front of those that are read. -/
def consUnit (unit : Nat) (found : List Nat × Text) : List Nat × Text :=
  (unit :: found.1, found.2)

/-- Reads the units of a literal behind its opening quote, and what follows the closing one. -/
def readUnits? : Text → Option (List Nat × Text)
  | [] => none
  | '"' :: s => some ([], s)
  | '\\' :: 'u' :: a :: b :: c :: d :: s =>
    (hexUnit? [a, b, c, d]).bind fun unit => (readUnits? s).map (consUnit unit)
  | '\\' :: c :: s => (escapedUnit? c).bind fun unit => (readUnits? s).map (consUnit unit)
  | c :: s =>
    if c = '\\' || c = '\n' || c = '\r' then none
    else (readUnits? s).map fun found => (Text.charUnits c ++ found.1, found.2)

/-- Reads the units of the string literal at the head of a text, and what follows it. -/
def readString? (s : Text) : Option (List Nat × Text) :=
  match s with
  | '"' :: s => readUnits? s
  | _ => none

-----------------------------------------------------------------------------------------
-- Hexadecimal digits
-----------------------------------------------------------------------------------------

/-- A unit in four digits. -/
theorem hex_four {n : Nat} (hn : n < 0x10000)
    : Text.hex 4 n = [Nat.digitChar (n / 4096), Nat.digitChar (n / 256 % 16),
      Nat.digitChar (n / 16 % 16), Nat.digitChar (n % 16)] := by
  have hzero : '0' = Nat.digitChar 0 := rfl
  unfold Text.hex
  rw [Nat.toDigits_eq_if (by decide)]
  split
  · next hsmall =>
      have h1 : n / 4096 = 0 := by omega
      have h2 : n / 256 % 16 = 0 := by omega
      have h3 : n / 16 % 16 = 0 := by omega
      have h4 : n % 16 = n := by omega
      rw [h1, h2, h3, h4, hzero]
      rfl
  · rw [Nat.toDigits_eq_if (by decide)]
    split
    · next hsmall =>
        have h1 : n / 4096 = 0 := by omega
        have h2 : n / 256 % 16 = 0 := by omega
        have h3 : n / 16 % 16 = n / 16 := by omega
        rw [h1, h2, h3, hzero]
        rfl
    · rw [Nat.toDigits_eq_if (by decide), Nat.div_div_eq_div_mul]
      split
      · next hsmall =>
          have h1 : n / 4096 = 0 := by omega
          have h2 : n / 256 % 16 = n / 256 := by omega
          rw [h1, h2, hzero]
          rfl
      · rw [Nat.toDigits_of_lt_base (by omega), Nat.div_div_eq_div_mul]
        rfl

theorem hexValue?_digitChar {d : Nat} (hd : d < 16) : hexValue? (Nat.digitChar d) = some d := by
  have hall : ∀ d < 16, hexValue? (Nat.digitChar d) = some d := by decide
  exact hall d hd

theorem hexUnit?_hex {n : Nat} (hn : n < 0x10000) : hexUnit? (Text.hex 4 n) = some n := by
  have hdigits
      : [n / 4096, n / 256 % 16, n / 16 % 16, n % 16].map (fun d => hexValue? (Nat.digitChar d))
      = [some (n / 4096), some (n / 256 % 16), some (n / 16 % 16), some (n % 16)] := by
    simp only [List.map_cons, List.map_nil]
    rw [hexValue?_digitChar (by omega), hexValue?_digitChar (by omega),
      hexValue?_digitChar (by omega), hexValue?_digitChar (by omega)]
  simp only [List.map_cons, List.map_nil, List.cons.injEq, and_true] at hdigits
  obtain ⟨h1, h2, h3, h4⟩ := hdigits
  rw [hex_four hn, hexUnit?]
  simp only [List.foldlM_cons, List.foldlM_nil, h1, h2, h3, h4, Option.map_some,
    Option.bind_eq_bind, Option.bind_some, Option.pure_def, Option.some.injEq]
  omega

-----------------------------------------------------------------------------------------
-- Written literals
-----------------------------------------------------------------------------------------

theorem readUnits?_plain {c : Char} (hc : c ≠ '"' ∧ c ≠ '\\' ∧ c ≠ '\n' ∧ c ≠ '\r') (s : Text)
    : readUnits? (c :: s)
      = (readUnits? s).map fun found => (Text.charUnits c ++ found.1, found.2) := by
  rw [readUnits?, if_neg (by simp [hc])]
  · exact hc.1
  · simp [hc.2.1]
  · simp [hc.2.1]

theorem readUnits?_unitEscape {n : Nat} (hn : n < 0x10000) (s : Text)
    : readUnits? (unitEscape n ++ s) = (readUnits? s).map (consUnit n) := by
  have hunit := hexUnit?_hex hn
  rw [hex_four hn] at hunit
  rw [unitEscape, hex_four hn]
  simp only [List.cons_append, List.nil_append]
  rw [readUnits?]
  simp [hunit]

/-- A written character is read as its units. -/
theorem readUnits?_asciiChar (c : Char) (s : Text)
    : readUnits? (asciiChar c ++ s)
      = (readUnits? s).map fun found => (Text.charUnits c ++ found.1, found.2) := by
  have hvalid := Text.toNat_cases c
  unfold asciiChar
  split
  · next escape hescape =>
      unfold shortEscape? at hescape
      repeat' split at hescape
      all_goals
        cases hescape
        try subst c
        try rfl
  · next hnone =>
      have hplain : c ≠ '"' ∧ c ≠ '\\' ∧ c ≠ '\n' ∧ c ≠ '\r' := by
        refine ⟨?_, ?_, ?_, ?_⟩ <;>
        · rintro rfl
          cases hnone
      split
      · next hrange =>
          have hsmall : c.toNat < 0x10000 := by
            simp only [Bool.and_eq_true, decide_eq_true_eq] at hrange
            omega
          rw [List.singleton_append, readUnits?_plain hplain, Text.charUnits, if_pos hsmall]
      · unfold unitsEscape Text.charUnits
        split
        · next hsmall => exact readUnits?_unitEscape hsmall s
        · dsimp only
          rw [List.append_assoc, readUnits?_unitEscape (by omega), readUnits?_unitEscape (by omega),
            Option.map_map]
          rfl

/-- A written literal stands for the units of its text, by induction over the text. -/
theorem readString?_asciiString (s rest : Text)
    : readString? (asciiString s ++ rest) = some (s.units, rest) := by
  have hbody : readUnits? (s.flatMap asciiChar ++ '"' :: rest) = some (s.units, rest) := by
    induction s with
    | nil => rfl
    | cons c s ih =>
        rw [List.flatMap_cons, List.append_assoc, readUnits?_asciiChar, ih]
        simp [Text.units]
  rw [asciiString, List.cons_append, List.cons_append, readString?, List.append_assoc]
  exact hbody

/-- Written literals with something behind them are equal part by part. -/
theorem asciiString_append_inj {s t front back : Text}
    (h : asciiString s ++ front = asciiString t ++ back)
    : s = t ∧ front = back := by
  have hread := congrArg readString? h
  rw [readString?_asciiString, readString?_asciiString, Option.some.injEq, Prod.mk.injEq] at hread
  exact ⟨Text.units_injective hread.1, hread.2⟩

end Json

end SvgKit
