import Mathlib
import SvgKit.Component.Jsx
import SvgKit.Proofs.Text.Ascii
import SvgKit.Proofs.Text.Members
import SvgKit.Proofs.Xml.Name

/-! Brackets of tags in attributes that are rewritten for JSX: a name or a value holds one only if
it held it before.
-/

namespace SvgKit

/-- A bracket of a tag. -/
def IsBracket (c : Char) : Prop := c = '<' ∨ c = '>'

instance (c : Char) : Decidable (IsBracket c) := inferInstanceAs (Decidable (_ ∨ _))

section Brackets

variable {c : Char} (hc : IsBracket c)
include hc

/-- The code points of brackets come before those of letters. -/
theorem IsBracket.lt_of_ofNat_eq {n : Nat} (h : Char.ofNat n = c) : n < 65 := by
  have hval : c.toNat = 60 ∨ c.toNat = 62 := by
    rcases hc with rfl | rfl
    · exact .inl rfl
    · exact .inr rfl
  by_contra hlarge
  rw [← h, Char.ofNat] at hval
  split at hval
  · change n = 60 ∨ n = 62 at hval
    omega
  · simp [Char.toNat] at hval

theorem IsBracket.ascii : c.val < 128 := by
  rcases hc with rfl | rfl <;> decide

-----------------------------------------------------------------------------------------
-- Small and capital letters
-----------------------------------------------------------------------------------------

namespace Text

theorem eq_of_shift_eq {runs : List Shift} (hruns : runs.all fun r => 65 ≤ r.first + r.distance)
    {x : Char} (h : shift runs x = c)
    : x = c := by
  unfold shift at h
  split at h
  · next r hfind =>
      have hlarge := List.all_eq_true.mp hruns r (List.mem_of_find?_eq_some hfind)
      have hcovers := List.find?_some hfind
      simp only [Shift.covers, Bool.and_eq_true, decide_eq_true_eq] at hcovers hlarge
      have := hc.lt_of_ofNat_eq h
      omega
  · exact h

/-- In ASCII, letters of the other case are letters. -/
theorem eq_of_toLower_or_toUpper_eq {x : Char} (hx : x.val < 128)
    (h : x.toLower = c ∨ x.toUpper = c)
    : x = c := by
  have hascii : ∀ n < 128, (IsBracket (Char.ofNat n).toLower ∨ IsBracket (Char.ofNat n).toUpper)
      → (Char.ofNat n).toLower = Char.ofNat n ∧ (Char.ofNat n).toUpper = Char.ofNat n := by
    with_unfolding_all decide
  have hletter := Text.forall_ascii
    (P := fun x => IsBracket x.toLower ∨ IsBracket x.toUpper → x.toLower = x ∧ x.toUpper = x)
    hascii hx
  rcases h with rfl | rfl
  · exact (hletter (.inl hc)).1.symm
  · exact (hletter (.inr hc)).2.symm

theorem eq_of_mem_lowerChar {before after : Text} {x : Char} (h : c ∈ lowerChar before x after)
    : x = c := by
  have hruns : lowerShifts.all fun r => 65 ≤ r.first + r.distance := by with_unfolding_all decide
  have hwide {y : Char} (hy : 128 ≤ y.val) : c ≠ y := by
    rintro rfl
    exact absurd hc.ascii (by simpa using hy)
  unfold lowerChar at h
  split at h
  · next hx => exact eq_of_toLower_or_toUpper_eq hc hx (.inl (List.mem_singleton.mp h).symm)
  · split at h
    · exfalso
      split at h
      · exact hwide (by decide) (List.mem_singleton.mp h)
      · exact hwide (by decide) (List.mem_singleton.mp h)
    · split at h
      · exfalso
        rcases hc with rfl | rfl <;> simp at h
      · exact eq_of_shift_eq hc hruns (List.mem_singleton.mp h).symm

theorem mem_of_mem_lower {s : Text} (h : c ∈ lower s) : c ∈ s := by
  suffices ∀ done before : Text, c ∈ lower.go done before s → c ∈ done ∨ c ∈ s from
    (this [] [] h).resolve_left (by simp)
  clear h
  induction s with
  | nil => exact fun done _ h => .inl (List.mem_reverse.mp h)
  | cons x s ih =>
      intro done before h
      rcases ih _ _ h with h | h
      · rcases List.mem_append.mp h with h | h
        · exact .inr (eq_of_mem_lowerChar hc (List.mem_reverse.mp h) ▸ List.mem_cons_self)
        · exact .inl h
      · exact .inr (List.mem_cons_of_mem _ h)

theorem eq_of_mem_upperChar {x : Char} (h : c ∈ upperChar x) : x = c := by
  have hruns : upperShifts.all fun r => 65 ≤ r.first + r.distance := by with_unfolding_all decide
  have hsequences : upperSequences.all fun s => s.2.all (65 ≤ ·) := by with_unfolding_all decide
  unfold upperChar at h
  split at h
  · next hx => exact eq_of_toLower_or_toUpper_eq hc hx (.inr (List.mem_singleton.mp h).symm)
  · split at h
    · next sequence hfind =>
        obtain ⟨n, hn, hof⟩ := List.mem_map.mp h
        have hlarge := List.all_eq_true.mp hsequences _ (List.mem_of_find?_eq_some hfind)
        have := of_decide_eq_true (List.all_eq_true.mp hlarge n hn)
        have := hc.lt_of_ofNat_eq hof
        omega
    · exact eq_of_shift_eq hc hruns (List.mem_singleton.mp h).symm

end Text

theorem Markup.mem_of_mem_capitalize {s : Text} (h : c ∈ Markup.capitalize s) : c ∈ s := by
  cases s with
  | nil => exact h
  | cons x s =>
      rcases List.mem_append.mp h with h | h
      · exact Text.eq_of_mem_upperChar hc h ▸ List.mem_cons_self
      · exact List.mem_cons_of_mem _ h

theorem Markup.mem_of_mem_camelCase {name : Text} (h : c ∈ Markup.camelCase name) : c ∈ name := by
  unfold Markup.camelCase at h
  split at h
  · simp at h
  · next first rest hsplit =>
      have hpart {part : Text} (hpart : part ∈ first :: rest) (hmem : c ∈ part) : c ∈ name :=
        Text.mem_of_mem_splitOnChar (hsplit ▸ hpart) hmem
      rcases List.mem_append.mp h with h | h
      · exact hpart List.mem_cons_self h
      · obtain ⟨part, hmem, h⟩ := List.mem_flatMap.mp h
        exact hpart (List.mem_cons_of_mem _ hmem) (Markup.mem_of_mem_capitalize hc h)

-----------------------------------------------------------------------------------------
-- String literals
-----------------------------------------------------------------------------------------

/-- No digit is a bracket, by induction over the digits. -/
theorem Text.not_mem_hex (width n : Nat) : c ∉ Text.hex width n := by
  have hdigit : ∀ d < 16, ¬ IsBracket (Nat.digitChar d) := by decide
  have hdigits (n : Nat) : ∀ x ∈ Nat.toDigits 16 n, ¬ IsBracket x := by
    induction n using Nat.strongRecOn with
    | _ n ih =>
        rw [Nat.toDigits_eq_if (by decide)]
        split
        · next hn => simpa using hdigit n hn
        · next hn =>
            rw [List.forall_mem_append]
            exact ⟨ih _ (Nat.div_lt_self (by omega) (by decide)), by simpa using hdigit _ (Nat.mod_lt _ (by decide))⟩
  intro h
  rcases List.mem_append.mp h with h | h
  · obtain rfl := List.eq_of_mem_replicate h
    exact absurd hc (by decide)
  · exact hdigits n c h hc

theorem Json.mem_of_mem_asciiString {s : Text} (h : c ∈ Json.asciiString s) : c ∈ s := by
  have hquote : c ≠ '"' := by rcases hc with rfl | rfl <;> decide
  have hunit (n : Nat) : c ∉ Json.unitEscape n := by
    have := Text.not_mem_hex hc 4 n
    rcases hc with rfl | rfl <;> simpa [Json.unitEscape]
  have hchar {x : Char} (h : c ∈ Json.asciiChar x) : x = c := by
    unfold Json.asciiChar at h
    split at h
    · next escape hescape =>
        exfalso
        unfold Json.shortEscape? at hescape
        repeat' split at hescape
        all_goals rcases hc with rfl | rfl <;> cases hescape <;> simp at h
    · split at h
      · exact (List.mem_singleton.mp h).symm
      · unfold Json.unitsEscape at h
        split at h
        · exact absurd h (hunit _)
        · exact absurd (List.mem_append.mp h) (not_or.mpr ⟨hunit _, hunit _⟩)
  simp only [Json.asciiString, List.cons_append, List.mem_cons, List.mem_append, hquote,
    List.not_mem_nil, or_false, false_or] at h
  obtain ⟨x, hx, h⟩ := List.mem_flatMap.mp h
  exact hchar h ▸ hx

-----------------------------------------------------------------------------------------
-- Attributes
-----------------------------------------------------------------------------------------

namespace Component

theorem mem_of_mem_styleKey {property : Text} (h : c ∈ styleKey property) : c ∈ property := by
  unfold styleKey at h
  split at h
  · exact Json.mem_of_mem_asciiString hc h
  · exact Text.mem_of_mem_lower hc (Markup.mem_of_mem_camelCase hc h)

theorem mem_of_mem_entry {declaration entry : Text}
    (hentry : styleEntry? declaration = some entry) (h : c ∈ entry)
    : c ∈ declaration := by
  unfold styleEntry? at hentry
  split at hentry
  · cases hentry
  · next property value hsplit =>
      have heq := Text.eq_of_splitAtLiteral? hsplit
      dsimp only at hentry
      split at hentry
      · cases hentry
      · cases hentry
        have hcolon : c ∉ (": " : Text) := by
          rcases hc with rfl | rfl <;> with_unfolding_all decide
        simp only [List.mem_append, hcolon, or_false] at h
        rw [heq, List.append_assoc]
        rcases h with h | h
        · exact List.mem_append_left _ (Text.mem_of_mem_trim (mem_of_mem_styleKey hc h))
        · exact List.mem_append_right _ (List.mem_append_right _
            (Text.mem_of_mem_trim (Json.mem_of_mem_asciiString hc h)))

theorem mem_of_mem_styleObject {style : Text} (h : c ∈ styleObject style) : c ∈ style := by
  have hframe : c ∉ ("\x7b\x7b\x7d\x7d" : Text) ∧ c ∉ ("\x7b\x7b " : Text)
      ∧ c ∉ (" \x7d\x7d" : Text) ∧ c ∉ (", " : Text) := by
    rcases hc with rfl | rfl <;> with_unfolding_all decide
  unfold styleObject at h
  dsimp only at h
  split at h
  · exact absurd h hframe.1
  · simp only [List.mem_append, hframe.2.1, hframe.2.2.1, or_false, false_or] at h
    obtain ⟨entry, hmem, h⟩ := (Text.mem_join h).resolve_left hframe.2.2.2
    obtain ⟨declaration, hdeclaration, hentry⟩ := List.mem_filterMap.mp hmem
    exact Text.mem_of_mem_splitOnChar hdeclaration (mem_of_mem_entry hc hentry h)

theorem mem_of_mem_jsxAttribute {tag name : Text} {value : Option Text}
    : (c ∈ (jsxAttribute tag name value).1 → c ∈ name)
      ∧ ∀ v' ∈ (jsxAttribute tag name value).2, c ∈ v' → ∃ v ∈ value, c ∈ v := by
  have hclass : c ∉ ("className" : Text) := by rcases hc with rfl | rfl <;> with_unfolding_all decide
  have hnames : ∀ pair ∈ jsxNames, c ∉ pair.2 := by
    rcases hc with rfl | rfl <;> with_unfolding_all decide
  have hsame : ∀ v ∈ value, c ∈ v → ∃ v ∈ value, c ∈ v := fun v hv h => ⟨v, hv, h⟩
  unfold jsxAttribute
  split
  · exact ⟨fun h => absurd h hclass, hsame⟩
  · split
    · next jsxName hlookup =>
        have hpair := Xml.mem_of_lookup_eq_some hlookup
        exact ⟨fun h => absurd h (hnames _ hpair), hsame⟩
    · next v _ =>
        split
        · refine ⟨id, fun v' hv' h => ⟨v, rfl, ?_⟩⟩
          obtain rfl := Option.some.inj hv'
          exact List.mem_of_mem_drop (List.dropLast_subset _ (mem_of_mem_styleObject hc h))
        · exact ⟨id, hsame⟩
    · exact ⟨id, hsame⟩

/-- The text of an attribute that is rewritten holds a bracket only if it held it before. -/
theorem mem_of_mem_rewrite {tag : Text} {a : Markup.Attribute}
    (h : c ∈ (a.rewrite jsxAttribute tag).text)
    : c ∈ a.text := by
  obtain ⟨hname, hvalue⟩ :=
    @mem_of_mem_jsxAttribute c hc tag a.name a.written
  have htext : c ∈ a.name → c ∈ a.text := fun h => by
    unfold Markup.Attribute.text
    split
    · exact h
    · exact List.mem_append_left _ (List.mem_append_left _ h)
  unfold Markup.Attribute.rewrite at h
  split at h
  · next name hjsx =>
      rw [hjsx] at hname
      exact htext (hname h)
  · next name v' hjsx =>
      rw [hjsx] at hname hvalue
      simp only [Markup.Attribute.text, List.mem_append] at h
      rcases h with (h | h) | h
      · exact htext (hname h)
      · cases ha : a.value with
        | none =>
            rw [ha] at h
            rcases hc with rfl | rfl <;> simp at h
        | some assigned =>
            rw [ha] at h
            simpa [Markup.Attribute.text, ha] using .inr (.inl h)
      · obtain ⟨v, hv, h⟩ := hvalue v' rfl h
        obtain ⟨assigned, ha, rfl⟩ := Option.map_eq_some_iff.mp hv
        simpa [Markup.Attribute.text, ha] using .inr (.inr h)

end Component

end Brackets

end SvgKit
