import Mathlib
import SvgKit.Component.Name
import SvgKit.Proofs.Text.Ascii
import SvgKit.Proofs.Text.Splitting

/-! Names made from file names. Every file name gives a capital letter with letters and digits
behind it, and these names are the ones that stay as they are when a name is made from them again.
-/

namespace SvgKit.Component

open Text (isAlpha_of_isUpper isAlphanum_of_isAlpha)

/-- A capital letter, and letters and digits of ASCII behind it. -/
def IsPascalName : Text → Prop
  | [] => False
  | c :: s => c.isUpper ∧ ∀ x ∈ s, x.isAlphanum

theorem IsPascalName.isAlphanum {name : Text} (h : IsPascalName name)
    : ∀ x ∈ name, x.isAlphanum := by
  cases name with
  | nil => simp
  | cons c s =>
      obtain ⟨hc, hs⟩ := h
      exact List.forall_mem_cons.mpr ⟨isAlphanum_of_isAlpha (isAlpha_of_isUpper hc), hs⟩

theorem isPascalName_icon {s : Text} (hs : ∀ x ∈ s, x.isAlphanum)
    : IsPascalName ("Icon" ++ s) := by
  have hicon : ("Icon" : Text) = ['I', 'c', 'o', 'n'] := by simp [Text.ofString]
  have hrest : ['c', 'o', 'n'].all Char.isAlphanum := by decide
  rw [hicon]
  refine ⟨rfl, fun x hx => ?_⟩
  rcases List.mem_append.mp hx with hx | hx
  · exact List.all_eq_true.mp hrest x hx
  · exact hs x hx

-----------------------------------------------------------------------------------------
-- Names that are made
-----------------------------------------------------------------------------------------

/-- Whatever the words of a file name are, only letters and digits of them are kept, the first one
as a capital; and where that is no letter, `Icon` goes before it.
-/
theorem isPascalName_nameOfFile (path : Text) : IsPascalName (nameOfFile path) := by
  have hkept : ∀ x ∈ (joinWords (stem (baseName path))).filter Char.isAlphanum, x.isAlphanum :=
    fun x hx => (List.mem_filter.mp hx).2
  unfold nameOfFile
  generalize (joinWords (stem (baseName path))).filter Char.isAlphanum = kept at hkept
  cases kept with
  | nil =>
      have hicon := isPascalName_icon (s := []) (by simp)
      rwa [List.append_nil] at hicon
  | cons c s =>
      rw [List.forall_mem_cons] at hkept
      obtain ⟨hc, hs⟩ := hkept
      rw [Markup.capitalize, Text.upperChar_of_isAlphanum hc, List.singleton_append]
      dsimp only
      split
      · next hletter =>
          rw [Char.isAlpha_toUpper_eq_isAlpha] at hletter
          exact ⟨by rwa [Char.isUpper_toUpper_eq_isAlpha], hs⟩
      · next hletter =>
          rw [Char.isAlpha_toUpper_eq_isAlpha] at hletter
          have hsmall : ¬ c.isLower := fun h => hletter (by simp [Char.isAlpha, h])
          rw [Char.toUpper_eq_of_not_isLower hsmall]
          exact isPascalName_icon (List.forall_mem_cons.mpr ⟨hc, hs⟩)

-----------------------------------------------------------------------------------------
-- Names that stay
-----------------------------------------------------------------------------------------

/-- A letter or digit neither ends a part of a path nor separates words. -/
theorem of_isAlphanum {c : Char} (h : c.isAlphanum)
    : c ≠ '/' ∧ c ≠ '.' ∧ isSeparator c = false := by
  have hall : ∀ n < 128, (Char.ofNat n).isAlphanum
      → Char.ofNat n ≠ '/' ∧ Char.ofNat n ≠ '.' ∧ isSeparator (Char.ofNat n) = false := by
    decide
  exact Text.forall_ascii (P := fun c => c.isAlphanum → c ≠ '/' ∧ c ≠ '.' ∧ isSeparator c = false)
    hall (Text.lt_of_isAlphanum h) h

section Plain

variable {name : Text} (hname : ∀ x ∈ name, x.isAlphanum)
include hname

theorem baseName_eq_self : baseName name = name := by
  rw [baseName, List.takeWhile_eq_self_iff.mpr, List.reverse_reverse]
  intro x hx
  simpa using (of_isAlphanum (hname x (List.mem_reverse.mp hx))).1

theorem stem_eq_self : stem name = name := by
  have hextension : (name.reverse.takeWhile (· != '.')).reverse = name := by
    rw [List.takeWhile_eq_self_iff.mpr, List.reverse_reverse]
    intro x hx
    simpa using (of_isAlphanum (hname x (List.mem_reverse.mp hx))).2.1
  simp [stem, hextension]

theorem joinWords_eq_self : joinWords name = name := by
  have hwords : ∀ x ∈ name, isSeparator x = false := fun x hx => (of_isAlphanum (hname x hx)).2.2
  rw [joinWords, Text.splitOnChar_of_forall hwords]
  simp

end Plain

theorem nameOfFile_eq_self {name : Text} (h : IsPascalName name) : nameOfFile name = name := by
  have hname := h.isAlphanum
  rw [nameOfFile, baseName_eq_self hname, stem_eq_self hname, joinWords_eq_self hname,
    List.filter_eq_self.mpr hname]
  cases name with
  | nil => cases h
  | cons c s =>
      obtain ⟨hc, -⟩ := h
      have hletter := isAlpha_of_isUpper hc
      rw [Markup.capitalize, Text.upperChar_of_isAlphanum (isAlphanum_of_isAlpha hletter),
        Char.toUpper_eq_of_not_isLower (Char.not_isLower_of_isUpper hc), List.singleton_append]
      exact if_pos hletter

/-- From every path a capital letter with letters and digits behind it is made, which stays as it is
when a name is made from it; and no other name stays so.
-/
theorem nameOfFile_nameOfFile (path : Text)
    : IsPascalName (nameOfFile path)
      ∧ nameOfFile (nameOfFile path) = nameOfFile path
      ∧ ∀ name, nameOfFile name = name ↔ IsPascalName name := by
  refine ⟨isPascalName_nameOfFile path, nameOfFile_eq_self (isPascalName_nameOfFile path), ?_⟩
  intro name
  constructor
  · intro h
    exact h ▸ isPascalName_nameOfFile name
  · exact nameOfFile_eq_self

/-- A letter beyond ASCII is not kept, but the letters of its capital form are. -/
example : nameOfFile "icons/ça-va\u00a0\u00dfx.min.svg" = "AVaSSxmin" := by
  decide +kernel

end SvgKit.Component
