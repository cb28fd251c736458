import SvgKit.Service.Basic
import Mathlib

/-! The texts that identify results in the cache of the service. Content and options can be
told apart again in such a text, since the options of a result hold no bar.
-/

namespace SvgKit.Service

/-- What a result is looked up by: the content and the options. -/
structure Lookup where
  content : Text
  camelCase : Bool
  sanitize : Bool
  deriving Repr, DecidableEq

namespace Lookup

/-- The text that identifies the result. -/
def keyText (l : Lookup) : Text :=
  cacheKeyText l.content (some (resultOptions l.camelCase l.sanitize))

/-- The key of the result in the cache. -/
def key (l : Lookup) : Text := Sha256.hexDigest l.keyText.utf8Bytes

end Lookup

/-- The digest tells the texts apart. -/
def CollisionFree (texts : List Text) : Prop :=
  ∀ a ∈ texts, ∀ b ∈ texts,
    Sha256.hexDigest a.utf8Bytes = Sha256.hexDigest b.utf8Bytes → a = b

/-- The compact form of a truth value. -/
private def truthText (b : Bool) : Text := if b then "true" else "false"

private theorem compact_resultOptions (camelCase sanitize : Bool)
    : (resultOptions camelCase sanitize).compact
      = "\x7b\"camel_case\":" ++ truthText camelCase ++ ",\"sanitize\":" ++ truthText sanitize
        ++ "\x7d" := by
  cases camelCase <;> cases sanitize <;> cbv

private theorem bar_notMem_compact (camelCase sanitize : Bool)
    : '|' ∉ (resultOptions camelCase sanitize).compact := by
  rw [compact_resultOptions]
  revert camelCase sanitize
  with_unfolding_all decide

private theorem compact_resultOptions_inj {camelCase camelCase' sanitize sanitize' : Bool}
    (h : (resultOptions camelCase sanitize).compact
      = (resultOptions camelCase' sanitize').compact)
    : camelCase = camelCase' ∧ sanitize = sanitize' := by
  rw [compact_resultOptions, compact_resultOptions] at h
  revert h
  revert camelCase camelCase' sanitize sanitize'
  with_unfolding_all decide

/-- Texts around a mark that stands in neither end are equal part by part. -/
private theorem eq_of_append_mark {mark : Char} {left left' right right' : Text}
    (hr : mark ∉ right) (hr' : mark ∉ right')
    (h : left ++ mark :: right = left' ++ mark :: right')
    : left = left' ∧ right = right' := by
  rcases List.append_eq_append_iff.mp h with ⟨extra, he, ht⟩ | ⟨extra, he, ht⟩
  · cases extra with
    | nil => simpa [he] using ht
    | cons c extra =>
        obtain ⟨rfl, rfl⟩ := List.cons.inj ht
        simp at hr
  · cases extra with
    | nil => simpa [he, eq_comm] using ht
    | cons c extra =>
        obtain ⟨rfl, rfl⟩ := List.cons.inj ht
        simp at hr'

/-- The identifying text determines the trimmed content and the options: the last bar in it
separates them.
-/
theorem Lookup.eq_of_keyText_eq {l l' : Lookup} (h : l.keyText = l'.keyText)
    : Text.trim l.content = Text.trim l'.content
      ∧ l.camelCase = l'.camelCase
      ∧ l.sanitize = l'.sanitize := by
  have bar : (("|" : String) : Text) = ['|'] := by with_unfolding_all decide
  simp only [keyText, cacheKeyText, bar, List.append_assoc, List.singleton_append,
    Option.getD_some] at h
  obtain ⟨hc, ho⟩ := eq_of_append_mark (bar_notMem_compact _ _) (bar_notMem_compact _ _) h
  exact ⟨hc, compact_resultOptions_inj ho⟩

end SvgKit.Service
