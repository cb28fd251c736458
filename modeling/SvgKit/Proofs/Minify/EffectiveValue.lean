import SvgKit.Proofs.Minify.Identifiers
import SvgKit.Proofs.Minify.References
import SvgKit.Proofs.Minify.Stability
import SvgKit.Proofs.Minify.Totality
import SvgKit.Proofs.Number.Decimal

/-! The values that presentation properties have in effect. An element has the value that the
nearest element around it or itself sets, or the default. Dropping defaults, rounding numbers and
compacting styles changes these values in spelling only.
-/

namespace SvgKit

-----------------------------------------------------------------------------------------
-- Numbers of one digit
-----------------------------------------------------------------------------------------

namespace Numeral

/-- The digits of a number of one digit with zeros behind it, by induction over the zeros. -/
theorem paddedDigits_mul_pow {k : Nat} (hdigit : k < 10) (places : Nat)
    : paddedDigits places (k * 10 ^ places) = k.digitChar :: List.replicate places '0' := by
  induction places with
  | zero =>
      rw [pow_zero, mul_one, paddedDigits, Text.ofNat, Nat.toDigits_of_lt_base hdigit]
      rfl
  | succ places ih =>
      have hdiv : k * 10 ^ (places + 1) / 10 = k * 10 ^ places := by
        rw [pow_succ, ← mul_assoc, Nat.mul_div_cancel _ (by norm_num)]
      have hmod : k * 10 ^ (places + 1) % 10 = 0 := by
        rw [pow_succ, ← mul_assoc, Nat.mul_mod_left]
      rw [paddedDigits_succ, hdiv, hmod, ih, List.replicate_succ', List.cons_append]
      rfl

/-- A number of one digit is shortened to the digit, whatever the places. -/
theorem shorten_digit {k m : Nat} {e : Int} (hdigit : k < 10) (places : Nat)
    (hrange : Binary64.InRange (.finite false m e)) (hbits : Binary64.HasBits (.finite false m e))
    (hvalue : (m : ℚ) * 2 ^ e = k)
    : shorten places (.finite false m e) = .ok [k.digitChar] := by
  have hwhole : Binary64.scaled places m e = k * 10 ^ places := by
    have hself : IsNearest ((k * 10 ^ places : Nat) : ℚ) ((k * 10 ^ places : Nat) : Int) :=
      .inl (by norm_num)
    have hnearest := Binary64.isNearest_scaled places m e
    rw [hvalue] at hnearest
    exact Int.ofNat_inj.mp (hnearest.unique (by exact_mod_cast hself))
  have hlength : (k.digitChar :: List.replicate places '0').length - places = 1 := by simp
  have hzeros : Text.dropEndWhile (· = '0') (List.replicate places '0') = [] := by
    simp [Text.dropEndWhile]
  rw [shorten_finite places hrange hbits, hwhole, roundedText, wholeDigits, fractionDigits,
    paddedDigits_mul_pow hdigit, hlength, List.drop_succ_cons, List.drop_zero, hzeros]
  rfl

/-- A text of one digit stays as it is when its numbers are shortened, if the digit is exactly the
number that it is read as.
-/
theorem shortenAll_digit {k m : Nat} {e : Int} (hdigit : k < 10)
    (hread : Binary64.ofDecimal false k 0 = .finite false m e) (hvalue : (m : ℚ) * 2 ^ e = k)
    {precision : Int} (hprecision : 0 ≤ precision)
    : shortenAll precision [k.digitChar] = .ok [k.digitChar] := by
  have hnumeral : read? [k.digitChar] = some (⟨false, [k.digitChar], [], 0⟩, [])
      ∧ value ⟨false, [k.digitChar], [], 0⟩ = .ofDecimal false k 0 := by
    have hall : ∀ k < 10, read? [k.digitChar] = some (⟨false, [k.digitChar], [], 0⟩, [])
        ∧ digitsValue [k.digitChar] = k := by decide
    obtain ⟨hnumeral, hdigits⟩ := hall k hdigit
    exact ⟨hnumeral, by rw [value, List.append_nil, hdigits]; rfl⟩
  have hrange := Binary64.inRange_ofDecimal false k 0
  have hbits := Binary64.hasBits_ofDecimal false k 0
  rw [hread] at hrange hbits
  obtain ⟨places, rfl⟩ := Int.eq_ofNat_of_zero_le hprecision
  have hshort := shorten_digit hdigit places hrange hbits hvalue
  rw [← hread, ← hnumeral.2] at hshort
  exact shortenAll_of_read? hnumeral.1 hshort shortenAll_nil

/-- A text in which no number can begin stays as it is, by induction over it. -/
theorem shortenAll_of_forall {precision : Int} {s : Text}
    (h : ∀ c ∈ s, (c ≠ '-' ∧ c ≠ '+') ∧ c ≠ '.' ∧ Text.isDigit c = false)
    : shortenAll precision s = .ok s := by
  induction s with
  | nil => exact shortenAll_nil
  | cons c s ih =>
      rw [List.forall_mem_cons] at h
      obtain ⟨⟨hsign, hpoint, hdigit⟩, hrest⟩ := h
      exact shortenAll_cons (read?_eq_none hsign hpoint hdigit s) (ih hrest)

end Numeral

namespace Minify

open Xml

-----------------------------------------------------------------------------------------
-- Settings
-----------------------------------------------------------------------------------------

/-- The properties and values that a style declares, as they stand there. -/
def rawDeclarations (style : Text) : List (Text × Text) :=
  (Text.splitOnChar (· == ';') style).filterMap (Text.splitAtLiteral? [':'])

/-- The value of the last declaration of a property in a style, as it stands there. -/
def declaredValue? (property style : Text) : Option Text :=
  ((rawDeclarations style).reverse.find? (Text.trim ·.1 = property)).map (·.2)

/-- What sets a property: a declaration in a style, or an attribute. -/
inductive Setting where
  | inStyle (value : Text)
  | asAttribute (value : Text)
  deriving Repr, DecidableEq

/-- What sets a property of an element, a declaration before an attribute. -/
def setting? (property : Text) (h : Head) : Option Setting :=
  match declaredValue? property ((h.get? "style").getD []) with
  | some value => some (.inStyle value)
  | none => (h.get? property).map .asAttribute

/-- What sets a property at the end of a path, whose innermost element comes first. -/
def settingInForce? (property : Text) (path : List Head) : Option Setting :=
  path.findSome? (setting? property)

/-- The value that a property has at the end of a path. -/
def effectiveValue (property default : Text) (path : List Head) : Text :=
  match settingInForce? property path with
  | some (.inStyle value) => value
  | some (.asAttribute value) => value
  | none => default

/-- An attribute value, rounded if the attribute holds numbers. -/
def roundedValue (precision : Int) (property value : Text) : Except Failure Text :=
  if isNumeric property then compactNumbers precision value else .ok value

/-- The value that a property has at the end of a path in its shortest form: a declared value
without blanks around it, the value of an attribute rounded.
-/
def shortValue (precision : Int) (property default : Text) (path : List Head)
    : Except Failure Text :=
  match settingInForce? property path with
  | some (.inStyle value) => .ok (Text.trim value)
  | some (.asAttribute value) => roundedValue precision property value
  | none => .ok default

-----------------------------------------------------------------------------------------
-- Styles
-----------------------------------------------------------------------------------------

theorem declarations_eq (style : Text)
    : declarations style
      = (rawDeclarations style).map fun d => ⟨Text.trim d.1, Text.trim d.2⟩ := by
  rw [rawDeclarations, List.map_filterMap]
  rfl

theorem isSome_declaredValue? (property style : Text)
    : (declaredValue? property style).isSome
      = (declarations style).any (·.property = property) := by
  rw [declarations_eq, declaredValue?, Option.isSome_map, List.any_map, List.isSome_find?,
    List.any_reverse]
  rfl

theorem setsProperty_eq (property : Text) (h : Head)
    : setsProperty property h = (setting? property h).isSome := by
  rw [setsProperty, ← isSome_declaredValue?, setting?]
  cases declaredValue? property ((h.get? "style").getD []) with
  | some value => exact Bool.or_true _
  | none => rw [Option.isSome_map, Option.isSome_none, Bool.or_false]

/-- The compact form of a style declares the same with trimmed names and values. -/
theorem rawDeclarations_of_compactStyle? {style text : Text} (h : compactStyle? style = some text)
    : rawDeclarations text
      = (rawDeclarations style).map fun d => (Text.trim d.1, Text.trim d.2) := by
  obtain ⟨hne, rfl⟩ := compactStyle?_eq_some_iff.mp h
  have hsplit := @Text.splitOnChar_join (· == ';') ';'
    ((declarations style).map Declaration.text) (by simpa using hne)
    (List.forall_mem_map.mpr fun d hd => (ofText?_text_of_mem_declarations hd).1) rfl
  have hcolon : ∀ d ∈ rawDeclarations style, ':' ∉ Text.trim d.1 := by
    intro d hd hmem
    obtain ⟨piece, -, hread⟩ := List.mem_filterMap.mp hd
    exact Text.not_mem_of_splitAtLiteral? hread (Text.mem_of_mem_trim hmem)
  rw [rawDeclarations, hsplit, declarations_eq, List.map_map, List.filterMap_map]
  calc (rawDeclarations style).filterMap _
      = (rawDeclarations style).filterMap fun d => some (Text.trim d.1, Text.trim d.2) :=
        List.filterMap_congr fun d hd => Text.splitAtLiteral?_cons (hcolon d hd) (Text.trim d.2)
    _ = _ := congrFun List.filterMap_eq_map' _

theorem declaredValue?_of_compactStyle? {style text : Text} (h : compactStyle? style = some text)
    (property : Text)
    : declaredValue? property text = (declaredValue? property style).map Text.trim := by
  rw [declaredValue?, rawDeclarations_of_compactStyle? h, ← List.map_reverse, List.find?_map,
    declaredValue?, Option.map_map, Option.map_map]
  simp only [Function.comp_def, Text.trim_trim]

/-- A style without a compact form declares nothing. -/
theorem declaredValue?_of_compactStyle?_eq_none {style : Text} (h : compactStyle? style = none)
    (property : Text)
    : declaredValue? property style = none := by
  rw [← Option.not_isSome_iff_eq_none, isSome_declaredValue?]
  simp only [compactStyle?, List.isEmpty_map, ite_eq_left_iff, reduceCtorEq, imp_false,
    Decidable.not_not, List.isEmpty_iff] at h
  rw [h, List.any_nil]
  exact Bool.false_ne_true

-----------------------------------------------------------------------------------------
-- Heads
-----------------------------------------------------------------------------------------

/-- The declared values of a head in its shortest form. -/
theorem declaredValue?_shortenHead {precision : Int} {outer : List Head} {h h' : Head}
    (hshort : shortenHead precision outer h = .ok h') (property : Text)
    : declaredValue? property ((h'.get? "style").getD [])
      = (declaredValue? property ((h.get? "style").getD [])).map Text.trim := by
  have hdefault : presentationDefaults.lookup (Text.ofString "style") = none := by
    with_unfolding_all decide
  obtain ⟨rounded, hround, rfl⟩ := shortenHead_eq_ok hshort
  have hstyle : rounded.get? "style" = h.get? "style" := by
    calc rounded.get? "style"
        = (dropDefaults outer h).get? "style" :=
          get?_roundNumbers hround (by with_unfolding_all decide) (by with_unfolding_all decide)
      _ = h.get? "style" :=
          get?_filter (fun a _ hname => by simp [isRedundant, hname, hdefault]) h
  rw [← hstyle]
  unfold compactStyle
  cases hvalue : rounded.get? "style" with
  | none =>
      rw [hvalue]
      rfl
  | some style =>
      dsimp only
      cases hcompact : compactStyle? style with
      | none =>
          dsimp only
          rw [get?_erase, Option.getD_some, declaredValue?_of_compactStyle?_eq_none hcompact]
          rfl
      | some text =>
          dsimp only
          rw [get?_set hvalue, Option.getD_some, Option.getD_some,
            declaredValue?_of_compactStyle? hcompact]

/-- What holds of all presentation properties: they are neither styles nor path data. -/
theorem presentation_ne {property default : Text}
    (hproperty : (property, default) ∈ presentationDefaults)
    : property ≠ "style" ∧ isPathData property = false
      ∧ presentationDefaults.lookup property = some default := by
  have hall : ∀ d ∈ presentationDefaults, d.1 ≠ Text.ofString "style" ∧ isPathData d.1 = false
      ∧ presentationDefaults.lookup d.1 = some d.2 := by with_unfolding_all decide
  exact hall _ hproperty

/-- The default of a presentation property is in its shortest form. -/
theorem roundedValue_default {precision : Int} (hprecision : 0 ≤ precision)
    {property default : Text} (hproperty : (property, default) ∈ presentationDefaults)
    : roundedValue precision property default = .ok default := by
  have hnumber : default = ['1'] ∨ default = ['0'] ∨ default = ['4'] ∨ default = "none"
      ∨ isNumeric property = false := by
    have hall : ∀ d ∈ presentationDefaults, d.2 = ['1'] ∨ d.2 = ['0'] ∨ d.2 = ['4']
        ∨ d.2 = Text.ofString "none" ∨ isNumeric d.1 = false := by with_unfolding_all decide
    exact hall _ hproperty
  have hround {text : Text} (h : Numeral.shortenAll precision text = .ok text)
      (hsqueeze : Text.squeeze text = text)
      : roundedValue precision property text = .ok text := by
    rw [roundedValue, compactNumbers, h]
    split
    · exact congrArg Except.ok hsqueeze
    · rfl
  rcases hnumber with rfl | rfl | rfl | rfl | hplain
  · exact hround (Numeral.shortenAll_digit (k := 1) (m := 2 ^ 52) (e := -52) (by norm_num)
      (by decide +kernel) (by norm_num) hprecision) (by decide)
  · exact hround (Numeral.shortenAll_digit (k := 0) (m := 0) (e := 0) (by norm_num)
      (by decide +kernel) (by norm_num) hprecision) (by decide)
  · exact hround (Numeral.shortenAll_digit (k := 4) (m := 2 ^ 52) (e := -50) (by norm_num)
      (by decide +kernel) (by norm_num) hprecision) (by decide)
  · have hnone : (("none" : String) : Text) = ['n', 'o', 'n', 'e'] := by with_unfolding_all decide
    rw [hnone]
    exact hround (Numeral.shortenAll_of_forall (List.all_iff_forall_prop.mp (by decide)))
      (by decide)
  · rw [roundedValue, hplain]
    rfl

/-- Attributes with names of their own. -/
def DistinctNames (attributes : List Attribute) : Prop :=
  (attributes.map fun a => (a.name.uri?, a.name.base)).Nodup

theorem get?_eq_some_iff {h : Head} (hdistinct : DistinctNames h.attributes) {name value : Text}
    : h.get? name = some value
      ↔ ∃ a ∈ h.attributes, (a.name.binding.isNone && a.name.base = name) ∧ a.value = value := by
  rw [Head.get?, Option.map_eq_some_iff]
  constructor
  · rintro ⟨a, hfind, hvalue⟩
    have hname := List.find?_some hfind
    exact ⟨a, List.mem_of_find?_eq_some hfind, hname, hvalue⟩
  · rintro ⟨a, ha, hname, hvalue⟩
    have hfound
        : (h.attributes.find? fun a => a.name.binding.isNone && a.name.base = name).isSome :=
      List.find?_isSome.mpr ⟨a, ha, hname⟩
    obtain ⟨b, hfind⟩ := Option.isSome_iff_exists.mp hfound
    have hb := List.find?_some hfind
    rw [Bool.and_eq_true, Option.isNone_iff_eq_none, decide_eq_true_eq] at hname hb
    have heq : b = a := List.inj_on_of_nodup_map hdistinct (List.mem_of_find?_eq_some hfind) ha
      (by rw [Name.uri?, Name.uri?, hname.1, hname.2, hb.1, hb.2])
    exact ⟨b, hfind, heq ▸ hvalue⟩

/-- An attribute goes if it sets a property to its default and no outer element sets the property.
-/
theorem get?_dropDefaults_eq_some_iff {outer : List Head} {h : Head}
    (hdistinct : DistinctNames h.attributes) {property default : Text}
    (hproperty : (property, default) ∈ presentationDefaults) {value : Text}
    : (dropDefaults outer h).get? property = some value
      ↔ h.get? property = some value ∧ (value = default → outer.any (setsProperty property)) := by
  have hkept : DistinctNames (dropDefaults outer h).attributes :=
    (List.filter_sublist.map _).nodup hdistinct
  have hlookup := (presentation_ne hproperty).2.2
  rw [get?_eq_some_iff hkept, get?_eq_some_iff hdistinct]
  constructor
  · rintro ⟨a, ha, hname, rfl⟩
    obtain ⟨ha, hstays⟩ := List.mem_filter.mp ha
    refine ⟨⟨a, ha, hname, rfl⟩, fun hvalue => ?_⟩
    rw [Bool.and_eq_true, decide_eq_true_eq] at hname
    simpa [isRedundant, hname.1, hname.2, hlookup, hvalue] using hstays
  · rintro ⟨⟨a, ha, hname, rfl⟩, houter⟩
    refine ⟨a, List.mem_filter.mpr ⟨ha, ?_⟩, hname, rfl⟩
    rw [Bool.and_eq_true, decide_eq_true_eq] at hname
    simp only [isRedundant, hname.1, hname.2, hlookup, Bool.true_and, Bool.not_eq_true',
      Bool.and_eq_false_iff, decide_eq_false_iff_not, Option.some.injEq, Bool.not_eq_false']
    by_cases hvalue : default = a.value
    · exact .inr (houter hvalue.symm)
    · exact .inl hvalue

/-- Rounding gives an attribute that is no path data its rounded value. -/
theorem rel_get?_roundNumbers {precision : Int} {h rounded : Head} {name : Text}
    (hround : roundNumbers precision h = .ok rounded) (hpath : isPathData name = false)
    : Option.Rel (fun value value' => roundedValue precision name value = .ok value')
        (h.get? name) (rounded.get? name) := by
  have hall := (roundNumbers_eq_ok hround).1
  unfold Head.get?
  generalize h.attributes = attributes at hall
  generalize rounded.attributes = attributes' at hall
  induction hall with
  | nil => exact .none
  | @cons a a' _ _ hfirst _ ih =>
      rw [List.find?_cons, List.find?_cons, (rewrites_of_roundAttribute hfirst).1.name]
      split
      · next hname =>
          rw [Bool.and_eq_true, decide_eq_true_eq] at hname
          refine .some ?_
          rw [roundAttribute, hname.2, hpath, if_neg Bool.false_ne_true] at hfirst
          unfold roundedValue
          split at hfirst
          · next hnumeric =>
              rw [if_pos hnumeric]
              cases hvalue : compactNumbers precision a.value with
              | error e =>
                  rw [hvalue] at hfirst
                  cases hfirst
              | ok value =>
                  rw [hvalue] at hfirst
                  cases hfirst
                  rfl
          · next hnumeric =>
              cases hfirst
              rw [if_neg hnumeric]
      · exact ih

theorem get?_compactStyle {name : Text} (hname : name ≠ "style") (h : Head)
    : (compactStyle h).get? name = h.get? name := by
  unfold compactStyle
  split
  · rfl
  · split
    · exact get?_set_ne hname _
    · exact get?_erase_ne hname h

/-- The outer elements set no property that none of them sets. -/
theorem settingInForce?_eq_none_iff {property : Text} {path : List Head}
    : settingInForce? property path = none ↔ path.any (setsProperty property) = false := by
  rw [settingInForce?, List.findSome?_eq_none_iff, List.any_eq_false]
  simp only [setsProperty_eq, Option.not_isSome_iff_eq_none]

/-- What sets a property of a head in its shortest form. An attribute that sets the default goes if
no outer element sets the property; all other settings stay, in their shortest form.
-/
theorem setting?_shortenHead {precision : Int} {outer : List Head} {h h' : Head}
    (hshort : shortenHead precision outer h = .ok h') (hdistinct : DistinctNames h.attributes)
    {property default : Text} (hproperty : (property, default) ∈ presentationDefaults)
    : match setting? property h with
      | none => setting? property h' = none
      | some (.inStyle value) => setting? property h' = some (.inStyle (Text.trim value))
      | some (.asAttribute value) =>
        value = default ∧ setting? property h' = none ∧ settingInForce? property outer = none
          ∨ ∃ value', roundedValue precision property value = .ok value'
            ∧ setting? property h' = some (.asAttribute value') := by
  obtain ⟨hstyle, hpath, -⟩ := presentation_ne hproperty
  have hdeclared := declaredValue?_shortenHead hshort property
  obtain ⟨rounded, hround, rfl⟩ := shortenHead_eq_ok hshort
  have hrel := rel_get?_roundNumbers hround hpath
  rw [← get?_compactStyle hstyle rounded] at hrel
  have hdropped := @get?_dropDefaults_eq_some_iff outer h hdistinct _ _ hproperty
  unfold setting?
  rw [hdeclared]
  cases declaredValue? property ((h.get? "style").getD []) with
  | some value => rfl
  | none =>
      dsimp only [Option.map_none]
      generalize (compactStyle rounded).get? property = final at hrel
      cases hkept : (dropDefaults outer h).get? property with
      | some value =>
          rw [(hdropped.mp hkept).1]
          rw [hkept] at hrel
          cases hrel with
          | some hvalue => exact .inr ⟨_, hvalue, rfl⟩
      | none =>
          rw [hkept] at hrel
          cases hrel
          cases hget : h.get? property with
          | none => rfl
          | some value =>
              have hgone : ¬ (value = default → outer.any (setsProperty property)) := by
                intro hstays
                rw [hdropped.mpr ⟨hget, hstays⟩] at hkept
                cases hkept
              obtain ⟨hvalue, houter⟩ := Classical.not_imp.mp hgone
              exact .inl ⟨hvalue, rfl,
                settingInForce?_eq_none_iff.mpr (Bool.eq_false_iff.mpr houter)⟩

/-- Relabelling keeps the attributes without a namespace. -/
theorem get?_relabelHead (outer : List Head) (h : Head) (supply : Supply) (name : Text)
    : (relabelHead outer h supply).1.get? name = h.get? name := by
  have hattribute (a : Attribute) (state : List Binding × Supply)
      : (relabelAttribute outer a state).1.value = a.value
        ∧ (relabelAttribute outer a state).1.name.base = a.name.base
        ∧ (relabelAttribute outer a state).1.name.binding.isNone = a.name.binding.isNone := by
    unfold relabelAttribute
    dsimp only
    split
    · exact ⟨rfl, rfl, rfl⟩
    · next old hold =>
        split
        · exact ⟨rfl, rfl, by rw [hold]; rfl⟩
        · exact ⟨rfl, rfl, rfl⟩
  rw [relabelHead_eq]
  dsimp only [Head.get?]
  generalize (h.bindings, supply) = state
  induction h.attributes generalizing state with
  | nil => rfl
  | cons a attributes ih =>
      obtain ⟨hvalue, hbase, hbinding⟩ := hattribute a state
      rw [relabelAttributes_cons]
      dsimp only
      rw [List.find?_cons, List.find?_cons, hbase, hbinding]
      split
      · rw [Option.map_some, Option.map_some, hvalue]
      · exact ih _

-----------------------------------------------------------------------------------------
-- Trees
-----------------------------------------------------------------------------------------

/-- Two paths on which each presentation property has the same value, in its shortest form on the
second one.
-/
def Settles (precision : Int) (path path' : List Head) : Prop :=
  ∀ property default, (property, default) ∈ presentationDefaults →
    shortValue precision property default path = .ok (effectiveValue property default path')

/-- The end of a path with a head more, from what sets a property of the head and of the path. -/
theorem settingInForce?_cons (property : Text) (h : Head) (path : List Head)
    : settingInForce? property (h :: path)
      = (setting? property h).or (settingInForce? property path) := by
  rw [settingInForce?, List.findSome?_cons]
  cases setting? property h <;> rfl

/-- A head in its shortest form keeps the values in effect. -/
theorem Settles.cons {precision : Int} (hprecision : 0 ≤ precision) {path path' : List Head}
    (hpath : Settles precision path path') {h h' : Head}
    (hshort : shortenHead precision path' h = .ok h') (hdistinct : DistinctNames h.attributes)
    : Settles precision (h :: path) (h' :: path') := by
  intro property default hproperty
  have hhead := setting?_shortenHead hshort hdistinct hproperty
  have houter := hpath property default hproperty
  unfold shortValue effectiveValue at houter ⊢
  rw [settingInForce?_cons, settingInForce?_cons]
  cases hsetting : setting? property h with
  | none =>
      rw [hsetting] at hhead
      dsimp only at hhead
      rw [hhead]
      exact houter
  | some setting =>
      rw [hsetting] at hhead
      cases setting with
      | inStyle value =>
          dsimp only at hhead
          rw [hhead]
          rfl
      | asAttribute value =>
          rcases hhead with ⟨rfl, hnone, hunset⟩ | ⟨value', hvalue, hset⟩
          · rw [hnone, hunset]
            exact roundedValue_default hprecision hproperty
          · rw [hset]
            exact hvalue

/-- Relabelling keeps what sets a property at the end of a path. -/
theorem settingInForce?_relabelHead {path' path'' : List Head}
    (hpath : ∀ property, settingInForce? property path'' = settingInForce? property path') (h : Head)
    (supply : Supply) (property : Text)
    : settingInForce? property ((relabelHead path'' h supply).1 :: path'')
      = settingInForce? property (h :: path') := by
  rw [settingInForce?_cons, settingInForce?_cons, hpath, setting?, setting?, get?_relabelHead,
    get?_relabelHead]

theorem Settles.of_settingInForce?_eq {precision : Int} {path path' path'' : List Head}
    (h : Settles precision path path')
    (hpath : ∀ property, settingInForce? property path'' = settingInForce? property path')
    : Settles precision path path'' := by
  intro property default hproperty
  rw [h property default hproperty, effectiveValue, effectiveValue, hpath]

/-- An element before and after, with the same values in effect. -/
structure PlaceSettles (precision : Int) (p p' : Place) : Prop where
  name : p'.head.name = p.head.name
  values : Settles precision (p.head :: p.outer) (p'.head :: p'.outer)

/-- Shortening and relabelling keep the values in effect in all places, by induction over the
forest. The paths are those before, in the shortest form, and relabelled.
-/
theorem forall₂_placeSettles {precision : Int} (hprecision : 0 ≤ precision)
    {outer outer' outer'' : List Head} (houter : Settles precision outer outer')
    (hsame : ∀ property, settingInForce? property outer'' = settingInForce? property outer')
    {nodes nodes' : List Node} (hdistinct : ∀ h ∈ Node.allHeads nodes, DistinctNames h.attributes)
    (hshort : shortenNodes precision outer' nodes = .ok nodes') (supply : Supply)
    : List.Forall₂ (PlaceSettles precision) (places outer nodes)
        (places outer'' (relabelNodes outer'' nodes' supply).1) := by
  induction nodes using Node.forest_induction
    generalizing outer outer' outer'' nodes' supply with
  | nil =>
      rw [shortenNodes] at hshort
      cases hshort
      rw [relabelNodes_nil]
      simp
  | element h content nodes inside behind =>
      obtain ⟨h', inside', behind', hhead, hinside, hbehind, rfl⟩ := shortenNodes_element.mp hshort
      rw [Node.allHeads_element, List.forall_mem_cons, List.forall_mem_append] at hdistinct
      obtain ⟨hnames, hcontent, hnodes⟩ := hdistinct
      have hpath := houter.cons hprecision hhead hnames
      have hlabels := settingInForce?_relabelHead hsame h' supply
      rw [relabelNodes_element]
      dsimp only
      rw [places_element, places_element]
      refine .cons ⟨?_, hpath.of_settingInForce?_eq hlabels⟩ (List.rel_append ?_ ?_)
      · exact (reduces_of_shortenHead hhead).name
      · exact inside hpath hlabels hcontent hinside _
      · exact behind houter hsame hnodes hbehind _
  | text s nodes ih =>
      obtain ⟨behind', hbehind, rfl⟩ := shortenNodes_text.mp hshort
      rw [relabelNodes_text, places_text, places_text]
      exact ih houter hsame (by simpa using hdistinct) hbehind supply
  | entity name nodes ih =>
      obtain ⟨behind', hbehind, rfl⟩ := shortenNodes_entity.mp hshort
      rw [relabelNodes_entity, places_entity, places_entity]
      exact ih houter hsame (by simpa using hdistinct) hbehind supply

/-- Giving all attributes their shortest form succeeds, and keeps the values that presentation
properties have in effect in all places: a value that a style declares is trimmed, one that an
attribute sets is rounded if the attribute holds numbers, and all others stay as they are.
-/
theorem effectiveValue_shortenAttributes {precision : Int} (hprecision : 0 ≤ precision)
    {d : Document} (hdistinct : ∀ h ∈ d.root.heads, DistinctNames h.attributes)
    : ∃ d', shortenAttributes precision d = .ok d'
      ∧ List.Forall₂ (PlaceSettles precision) (places [] d.root.forest)
        (places [] d'.root.forest) := by
  obtain ⟨root, hroot⟩ := exists_shortenElement hprecision d.root
  refine ⟨relabel ⟨root, d.supply⟩, by rw [shortenAttributes_eq, hroot]; rfl, ?_⟩
  rw [Element.heads_eq] at hdistinct
  have hnil : Settles precision [] [] := fun _ _ _ => rfl
  have hplaces := forall₂_placeSettles hprecision hnil (fun _ => rfl) hdistinct
    (shortenElement_eq_ok.mp hroot) d.supply
  rwa [relabel_eq ⟨root, d.supply⟩] at hplaces

/-- A drawing in which defaults stand below other values and below defaults. -/
private def sampleSettings : Text :=
  "<svg style=\" opacity : 0.5 ; \" stroke-miterlimit=\"4\">"
    ++ "<g opacity=\"1\" stroke-miterlimit=\"4\" fill-opacity=\"0.33333\">"
    ++ "<a fill-opacity=\"1\" stroke-opacity=\"1\" style=\"stroke-opacity: none\"/></g></svg>"

theorem effectiveValue_shortenAttributes_sampleSettings
    : ∃ d d', readDocument sampleSettings = .ok d
      ∧ (∀ h ∈ d.root.heads, DistinctNames h.attributes)
      ∧ shortenAttributes 3 d = .ok d'
      ∧ d'.root.write = ("<svg style=\"opacity:0.5\"><g opacity=\"1\" fill-opacity=\"0.333\">"
        ++ "<a fill-opacity=\"1\" style=\"stroke-opacity:none\"/></g></svg>" : Text)
      ∧ List.Forall₂ (PlaceSettles 3) (places [] d.root.forest) (places [] d'.root.forest) := by
  have hwrite : ((readDocument sampleSettings).bind (shortenAttributes 3)).toOption.map
        (·.root.write)
      = some ("<svg style=\"opacity:0.5\"><g opacity=\"1\" fill-opacity=\"0.333\">"
        ++ "<a fill-opacity=\"1\" style=\"stroke-opacity:none\"/></g></svg>" : Text) := by
    decide +kernel
  cases hread : readDocument sampleSettings with
  | error e =>
      rw [hread] at hwrite
      cases hwrite
  | ok d =>
      obtain ⟨made, hd⟩ := sound_of_ofText? (readDocument_eq_ok.mp hread).2.1
      have hdistinct : ∀ h ∈ d.root.heads, DistinctNames h.attributes := by
        rw [Element.heads_eq]
        exact fun h hh => (hd.tree.heads h hh).distinct
      obtain ⟨d', hshort, hplaces⟩ := effectiveValue_shortenAttributes (by decide : (0 : Int) ≤ 3)
        hdistinct
      have hbind : (Except.ok d).bind (shortenAttributes 3) = .ok d' := hshort
      rw [hread, hbind] at hwrite
      exact ⟨d, d', rfl, hdistinct, hshort, Option.some.inj hwrite, hplaces⟩

end Minify

end SvgKit
