import SvgKit.Proofs.Xml.Sound
import Mathlib.Data.List.Perm.Subperm

/-! Declarations in scope, and new ones: a declaration found for a namespace has its name, and
the label of a new declaration means nothing yet in its place.
-/

namespace SvgKit.Xml

-----------------------------------------------------------------------------------------
-- Declarations in scope
-----------------------------------------------------------------------------------------

/-- The declarations of the heads on a path, and those that their names use, are in the
ledger.
-/
def PathSound (made : List Binding) (path : List Head) : Prop :=
  ∀ h ∈ path, ∀ b ∈ h.bindings ++ h.name.binding.toList, b ∈ made

theorem PathSound.nil {made : List Binding} : PathSound made [] := by
  simp [PathSound]

theorem PathSound.cons {made : List Binding} {h : Head} {path : List Head}
    (hh : ∀ b ∈ h.bindings ++ h.name.binding.toList, b ∈ made) (hpath : PathSound made path)
    : PathSound made (h :: path) :=
  List.forall_mem_cons.mpr ⟨hh, hpath⟩

theorem PathSound.mono {made more : List Binding} {path : List Head}
    (h : PathSound made path) (hsub : made ⊆ more)
    : PathSound more path :=
  fun head hh b hb => hsub (h head hh b hb)

theorem Head.Sound.mem_made {made : List Binding} {h : Head} (hs : h.Sound made)
    : ∀ b ∈ h.bindings ++ h.name.binding.toList, b ∈ made := by
  intro b hb
  rcases List.mem_append.mp hb with hb | hb
  · exact (hs.bindings b hb).1
  · exact (hs.name.binding b (Option.mem_toList.mp hb)).1

theorem mem_of_mem_bindingsOnPath {made : List Binding} {path : List Head} {b : Binding}
    (hpath : PathSound made path) (hb : b ∈ bindingsOnPath path)
    : b ∈ made := by
  cases path with
  | nil => simp [bindingsOnPath] at hb
  | cons h outer =>
      rcases List.mem_append.mp hb with hb | hb
      · exact hpath h List.mem_cons_self b (List.mem_append_left _ hb)
      · obtain ⟨h', hh', hb⟩ := List.mem_flatMap.mp hb
        exact hpath h' (List.mem_cons_of_mem _ hh') b hb

/-- A declaration found for a namespace has its name and, for an attribute, a label. -/
theorem usableBinding?_spec {made : List Binding} {path : List Head} {isAttribute : Bool}
    {uri : Text} {b : Binding} (hxml : .xml ∈ made) (hpath : PathSound made path)
    (h : usableBinding? path isAttribute uri = some b)
    : b ∈ made ∧ b.uri = uri ∧ (isAttribute → b.label ≠ none) := by
  unfold usableBinding? at h
  split at h
  · next huri =>
      cases h
      exact ⟨hxml, huri.symm, fun _ => by simp [Binding.xml]⟩
  · have hmem := mem_of_mem_bindingsOnPath hpath (List.mem_of_find?_eq_some h)
    have hb := List.find?_some h
    simp only [Bool.and_eq_true, decide_eq_true_eq] at hb
    refine ⟨hmem, hb.1.1, ?_⟩
    rintro rfl hnone
    simp [hnone] at hb

/-- A declaration of a namespace that is in scope has its name, by induction over the path. -/
theorem declaredBefore?_spec {made : List Binding} {path : List Head} {uri : Text}
    {passed : List Binding} {b : Binding} (hpath : PathSound made path)
    (h : declaredBefore? uri passed path = some b)
    : b ∈ made ∧ b.uri = uri := by
  induction path generalizing passed with
  | nil => simp [declaredBefore?] at h
  | cons head outer ih =>
      unfold declaredBefore? at h
      dsimp only at h
      split at h
      · next found =>
          cases h
          have hb := List.find?_some found
          simp only [Bool.and_eq_true, decide_eq_true_eq] at hb
          exact ⟨hpath head List.mem_cons_self _ (List.mem_of_find?_eq_some found), hb.1⟩
      · exact ih (fun h' hh' => hpath h' (List.mem_cons_of_mem _ hh')) h

theorem declared?_spec {made : List Binding} {path : List Head} {uri : Text} {b : Binding}
    (hpath : PathSound made path) (h : declared? path uri = some b)
    : b ∈ made ∧ b.uri = uri := by
  unfold declared? at h
  split at h
  · cases h
  · next head outer =>
      split at h
      · next found =>
          cases h
          refine ⟨hpath head List.mem_cons_self _ ?_, by simpa using List.find?_some found⟩
          exact List.mem_append_left _ (List.mem_of_find?_eq_some found)
      · exact declaredBefore?_spec (fun h' hh' => hpath h' (List.mem_cons_of_mem _ hh')) h

-----------------------------------------------------------------------------------------
-- New labels
-----------------------------------------------------------------------------------------

theorem numberedLabel_injective {n m : Nat} (h : numberedLabel n = numberedLabel m)
    : n = m := by
  have hdigits : Nat.toDigits 10 n = Nat.toDigits 10 m := List.append_cancel_left h
  rw [← Nat.ofDigitChars_toDigits (b := 10) (n := n) (by decide) (by decide), hdigits,
    Nat.ofDigitChars_toDigits (by decide) (by decide)]

theorem isName_numberedLabel (n : Nat) : IsName (numberedLabel n) := by
  have hs : ("ns" : Text) = ['n', 's'] := by simp [Text.ofString]
  rw [numberedLabel, hs, List.cons_append]
  refine ⟨by decide, ?_⟩
  intro c hc
  rcases List.mem_cons.mp hc with rfl | hc
  · decide
  · have hdigit : c.isDigit := Nat.isDigit_of_mem_toDigits (by decide) (by decide) hc
    simp [isNameChar, hdigit]

theorem numberedLabel_ne {n : Nat} {label : Text} (h : label.head? ≠ some 'n')
    : numberedLabel n ≠ label := by
  have hs : ("ns" : Text) = ['n', 's'] := by simp [Text.ofString]
  rintro rfl
  exact h (by rw [numberedLabel, hs]; rfl)

/-- Either the label is free, or all that were tried are taken, by induction over their
count.
-/
theorem freeLabel_cases (taken : Text → Bool) (count n : Nat)
    : taken (freeLabel taken count n).1 = false
      ∨ ∀ i ≤ count, taken (numberedLabel (n + i)) = true := by
  induction count generalizing n with
  | zero =>
      cases h : taken (numberedLabel n) with
      | false => exact .inl h
      | true =>
          refine .inr fun i hi => ?_
          obtain rfl : i = 0 := Nat.le_zero.mp hi
          exact h
  | succ count ih =>
      cases h : taken (numberedLabel n) with
      | false => exact .inl (by simp [freeLabel, h])
      | true =>
          rcases ih (n + 1) with hfree | hall
          · exact .inl (by simpa [freeLabel, h] using hfree)
          · refine .inr fun i hi => ?_
            cases i with
            | zero => exact h
            | succ i =>
                have := hall i (Nat.le_of_succ_le_succ hi)
                rwa [Nat.add_right_comm] at this

/-- The label is a numbered one. -/
theorem freeLabel_eq (taken : Text → Bool) (count n : Nat)
    : ∃ m, (freeLabel taken count n).1 = numberedLabel m := by
  induction count generalizing n with
  | zero => exact ⟨n, rfl⟩
  | succ count ih =>
      unfold freeLabel
      split
      · exact ih (n + 1)
      · exact ⟨n, rfl⟩

theorem labelOnPath?_isSome {path : List Head} {label : Text}
    (h : (labelOnPath? path (some label)).isSome) (hxml : label ≠ ("xml" : Text))
    : some label ∈ (bindingsOnPath path).map (·.label) := by
  rw [labelOnPath?, if_neg (by simpa using hxml), List.find?_isSome] at h
  obtain ⟨b, hb, hlabel⟩ := h
  exact List.mem_map.mpr ⟨b, hb, by simpa using hlabel⟩

theorem not_mem_of_labelOnPath?_eq_none {path : List Head} {label : Text}
    (h : (labelOnPath? path (some label)).isSome = false)
    : label ≠ ("xml" : Text) ∧ some label ∉ (bindingsOnPath path).map (·.label) := by
  have hxml : label ≠ ("xml" : Text) := by
    rintro rfl
    simp [labelOnPath?] at h
  refine ⟨hxml, ?_⟩
  intro hmem
  obtain ⟨b, hb, hlabel⟩ := List.mem_map.mp hmem
  rw [labelOnPath?, if_neg (by simpa using hxml)] at h
  have : ((bindingsOnPath path).find? (·.label = some label)).isSome :=
    List.find?_isSome.mpr ⟨b, hb, by simpa using hlabel⟩
  simp [h] at this

/-- There are more numbered labels to try than declarations, so one of them is free. -/
theorem freeLabel_free (path : List Head) (n : Nat)
    : (labelOnPath? path (some (freeLabel (fun label => (labelOnPath? path (some label)).isSome)
        (bindingsOnPath path).length n).1)).isSome = false := by
  rcases freeLabel_cases (fun label => (labelOnPath? path (some label)).isSome)
    (bindingsOnPath path).length n with h | hall
  · exact h
  · exfalso
    let labels := (List.range ((bindingsOnPath path).length + 1)).map
      fun i => some (numberedLabel (n + i))
    have hnodup : labels.Nodup := by
      refine List.Nodup.map ?_ List.nodup_range
      intro i j hij
      have := numberedLabel_injective (Option.some.inj hij)
      omega
    have hsub : labels ⊆ (bindingsOnPath path).map (·.label) := by
      intro label hlabel
      obtain ⟨i, hi, rfl⟩ := List.mem_map.mp hlabel
      have hle : i ≤ (bindingsOnPath path).length :=
        Nat.le_of_lt_succ (List.mem_range.mp hi)
      exact labelOnPath?_isSome (hall i hle)
        (numberedLabel_ne (by simp [Text.ofString]))
    have hlength := (List.subperm_of_subset hnodup hsub).length_le
    simp only [labels, List.length_map, List.length_range] at hlength
    omega

/-- A label that a declaration may have. -/
structure IsLabel (label : Text) : Prop where
  isName : IsName label
  ne_xmlns : label ≠ ("xmlns" : Text)

theorem isLabel_of_knownLabel {uri label : Text} (h : knownLabels.lookup uri = some label)
    : IsLabel label := by
  have hmem : label ∈ knownLabels.map (·.2) := List.mem_map_of_mem (mem_of_lookup_eq_some h)
  simp only [knownLabels, List.map_cons, List.map_nil, List.mem_cons, List.not_mem_nil,
    or_false] at hmem
  constructor
  · rcases hmem with rfl | rfl | rfl | rfl | rfl | rfl | rfl | rfl | rfl <;>
      (simp [IsName, Text.ofString]; decide)
  · rcases hmem with rfl | rfl | rfl | rfl | rfl | rfl | rfl | rfl | rfl <;>
      simp [Text.ofString]

theorem isLabel_numberedLabel (n : Nat) : IsLabel (numberedLabel n) :=
  ⟨isName_numberedLabel n, numberedLabel_ne (by simp [Text.ofString])⟩

/-- The label of a new declaration means nothing yet in its place. -/
theorem newLabel_spec (path : List Head) (uri : Text) {wanted : Option Text} (n : Nat)
    (hwanted : ∀ label, wanted = some label → IsLabel label)
    : IsLabel (newLabel path uri wanted n).1
      ∧ (labelOnPath? path (some (newLabel path uri wanted n).1)).isSome = false := by
  have hnumbered :
      IsLabel (freeLabel (fun label => (labelOnPath? path (some label)).isSome)
        (bindingsOnPath path).length n).1 := by
    obtain ⟨m, hm⟩ := freeLabel_eq (fun label => (labelOnPath? path (some label)).isSome)
      (bindingsOnPath path).length n
    rw [hm]
    exact isLabel_numberedLabel m
  unfold newLabel
  dsimp only
  split
  · next label hlabel =>
      split
      · exact ⟨hnumbered, freeLabel_free path n⟩
      · next hfree =>
          refine ⟨?_, by simpa using hfree⟩
          cases wanted with
          | some w => exact hwanted label hlabel
          | none => exact isLabel_of_knownLabel hlabel
  · exact ⟨hnumbered, freeLabel_free path n⟩

theorem Ledger.isLabel {next : Nat} {made : List Binding} (h : Ledger next made)
    {b : Binding} (hb : b ∈ made) {label : Text} (hl : b.label = some label)
    : IsLabel label :=
  ⟨h.isName_label hb hl, fun heq => h.label_ne_xmlns hb (heq ▸ hl)⟩

-----------------------------------------------------------------------------------------
-- New declarations
-----------------------------------------------------------------------------------------

/-- A namespace that a declaration in the ledger declares may be declared under any label. -/
theorem Ledger.sound_of_uri {next : Nat} {made : List Binding} (h : Ledger next made)
    {old new : Binding} (hold : old ∈ made) (huri : new.uri = old.uri) (hne : new.uri ≠ [])
    (hxml : new.uri ≠ xmlUri) {label : Text} (hnew : new.label = some label)
    (hlabel : IsLabel label) (hnotXml : label ≠ ("xml" : Text))
    : new.Sound := by
  rcases h.sound old hold with rfl | hs
  · exact absurd huri hxml
  · refine ⟨?_, by simpa [hnew] using hnotXml, ?_, by simpa [huri] using hs.uri⟩
    · intro l hl
      rw [hnew] at hl
      cases hl
      exact hlabel.isName
    · have hmay := hs.mayDeclare
      rw [hnew, mayDeclare, if_neg hnotXml]
      rw [← huri] at hmay
      unfold mayDeclare at hmay
      split at hmay
      · simpa [hlabel.ne_xmlns, hne] using hmay
      · split at hmay
        · exact absurd (by simpa using hmay) hxml
        · simp only [Bool.and_eq_true] at hmay ⊢
          exact ⟨⟨⟨⟨by simpa using hlabel.ne_xmlns, hmay.1.1.1.2⟩, hmay.1.1.2⟩, hmay.1.2⟩,
            hmay.2⟩

/-- What finding or making a declaration of a namespace gives: a declaration in the ledger,
which has grown by it if it is new. A new one has a label that no declaration on the path has.
-/
structure Declares (made : List Binding) (path : List Head) (isAttribute : Bool) (uri : Text)
    (supply : Supply) (result : Binding × Bool × Supply) (made' : List Binding) : Prop where
  sub : made ⊆ made'
  ledger : Ledger result.2.2.mark made'
  mem : result.1 ∈ made'
  uri : result.1.uri = uri
  labelled : isAttribute → result.1.label ≠ none
  fresh : result.2.1 → result.1.label ≠ some ("xml" : Text)
    ∧ result.1.label ∉ (bindingsOnPath path).map (·.label)
  unchanged : result.2.1 = false → result.2.2 = supply

/-- A declaration is found, or a new one takes the next mark. -/
theorem findOrDeclare_spec {made : List Binding} {path : List Head} {old : Binding}
    {supply : Supply} (isAttribute : Bool) (wanted : Option Text)
    (hledger : Ledger supply.mark made) (hpath : PathSound made path) (hold : old ∈ made)
    (hne : old.uri ≠ []) (hwanted : ∀ label, wanted = some label → IsLabel label)
    : ∃ made', Declares made path isAttribute old.uri supply
        (findOrDeclare path isAttribute old.uri wanted supply) made' := by
  unfold findOrDeclare
  split
  · next b hb =>
      obtain ⟨hmem, huri, hlabel⟩ := usableBinding?_spec hledger.xml hpath hb
      exact ⟨made, fun _ h => h, hledger, hmem, huri, hlabel, by simp, fun _ => rfl⟩
  · next hnone =>
      have hxml : old.uri ≠ xmlUri := by
        intro huri
        simp [usableBinding?, huri] at hnone
      obtain ⟨hlabel, hfree⟩ := newLabel_spec path old.uri supply.label hwanted
      obtain ⟨hnotXml, hfresh⟩ := not_mem_of_labelOnPath?_eq_none hfree
      generalize newLabel path old.uri wanted supply.label = made? at *
      obtain ⟨label, next⟩ := made?
      let new : Binding := ⟨supply.mark, some label, old.uri⟩
      have hnew : new.Sound :=
        hledger.sound_of_uri hold rfl hne hxml rfl hlabel hnotXml
      exact ⟨made ++ [new], {
        sub := List.subset_append_left _ _
        ledger := hledger.append rfl hnew
        mem := List.mem_append_right _ List.mem_cons_self
        uri := rfl
        labelled := fun _ => by simp
        fresh := fun _ => ⟨by simpa using hnotXml, hfresh⟩
        unchanged := by simp }⟩

end SvgKit.Xml
