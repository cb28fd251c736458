import SvgKit.Proofs.Json.StringLiteral
import SvgKit.Proofs.Text.Splitting
import Mathlib.Data.List.Forall2
import Mathlib.Data.List.Nodup
import Mathlib.Data.List.Perm.Basic

/-! The compact form of JSON values. Two values have the same compact form exactly if they are
equal up to the order of members, and a compact form can be told apart from what follows it.
-/

namespace SvgKit.Json

-----------------------------------------------------------------------------------------
-- Values
-----------------------------------------------------------------------------------------

/-- A value without fractions in which an object has each name once. -/
inductive IsExact : Json → Prop where
  | null : IsExact .null
  | bool (b : Bool) : IsExact (.bool b)
  | int (n : Int) : IsExact (.int n)
  | string (s : Text) : IsExact (.string s)
  | array {items : List Json} (values : ∀ v ∈ items, IsExact v) : IsExact (.array items)
  | object {members : List (Text × Json)} (names : (members.map Prod.fst).Nodup)
      (values : ∀ m ∈ members, IsExact m.2) : IsExact (.object members)

/-- Two values are equal up to the order of the members of objects: objects have the same names,
and the same values under each of them.
-/
inductive Same : Json → Json → Prop where
  | null : Same .null .null
  | bool (b : Bool) : Same (.bool b) (.bool b)
  | number (mantissa : Int) (places : Nat)
      : Same (.number mantissa places) (.number mantissa places)
  | string (s : Text) : Same (.string s) (.string s)
  | array {items items' : List Json} (values : List.Forall₂ Same items items')
      : Same (.array items) (.array items')
  | object {members members' : List (Text × Json)}
      (names : ∀ name, name ∈ members.map Prod.fst ↔ name ∈ members'.map Prod.fst)
      (values : ∀ name v v', (name, v) ∈ members → (name, v') ∈ members' → Same v v')
      : Same (.object members) (.object members')

theorem compactItems_eq (items : List Json) : compactItems items = items.map compact := by
  induction items with
  | nil => rfl
  | cons v items ih => rw [compactItems, ih, List.map_cons]

theorem compactMembers_eq (members : List (Text × Json))
    : compactMembers members = members.map fun m => (m.1, m.2.compact) := by
  induction members with
  | nil => rfl
  | cons m members ih => rw [compactMembers, ih, List.map_cons]

/-- A member of an object as it is written. -/
def memberText (m : Text × Text) : Text := asciiString m.1 ++ ':' :: m.2

/-- The members of an object as they are written, in the order of their names. -/
def sortedMembers (members : List (Text × Json)) : List (Text × Text) :=
  sortMembers (members.map fun m => (m.1, m.2.compact))

theorem compact_array (items : List Json)
    : (Json.array items).compact
      = '[' :: (Text.join [','] (items.map compact) ++ [']']) := by
  rw [compact, compactItems_eq, List.cons_append]

theorem compact_object (members : List (Text × Json))
    : (Json.object members).compact
      = '{' :: (Text.join [','] ((sortedMembers members).map memberText) ++ ['}']) := by
  rw [compact, compactMembers_eq]
  rfl

theorem compact_int (n : Int) : (Json.int n).compact = intText n := by
  rw [int, compact, numberText, if_pos rfl]

-----------------------------------------------------------------------------------------
-- Sorted members
-----------------------------------------------------------------------------------------

theorem mem_sortedMembers {members : List (Text × Json)} {m : Text × Text}
    : m ∈ sortedMembers members ↔ ∃ v, (m.1, v) ∈ members ∧ v.compact = m.2 := by
  rw [sortedMembers, sortMembers, (List.mergeSort_perm _ _).mem_iff, List.mem_map]
  constructor
  · rintro ⟨⟨name, v⟩, hmem, rfl⟩
    exact ⟨v, hmem, rfl⟩
  · rintro ⟨v, hmem, hv⟩
    exact ⟨(m.1, v), hmem, by rw [hv]⟩

/-- The order of sorted members. -/
def precedes (a b : Text × Text) : Bool := !List.lex b.1 a.1 fun x y => x.val < y.val

theorem precedes_iff {a b : Text × Text} : precedes a b ↔ List.le a.1 b.1 := by
  have hlex : (List.lex b.1 a.1 fun x y => x.val < y.val) ↔ List.lt b.1 a.1 :=
    List.lex_eq_true_iff_lt
  rw [precedes, Bool.not_eq_true', ← Bool.not_eq_true, hlex]
  rfl

/-- Members with names of their own are sorted alike in whatever order they are given. -/
theorem sortMembers_eq_of_perm {members members' : List (Text × Text)}
    (hperm : members.Perm members') (hnames : (members.map Prod.fst).Nodup)
    : sortMembers members = sortMembers members' := by
  have htrans : ∀ a b c : Text × Text, precedes a b → precedes b c → precedes a c := by
    simp only [precedes_iff]
    exact fun a b c => List.le_trans
  have htotal : ∀ a b : Text × Text, precedes a b || precedes b a := by
    intro a b
    rw [Bool.or_eq_true, precedes_iff, precedes_iff]
    exact List.le_total _ _
  have hsorted (members : List (Text × Text))
      : (sortMembers members).Pairwise fun a b => precedes a b :=
    List.pairwise_mergeSort htrans htotal members
  have hleft := List.mergeSort_perm members precedes
  have hright := List.mergeSort_perm members' precedes
  refine List.Perm.eq_of_pairwise ?_ (hsorted members) (hsorted members')
    (hleft.trans (hperm.trans hright.symm))
  intro a b ha hb hab hba
  have hmem := hleft.mem_iff.mp ha
  have hmem' := hperm.mem_iff.mpr (hright.mem_iff.mp hb)
  exact List.inj_on_of_nodup_map hnames hmem hmem'
    (List.le_antisymm (precedes_iff.mp hab) (precedes_iff.mp hba))

-----------------------------------------------------------------------------------------
-- What follows
-----------------------------------------------------------------------------------------

/-- Two texts that are equal as soon as they are equal with something behind them that does not
begin with a digit.
-/
def Separates (s t : Text) : Prop :=
  ∀ front back, Stops Char.isDigit front → Stops Char.isDigit back →
    s ++ front = t ++ back → s = t ∧ front = back

theorem Separates.of_head_ne {s t : Text} {c d : Char} (hs : s.head? = some c)
    (ht : t.head? = some d) (hne : c ≠ d)
    : Separates s t := by
  intro front back _ _ h
  have hhead := congrArg List.head? h
  rw [List.head?_append, List.head?_append, hs, ht] at hhead
  exact absurd (Option.some.inj hhead) hne

theorem stops_nil : Stops Char.isDigit ([] : Text) := by rintro _ ⟨⟩

theorem stops_of_not_isDigit {c : Char} (hc : c.isDigit = false) (s : Text)
    : Stops Char.isDigit (c :: s) := by
  rintro _ ⟨⟩
  exact hc

theorem Separates.cons {s t : Text} (h : Separates s t) (c : Char)
    : Separates (c :: s) (c :: t) := by
  intro front back hfront hback heq
  obtain ⟨hst, hrest⟩ := h _ _ hfront hback (List.cons.inj heq).2
  exact ⟨by rw [hst], hrest⟩

theorem separates_digits {s t : Text} (hs : ∀ c ∈ s, c.isDigit) (ht : ∀ c ∈ t, c.isDigit)
    : Separates s t := by
  intro front back hfront hback h
  have htake := congrArg (List.takeWhile Char.isDigit) h
  rw [takeWhile_append_stops hs hfront, takeWhile_append_stops ht hback] at htake
  subst htake
  exact ⟨rfl, List.append_cancel_left h⟩

/-- A member is told apart from another one by its name and the text of its value. -/
theorem separates_memberText {m m' : Text × Text} (h : Separates m.2 m'.2)
    : Separates (memberText m) (memberText m') := by
  intro front back hfront hback heq
  rw [memberText, memberText, List.append_assoc, List.append_assoc] at heq
  obtain ⟨hname, hrest⟩ := asciiString_append_inj heq
  obtain ⟨hvalue, hrest⟩ := h _ _ hfront hback (List.cons.inj hrest).2
  exact ⟨by rw [memberText, memberText, hname, hvalue], hrest⟩

theorem memberText_injective : Function.Injective memberText := by
  intro m m' h
  obtain ⟨hname, hvalue⟩ := asciiString_append_inj h
  exact Prod.ext hname (List.cons.inj hvalue).2

/-- Parts behind commas are told apart if each two of them are, by induction over the parts. -/
theorem commas_append_inj {close : Char} (hclose : close ≠ ',') (hdigit : close.isDigit = false)
    {parts parts' : List Text} (hparts : ∀ s ∈ parts, ∀ t ∈ parts', Separates s t)
    {front back : Text}
    (h : parts.flatMap (',' :: ·) ++ close :: front = parts'.flatMap (',' :: ·) ++ close :: back)
    : parts = parts' ∧ front = back := by
  have hstops (parts : List Text) (rest : Text)
      : Stops Char.isDigit (parts.flatMap (',' :: ·) ++ close :: rest) := by
    cases parts with
    | nil => exact stops_of_not_isDigit hdigit _
    | cons part parts => exact stops_of_not_isDigit (by decide) _
  induction parts generalizing parts' with
  | nil =>
      cases parts' with
      | nil => exact ⟨rfl, (List.cons.inj h).2⟩
      | cons part' parts' => exact absurd (List.cons.inj h).1 hclose
  | cons part parts ih =>
      cases parts' with
      | nil => exact absurd (List.cons.inj h).1.symm hclose
      | cons part' parts' =>
          simp only [List.flatMap_cons, List.cons_append, List.append_assoc, List.cons.injEq,
            true_and] at h
          obtain ⟨rfl, hrest⟩ := hparts part List.mem_cons_self part' List.mem_cons_self _ _
            (hstops parts front) (hstops parts' back) h
          obtain ⟨rfl, hbehind⟩ := ih (fun s hs t ht =>
            hparts s (List.mem_cons_of_mem _ hs) t (List.mem_cons_of_mem _ ht)) hrest
          exact ⟨rfl, hbehind⟩

theorem join_comma_cons (part : Text) (parts : List Text)
    : Text.join [','] (part :: parts) = part ++ parts.flatMap (',' :: ·) := by
  induction parts generalizing part with
  | nil => rw [Text.join_singleton, List.flatMap_nil, List.append_nil]
  | cons next parts ih =>
      rw [Text.join_cons _ _ (List.cons_ne_nil _ _), ih, List.flatMap_cons]
      rfl

/-- Joined parts in front of a closing bracket are told apart if each two of them are and none
begins with the bracket.
-/
theorem join_append_inj {close : Char} (hclose : close ≠ ',') (hdigit : close.isDigit = false)
    {parts parts' : List Text} (hparts : ∀ s ∈ parts, ∀ t ∈ parts', Separates s t)
    (hhead : ∀ s ∈ parts ++ parts', ∃ c ∈ s.head?, c ≠ close) {front back : Text}
    (h : Text.join [','] parts ++ close :: front = Text.join [','] parts' ++ close :: back)
    : parts = parts' ∧ front = back := by
  have hempty {part : Text} {parts : List Text} {front back : Text}
      (hpart : ∃ c ∈ part.head?, c ≠ close)
      (h : close :: front = Text.join [','] (part :: parts) ++ back) : False := by
    obtain ⟨c, hc, hne⟩ := hpart
    rw [join_comma_cons, List.append_assoc] at h
    have := congrArg List.head? h
    rw [List.head?_append, Option.mem_def.mp hc] at this
    exact hne (Option.some.inj this).symm
  cases parts with
  | nil =>
      cases parts' with
      | nil => exact ⟨rfl, (List.cons.inj h).2⟩
      | cons part' parts' => exact (hempty (hhead part' (by simp)) h).elim
  | cons part parts =>
      cases parts' with
      | nil => exact (hempty (hhead part (by simp)) h.symm).elim
      | cons part' parts' =>
          rw [join_comma_cons, join_comma_cons] at h
          refine commas_append_inj hclose hdigit hparts (?_ : _ = _)
          simpa using h

-----------------------------------------------------------------------------------------
-- Kinds of values
-----------------------------------------------------------------------------------------

/-- The kind of what a character begins; all digits and the minus sign begin numbers. -/
def kindOf (c : Char) : Char :=
  if c = '-' || c.isDigit then '0'
  else if c = 'f' then 't'
  else c

/-- The kind of a value. -/
def kind : Json → Char
  | .null => 'n'
  | .bool _ => 't'
  | .number _ _ => '0'
  | .string _ => '"'
  | .array _ => '['
  | .object _ => '{'

theorem exists_head_intText (n : Int) : ∃ c ∈ (intText n).head?, kindOf c = '0' := by
  unfold intText
  split
  · exact ⟨'-', rfl, rfl⟩
  · obtain ⟨c, hc⟩ : ∃ c, (Text.ofNat n.natAbs).head? = some c :=
      ⟨_, List.head?_eq_some_head Nat.toDigits_ne_nil⟩
    refine ⟨c, hc, ?_⟩
    have hdigit : c.isDigit :=
      Nat.isDigit_of_mem_toDigits (by decide) (by decide) (List.mem_of_mem_head? hc)
    simp [kindOf, hdigit]

/-- The first character of a compact form tells the kind of the value. -/
theorem exists_head_compact {v : Json} (hv : v.IsExact)
    : ∃ c ∈ v.compact.head?, kindOf c = v.kind := by
  cases hv with
  | null => exact ⟨'n', by rw [compact, Text.ofString]; rfl, rfl⟩
  | bool b =>
      cases b
      · exact ⟨'f', by rw [compact, Text.ofString]; rfl, rfl⟩
      · exact ⟨'t', by rw [compact, Text.ofString]; rfl, rfl⟩
  | int n =>
      rw [compact_int]
      exact exists_head_intText n
  | string s => exact ⟨'"', by rw [compact]; rfl, rfl⟩
  | array _ => exact ⟨'[', by rw [compact_array]; rfl, rfl⟩
  | object _ _ => exact ⟨'{', by rw [compact_object]; rfl, rfl⟩

/-- Compact forms that are equal with what follows them are of values of one kind. -/
theorem kind_eq_of_append {v v' : Json} (hv : v.IsExact) (hv' : v'.IsExact) {front back : Text}
    (h : v.compact ++ front = v'.compact ++ back)
    : v.kind = v'.kind := by
  obtain ⟨c, hc, hkind⟩ := exists_head_compact hv
  obtain ⟨d, hd, hkind'⟩ := exists_head_compact hv'
  have hhead := congrArg List.head? h
  rw [List.head?_append, List.head?_append, hc, hd] at hhead
  rw [← hkind, ← hkind', Option.some.inj hhead]

theorem separates_intText (n n' : Int) : Separates (intText n) (intText n') := by
  have hdigits (n : Nat) : ∀ c ∈ Text.ofNat n, c.isDigit := fun c hc =>
    Nat.isDigit_of_mem_toDigits (by decide) (by decide) hc
  have hsign {n n' : Nat} : Separates ('-' :: Text.ofNat n) (Text.ofNat n') := by
    obtain ⟨c, hc⟩ : ∃ c, (Text.ofNat n').head? = some c :=
      ⟨_, List.head?_eq_some_head Nat.toDigits_ne_nil⟩
    refine .of_head_ne rfl hc ?_
    rintro rfl
    exact absurd (hdigits n' _ (List.mem_of_mem_head? hc)) (by decide)
  have hflip {n n' : Nat} : Separates (Text.ofNat n) ('-' :: Text.ofNat n') := by
    intro front back hfront hback h
    obtain ⟨hst, hrest⟩ := hsign _ _ hback hfront h.symm
    exact ⟨hst.symm, hrest.symm⟩
  unfold intText
  split <;> split
  · exact (separates_digits (hdigits _) (hdigits _)).cons '-'
  · exact hsign
  · exact hflip
  · exact separates_digits (hdigits _) (hdigits _)

theorem intText_injective : Function.Injective intText := by
  intro n n' h
  have hnat {n n' : Nat} (h : Text.ofNat n = Text.ofNat n') : n = n' := by
    rw [← Nat.ofDigitChars_ten_toDigits (n := n), ← Nat.ofDigitChars_ten_toDigits (n := n')]
    exact congrArg (Nat.ofDigitChars 10 · 0) h
  have hsign {n n' : Nat} : '-' :: Text.ofNat n ≠ Text.ofNat n' := by
    intro h
    have hmem : '-' ∈ Text.ofNat n' := by
      rw [← h]
      exact List.mem_cons_self
    have hdigit := Nat.isDigit_of_mem_toDigits (by decide) (by decide) hmem
    exact absurd hdigit (by decide)
  unfold intText at h
  split at h <;> split at h
  · have := hnat (List.cons.inj h).2
    omega
  · exact absurd h hsign
  · exact absurd h.symm hsign
  · have := hnat h
    omega

-----------------------------------------------------------------------------------------
-- Compact forms
-----------------------------------------------------------------------------------------

theorem exists_head_ne_close {v : Json} (hv : v.IsExact) : ∃ c ∈ v.compact.head?, c ≠ ']' := by
  obtain ⟨c, hc, hkind⟩ := exists_head_compact hv
  refine ⟨c, hc, ?_⟩
  rintro rfl
  have hclose : kindOf ']' = ']' := rfl
  cases v <;> simp [kind, hclose] at hkind

theorem array_append_inj {items items' : List Json} (hitems : ∀ v ∈ items, v.IsExact)
    (hitems' : ∀ v ∈ items', v.IsExact)
    (hparts : ∀ v ∈ items, ∀ v' ∈ items', Separates v.compact v'.compact) {front back : Text}
    (h : (Json.array items).compact ++ front = (Json.array items').compact ++ back)
    : items.map compact = items'.map compact ∧ front = back := by
  rw [compact_array, compact_array, List.cons_append, List.cons_append, List.append_assoc,
    List.append_assoc] at h
  have hrest := (List.cons.inj h).2
  refine join_append_inj (by decide) (by decide) ?_ ?_ hrest
  · simp only [List.mem_map]
    rintro _ ⟨v, hmem, rfl⟩ _ ⟨v', hmem', rfl⟩
    exact hparts v hmem v' hmem'
  · simp only [List.mem_append, List.mem_map]
    rintro _ (⟨v, hmem, rfl⟩ | ⟨v, hmem, rfl⟩)
    · exact exists_head_ne_close (hitems v hmem)
    · exact exists_head_ne_close (hitems' v hmem)

theorem object_append_inj {members members' : List (Text × Json)}
    (hparts : ∀ m ∈ members, ∀ m' ∈ members', Separates m.2.compact m'.2.compact)
    {front back : Text}
    (h : (Json.object members).compact ++ front = (Json.object members').compact ++ back)
    : sortedMembers members = sortedMembers members' ∧ front = back := by
  rw [compact_object, compact_object, List.cons_append, List.cons_append, List.append_assoc,
    List.append_assoc] at h
  have hrest := (List.cons.inj h).2
  have htexts : ∀ s ∈ (sortedMembers members).map memberText,
      ∀ t ∈ (sortedMembers members').map memberText, Separates s t := by
    simp only [List.mem_map]
    rintro _ ⟨m, hmem, rfl⟩ _ ⟨m', hmem', rfl⟩
    obtain ⟨v, hv, htext⟩ := mem_sortedMembers.mp hmem
    obtain ⟨v', hv', htext'⟩ := mem_sortedMembers.mp hmem'
    have hvalues := hparts _ hv _ hv'
    rw [htext, htext'] at hvalues
    exact separates_memberText hvalues
  have hheads : ∀ s ∈ (sortedMembers members).map memberText
      ++ (sortedMembers members').map memberText, ∃ c ∈ s.head?, c ≠ '}' := by
    simp only [List.mem_append, List.mem_map]
    rintro _ (⟨m, _, rfl⟩ | ⟨m, _, rfl⟩) <;> exact ⟨'"', rfl, by decide⟩
  obtain ⟨hmembers, hbehind⟩ := join_append_inj (by decide) (by decide) htexts hheads hrest
  exact ⟨memberText_injective.list_map hmembers, hbehind⟩

-----------------------------------------------------------------------------------------
-- Equality
-----------------------------------------------------------------------------------------

theorem forall₂_imp_of_mem {R S : Json → Json → Prop} {items items' : List Json}
    (h : ∀ v ∈ items, ∀ v' ∈ items', R v v' → S v v') (hR : List.Forall₂ R items items')
    : List.Forall₂ S items items' := by
  refine List.forall₂_iff_zip.mpr ⟨hR.length_eq, fun hmem => ?_⟩
  obtain ⟨hleft, hright⟩ := List.of_mem_zip hmem
  exact h _ hleft _ hright (List.forall₂_zip hR hmem)

theorem map_compact_eq_iff {items items' : List Json}
    : items.map compact = items'.map compact
      ↔ List.Forall₂ (fun v v' => v.compact = v'.compact) items items' := by
  rw [← List.forall₂_eq_eq_eq, List.forall₂_map_left_iff, List.forall₂_map_right_iff]

theorem value_unique {members : List (Text × Json)} (hnames : (members.map Prod.fst).Nodup)
    {name : Text} {v w : Json} (hv : (name, v) ∈ members) (hw : (name, w) ∈ members)
    : v = w :=
  congrArg Prod.snd (List.inj_on_of_nodup_map hnames hv hw rfl)

theorem member_subset {members members' : List (Text × Json)}
    (hnames : members.map Prod.fst ⊆ members'.map Prod.fst)
    (hvalues : ∀ name v v', (name, v) ∈ members → (name, v') ∈ members' →
      v.compact = v'.compact)
    : (members.map fun m => (m.1, m.2.compact))
      ⊆ members'.map fun m => (m.1, m.2.compact) := by
  intro _ hmem
  obtain ⟨⟨name, v⟩, hv, rfl⟩ := List.mem_map.mp hmem
  obtain ⟨⟨_, v'⟩, hv', rfl⟩ := List.mem_map.mp (hnames (List.mem_map_of_mem hv))
  exact List.mem_map.mpr ⟨_, hv', by rw [hvalues _ v v' hv hv']⟩

theorem sortedMembers_eq {members members' : List (Text × Json)}
    (hnodup : (members.map Prod.fst).Nodup) (hnodup' : (members'.map Prod.fst).Nodup)
    (hnames : ∀ name, name ∈ members.map Prod.fst ↔ name ∈ members'.map Prod.fst)
    (hvalues : ∀ name v v', (name, v) ∈ members → (name, v') ∈ members' →
      v.compact = v'.compact)
    : sortedMembers members = sortedMembers members' := by
  have hfst (members : List (Text × Json))
      : (members.map fun m => (m.1, m.2.compact)).map Prod.fst = members.map Prod.fst := by
    rw [List.map_map]
    rfl
  refine sortMembers_eq_of_perm ?_ (by rwa [hfst])
  rw [List.perm_ext_iff_of_nodup (.of_map Prod.fst (by rwa [hfst]))
    (.of_map Prod.fst (by rwa [hfst]))]
  exact fun m => ⟨fun hm => member_subset (fun name => (hnames name).mp) hvalues hm,
    fun hm => member_subset (fun name => (hnames name).mpr)
      (fun name v' v hv' hv => (hvalues name v v' hv hv').symm) hm⟩

/-- Values that are equal up to the order of members have one compact form, by induction over the
first value.
-/
theorem compact_eq_of_same {v v' : Json} (hv : v.IsExact) (hv' : v'.IsExact) (h : Same v v')
    : v.compact = v'.compact := by
  induction hv generalizing v' with
  | @array items hitems ih =>
      cases h with
      | array hsame =>
          cases hv' with
          | array hitems' =>
              rw [compact_array, compact_array, map_compact_eq_iff.mpr
                (forall₂_imp_of_mem (fun v hmem v' hmem' => ih v hmem (hitems' v' hmem')) hsame)]
  | @object members hnodup hvalues ih =>
      cases h with
      | object hnames hsame =>
          cases hv' with
          | object hnodup' hvalues' =>
              rw [compact_object, compact_object, sortedMembers_eq hnodup hnodup' hnames]
              exact fun name v v' hv hv' => ih _ hv (hvalues' _ hv') (hsame name v v' hv hv')
  | _ => cases h; rfl

theorem exists_of_sortedMembers_eq {members members' : List (Text × Json)}
    (h : sortedMembers members = sortedMembers members') {name : Text} {v : Json}
    (hv : (name, v) ∈ members)
    : ∃ v', (name, v') ∈ members' ∧ v'.compact = v.compact := by
  have hmem : (name, v.compact) ∈ sortedMembers members := mem_sortedMembers.mpr ⟨v, hv, rfl⟩
  rw [h] at hmem
  exact mem_sortedMembers.mp hmem

theorem names_subset_of_sortedMembers_eq {members members' : List (Text × Json)}
    (h : sortedMembers members = sortedMembers members') {name : Text}
    (hname : name ∈ members.map Prod.fst)
    : name ∈ members'.map Prod.fst := by
  obtain ⟨⟨_, v⟩, hv, rfl⟩ := List.mem_map.mp hname
  obtain ⟨v', hv', _⟩ := exists_of_sortedMembers_eq h hv
  exact List.mem_map.mpr ⟨_, hv', rfl⟩

theorem separates_of_same {v v' : Json} (hv : v.IsExact) (hv' : v'.IsExact)
    (h : ∀ {front back : Text}, Stops Char.isDigit front → Stops Char.isDigit back →
      v.compact ++ front = v'.compact ++ back → Same v v' ∧ front = back)
    : Separates v.compact v'.compact := by
  intro front back hfront hback heq
  obtain ⟨hsame, hrest⟩ := h hfront hback heq
  exact ⟨compact_eq_of_same hv hv' hsame, hrest⟩

/-- Compact forms tell the values apart up to the order of members, whatever follows them, by
induction over the first value.
-/
theorem same_of_compact_append {v v' : Json} (hv : v.IsExact) (hv' : v'.IsExact)
    {front back : Text} (hfront : Stops Char.isDigit front) (hback : Stops Char.isDigit back)
    (h : v.compact ++ front = v'.compact ++ back)
    : Same v v' ∧ front = back := by
  induction hv generalizing v' front back with
  | null =>
      have hkind := kind_eq_of_append .null hv' h
      cases hv' with
      | null => exact ⟨.null, List.append_cancel_left h⟩
      | _ => simp [kind, Json.int] at hkind
  | bool b =>
      have hkind := kind_eq_of_append (.bool b) hv' h
      cases hv' with
      | bool b' =>
          cases b <;> cases b' <;> simp only [compact, Text.ofString] at h
          · exact ⟨.bool false, List.append_cancel_left h⟩
          · exact absurd (List.cons.inj h).1 (by decide : 'f' ≠ 't')
          · exact absurd (List.cons.inj h).1 (by decide : 't' ≠ 'f')
          · exact ⟨.bool true, List.append_cancel_left h⟩
      | _ => simp [kind, Json.int] at hkind
  | int n =>
      have hkind := kind_eq_of_append (.int n) hv' h
      cases hv' with
      | int n' =>
          rw [compact_int, compact_int] at h
          obtain ⟨hn, hrest⟩ := separates_intText n n' _ _ hfront hback h
          obtain rfl := intText_injective hn
          exact ⟨.number n 0, hrest⟩
      | _ => simp [kind, Json.int] at hkind
  | string s =>
      have hkind := kind_eq_of_append (.string s) hv' h
      cases hv' with
      | string s' =>
          rw [compact, compact] at h
          obtain ⟨rfl, hrest⟩ := asciiString_append_inj h
          exact ⟨.string s, hrest⟩
      | _ => simp [kind, Json.int] at hkind
  | @array items hitems ih =>
      have hkind := kind_eq_of_append (.array hitems) hv' h
      cases hv' with
      | @array items' hitems' =>
          have hparts : ∀ v ∈ items, ∀ v' ∈ items', Separates v.compact v'.compact :=
            fun v hmem v' hmem' => separates_of_same (hitems v hmem) (hitems' v' hmem')
              fun hfront hback h => ih v hmem (hitems' v' hmem') hfront hback h
          obtain ⟨hmap, hrest⟩ := array_append_inj hitems hitems' hparts h
          refine ⟨.array (forall₂_imp_of_mem ?_ (map_compact_eq_iff.mp hmap)), hrest⟩
          intro v hmem v' hmem' heq
          exact (ih v hmem (hitems' v' hmem') stops_nil stops_nil (congrArg (· ++ []) heq)).1
      | _ => simp [kind, Json.int] at hkind
  | @object members hnodup hvalues ih =>
      have hkind := kind_eq_of_append (.object hnodup hvalues) hv' h
      cases hv' with
      | @object members' hnodup' hvalues' =>
          have hparts : ∀ m ∈ members, ∀ m' ∈ members', Separates m.2.compact m'.2.compact :=
            fun m hmem m' hmem' => separates_of_same (hvalues m hmem) (hvalues' m' hmem')
              fun hfront hback h => ih m hmem (hvalues' m' hmem') hfront hback h
          obtain ⟨hsorted, hrest⟩ := object_append_inj hparts h
          refine ⟨.object ?_ ?_, hrest⟩
          · exact fun name => ⟨names_subset_of_sortedMembers_eq hsorted,
              names_subset_of_sortedMembers_eq hsorted.symm⟩
          · intro name v v' hv hv'
            obtain ⟨w, hw, heq⟩ := exists_of_sortedMembers_eq hsorted hv
            obtain rfl := value_unique hnodup' hw hv'
            exact (ih _ hv (hvalues' _ hw) stops_nil stops_nil
              (congrArg (· ++ []) heq.symm)).1
      | _ => simp [kind, Json.int] at hkind

/-- Values have the same compact form exactly if they are equal up to the order of members. -/
theorem compact_eq_iff_same {v v' : Json} (hv : v.IsExact) (hv' : v'.IsExact)
    : v.compact = v'.compact ↔ Same v v' :=
  ⟨fun h => (same_of_compact_append hv hv' stops_nil stops_nil (congrArg (· ++ []) h)).1,
    compact_eq_of_same hv hv'⟩

end SvgKit.Json
