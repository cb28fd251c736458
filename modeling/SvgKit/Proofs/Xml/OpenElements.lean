import SvgKit.Proofs.Xml.Joining
import SvgKit.Proofs.Xml.Resolution

/-! Whether a token can be taken in depends on which elements are open and on the namespaces in
their scopes, not on what the elements hold.
-/

namespace SvgKit.Xml

-----------------------------------------------------------------------------------------
-- Parts of a list
-----------------------------------------------------------------------------------------

section Parts

variable {α β : Type} {f : α → Option β} {l l' : List α} {m : List β}

/-- What is made of some of the items is part of what is made of all. -/
theorem exists_sublist_of_mapM (h : l.mapM f = some m) (hsub : l'.Sublist l)
    : ∃ m', l'.mapM f = some m' ∧ m'.Sublist m := by
  simp only [mapM_eq_some_iff] at h ⊢
  induction hsub generalizing m with
  | slnil =>
      cases h
      exact ⟨[], .nil, .slnil⟩
  | cons a _ ih =>
      cases h with
      | cons _ hrest =>
          obtain ⟨m', hm', hsub'⟩ := ih hrest
          exact ⟨m', hm', hsub'.cons _⟩
  | cons_cons a _ ih =>
      cases h with
      | cons hfirst hrest =>
          obtain ⟨m', hm', hsub'⟩ := ih hrest
          exact ⟨_ :: m', .cons hfirst hm', hsub'.cons_cons _⟩

/-- Items of which a property is kept are filtered before or after. -/
theorem mapM_filter (h : l.mapM f = some m) {p : α → Bool} {q : β → Bool}
    (hpq : ∀ a b, f a = some b → q b = p a)
    : (l.filter p).mapM f = some (m.filter q) := by
  rw [mapM_eq_some_iff] at h ⊢
  induction h with
  | nil => exact .nil
  | @cons a b l m hfirst _ ih =>
      by_cases hp : p a
      · rw [List.filter_cons_of_pos hp, List.filter_cons_of_pos (by rw [hpq a b hfirst, hp])]
        exact .cons hfirst ih
      · rw [List.filter_cons_of_neg hp, List.filter_cons_of_neg (by rw [hpq a b hfirst]; exact hp)]
        exact ih

end Parts

-----------------------------------------------------------------------------------------
-- Heads
-----------------------------------------------------------------------------------------

/-- An attribute of this name declares a namespace. -/
def Spelling.declares (n : Spelling) : Bool :=
  match n.space with
  | none => n.base = ("xmlns" : Text)
  | some space => space = ("xmlns" : Text)

theorem RawAttribute.isSome_declares? (a : RawAttribute)
    : a.declares?.isSome = a.name.declares := by
  unfold declares? Spelling.declares
  split <;> split <;> simp_all

/-- Some of the attributes of a tag: all that declare namespaces are among them, and no other ones
are there by default.
-/
structure Doctype.Keeps (d : Doctype) (name : Spelling) (given kept : List (Spelling × Value))
    : Prop where
  sublist : kept.Sublist given
  declares : kept.filter (·.1.declares) = given.filter (·.1.declares)
  defaults : d.defaults name kept = d.defaults name given

theorem Doctype.Keeps.refl (d : Doctype) (name : Spelling) (given : List (Spelling × Value))
    : d.Keeps name given given :=
  ⟨.refl _, rfl, rfl⟩

/-- Attributes that declare nothing make no declarations, by induction over the attributes. -/
theorem bindingsOf?_filter (mark : Nat) (raw : List RawAttribute)
    : bindingsOf? mark (raw.filter (·.name.declares)) = bindingsOf? mark raw := by
  induction raw generalizing mark with
  | nil => rfl
  | cons a raw ih =>
      have hname := a.isSome_declares?
      cases hdeclares : a.declares? with
      | none =>
          rw [hdeclares, Option.isSome_none] at hname
          rw [List.filter_cons_of_neg (by simp [← hname]), ih, bindingsOf?, hdeclares]
      | some label =>
          rw [hdeclares, Option.isSome_some] at hname
          rw [List.filter_cons_of_pos (by simp [← hname]), bindingsOf?, bindingsOf?, hdeclares]
          simp only [ih]

/-- The marks of declarations count from anywhere, by induction over the attributes. -/
theorem exists_bindingsOf? {mark : Nat} {raw : List RawAttribute} {bindings : List Binding}
    (h : bindingsOf? mark raw = some bindings) (mark' : Nat)
    : ∃ bindings', bindingsOf? mark' raw = some bindings' ∧ SameScope bindings bindings' := by
  induction raw generalizing mark mark' bindings with
  | nil =>
      cases h
      exact ⟨[], rfl, .nil⟩
  | cons a raw ih =>
      unfold bindingsOf? at h ⊢
      cases hdeclares : a.declares? with
      | none =>
          simp only [hdeclares] at h
          exact ih h mark'
      | some label =>
          simp only [hdeclares] at h
          split at h
          · cases h
          · split at h
            · next hmay hxml =>
                dsimp only
                rw [if_neg hmay, if_pos hxml]
                exact ih h mark'
            · next hmay hxml =>
                obtain ⟨rest, hrest, rfl⟩ := Option.map_eq_some_iff.mp h
                obtain ⟨rest', hrest', hsame⟩ := ih hrest (mark' + 1)
                refine ⟨⟨mark', label, a.value⟩ :: rest', ?_, .cons ⟨rfl, rfl⟩ hsame⟩
                simp [hmay, hxml, hrest']

section Scopes

variable {scope scope' : List Binding}

theorem SameScope.refl (scope : List Binding) : SameScope scope scope :=
  List.forall₂_same.mpr fun _ _ => ⟨rfl, rfl⟩

theorem SameScope.append {inner inner' : List Binding} (hinner : SameScope inner inner')
    (h : SameScope scope scope')
    : SameScope (inner ++ scope) (inner' ++ scope') :=
  List.rel_append hinner h

/-- The name by which attributes are told apart. -/
def attributeKey? (scope : List Binding) (a : RawAttribute) : Option (Option Text × Text) :=
  (attributeName? scope a.name).map fun name => (name.uri?, name.base)

theorem SameScope.attributeKey? (h : SameScope scope scope')
    : Xml.attributeKey? scope' = Xml.attributeKey? scope := by
  funext a
  have huri := h.attributeName? a.name
  unfold Xml.attributeKey?
  cases hname : Xml.attributeName? scope a.name with
  | none =>
      rw [hname, Option.map_none, Option.map_eq_none_iff] at huri
      rw [huri]
  | some name =>
      rw [hname, Option.map_some, Option.map_eq_some_iff] at huri
      obtain ⟨name', hname', heq⟩ := huri
      rw [hname', Option.map_some, Option.map_some, heq, base_of_attributeName? hname,
        base_of_attributeName? hname']

theorem mapM_attributeKey? {raw : List RawAttribute} {attributes : List Attribute}
    : raw.mapM (fun a => (attributeName? scope a.name).map fun name =>
          (⟨name, a.value, a.spelling⟩ : Attribute)) = some attributes
      → raw.mapM (attributeKey? scope)
        = some (attributes.map fun a => (a.name.uri?, a.name.base)) := by
  intro h
  rw [mapM_eq_some_iff] at h ⊢
  rw [List.forall₂_map_right_iff]
  refine h.imp fun a b hread => ?_
  obtain ⟨name, hname, rfl⟩ := Option.map_eq_some_iff.mp hread
  rw [attributeKey?, hname]
  rfl

theorem exists_mapM_attributeName? {raw : List RawAttribute} {keys : List (Option Text × Text)}
    (h : raw.mapM (attributeKey? scope) = some keys)
    : ∃ attributes, raw.mapM (fun a => (attributeName? scope a.name).map fun name =>
          (⟨name, a.value, a.spelling⟩ : Attribute)) = some attributes
      ∧ attributes.map (fun a => (a.name.uri?, a.name.base)) = keys := by
  have hall : ∃ attributes : List Attribute, List.Forall₂ (fun a b =>
      ((attributeName? scope a.name).map fun name =>
        (⟨name, a.value, a.spelling⟩ : Attribute)) = some b) raw attributes := by
    refine exists_forall₂ fun a ha => ?_
    obtain ⟨key, -, hkey⟩ := exists_mem_right_of_forall₂ (mapM_eq_some_iff.mp h) ha
    obtain ⟨name, hname, -⟩ := Option.map_eq_some_iff.mp hkey
    exact ⟨_, by rw [hname]; rfl⟩
  obtain ⟨attributes, hattributes⟩ := hall
  have hread := mapM_eq_some_iff.mpr hattributes
  refine ⟨attributes, hread, ?_⟩
  have := (mapM_attributeKey? hread).symm.trans h
  exact Option.some.inj this

end Scopes

/-- A head is read in any scope with the same namespaces, also with some of its attributes. -/
theorem Doctype.Keeps.exists_readHead? {d : Doctype} {name : Spelling}
    {given kept : List (Spelling × Value)} (hkeeps : d.Keeps name given kept)
    {scope scope' : List Binding} (hscope : SameScope scope scope') {mark : Nat} {head : Head}
    (h : readHead? d scope mark name given = some head) (mark' : Nat)
    : ∃ head', readHead? d scope' mark' name kept = some head'
      ∧ SameScope head.bindings head'.bindings ∧ head'.name.base = head.name.base := by
  obtain ⟨raw, hraw, hnames, hbindings, helement, hattributes, hdistinct⟩ :=
    readHead?_eq_some_iff.mp h
  have hname {a : Spelling × Value} {b : RawAttribute} (hab : d.rawAttribute? name a = some b)
      : b.name = a.1 := by
    obtain ⟨value, -, rfl⟩ := Option.map_eq_some_iff.mp hab
    rfl
  have hfilter {l : List (Spelling × Value)} {m : List RawAttribute}
      (hm : l.mapM (d.rawAttribute? name) = some m)
      : (l.filter (·.1.declares)).mapM (d.rawAttribute? name)
        = some (m.filter (·.name.declares)) :=
    mapM_filter hm fun a b hab => by rw [hname hab]
  obtain ⟨raw', hraw', hsub⟩ :=
    exists_sublist_of_mapM hraw (hkeeps.sublist.append (.refl (d.defaults name given)))
  rw [← hkeeps.defaults] at hraw' hraw
  -- the same declarations are made
  have hdeclares : raw'.filter (·.name.declares) = raw.filter (·.name.declares) := by
    have hkept := hfilter hraw'
    rw [List.filter_append, hkeeps.declares, ← List.filter_append, hfilter hraw] at hkept
    exact (Option.some.inj hkept).symm
  obtain ⟨bindings', hbindings', hsame⟩ := exists_bindingsOf? hbindings mark'
  rw [← bindingsOf?_filter, ← hdeclares, bindingsOf?_filter] at hbindings'
  -- the same names are resolved
  have hinner := hsame.append hscope
  have huri := hinner.elementName? name
  rw [helement, Option.map_some, Option.map_eq_some_iff] at huri
  obtain ⟨elementName, helement', -⟩ := huri
  obtain ⟨keys, hkeys, hsubkeys⟩ := exists_sublist_of_mapM (mapM_attributeKey? hattributes)
    (hsub.filter (·.declares?.isNone))
  rw [← hinner.attributeKey?] at hkeys
  obtain ⟨attributes, hattributes', rfl⟩ := exists_mapM_attributeName? hkeys
  refine ⟨⟨elementName, bindings', attributes⟩, readHead?_eq_some_iff.mpr
    ⟨raw', hraw', (hsub.map _).nodup hnames, hbindings', helement', hattributes',
      hsubkeys.nodup hdistinct⟩, hsame, ?_⟩
  rw [base_of_elementName? helement, base_of_elementName? helement']

-----------------------------------------------------------------------------------------
-- Open elements
-----------------------------------------------------------------------------------------

/-- The same element is open with the same namespaces in scope, whatever it holds. -/
structure Frame.Same (f f' : Frame) : Prop where
  spelling : f'.spelling = f.spelling
  base : f'.head.name.base = f.head.name.base
  scope : SameScope f.scope f'.scope

/-- The same elements are open, or roots of the same name have been closed. -/
structure Progress.Same (p p' : Progress) : Prop where
  frames : List.Forall₂ Frame.Same p.frames p'.frames
  root : p'.root.map (·.head.name.base) = p.root.map (·.head.name.base)

theorem Frame.Same.refl (f : Frame) : f.Same f := ⟨rfl, rfl, .refl _⟩

theorem SameScope.trans {s₁ s₂ s₃ : List Binding} (h : SameScope s₁ s₂) (h' : SameScope s₂ s₃)
    : SameScope s₁ s₃ := by
  induction h generalizing s₃ with
  | nil => exact h'
  | cons hfirst _ ih =>
      cases h' with
      | cons hfirst' hrest' =>
          exact .cons ⟨hfirst'.label.trans hfirst.label, hfirst'.uri.trans hfirst.uri⟩ (ih hrest')

theorem SameScope.symm {scope scope' : List Binding} (h : SameScope scope scope')
    : SameScope scope' scope :=
  h.flip.imp fun _ _ hsame => ⟨hsame.label.symm, hsame.uri.symm⟩

theorem Frame.Same.trans {f₁ f₂ f₃ : Frame} (h : f₁.Same f₂) (h' : f₂.Same f₃) : f₁.Same f₃ :=
  ⟨h'.spelling.trans h.spelling, h'.base.trans h.base, h.scope.trans h'.scope⟩

theorem Frame.Same.symm {f f' : Frame} (h : f.Same f') : f'.Same f :=
  ⟨h.spelling.symm, h.base.symm, h.scope.symm⟩

theorem Frame.Same.addText (f : Frame) (s : Text) : f.Same (f.addText s) := ⟨rfl, rfl, .refl _⟩

theorem Frame.Same.addSegment (f : Frame) (s : Text) (ahead : Ahead)
    : f.Same (f.addSegment s ahead) := by
  unfold Frame.addSegment
  split <;> exact ⟨rfl, rfl, .refl _⟩

theorem Frame.Same.addNode (f : Frame) (node : Node) : f.Same (f.addNode node) :=
  ⟨rfl, rfl, .refl _⟩

namespace Progress.Same

variable {d : Doctype} {p p' q : Progress}

theorem refl (p : Progress) : p.Same p := ⟨List.forall₂_same.mpr fun f _ => .refl f, rfl⟩

theorem trans {p₁ p₂ p₃ : Progress} (h : p₁.Same p₂) (h' : p₂.Same p₃) : p₁.Same p₃ := by
  refine ⟨?_, h'.root.trans h.root⟩
  have hframes := h'.frames
  generalize p₃.frames = l₃ at hframes
  have hfirst := h.frames
  generalize p₁.frames = l₁, p₂.frames = l₂ at hfirst hframes
  induction hfirst generalizing l₃ with
  | nil => exact hframes
  | cons hfirst _ ih =>
      cases hframes with
      | cons hfirst' hrest' => exact .cons (hfirst.trans hfirst') (ih _ hrest')

/-- What goes into the innermost element changes nothing else. -/
theorem top {f f' : Frame} {frames : List Frame} (hframes : p.frames = f :: frames)
    (hf : f.Same f')
    : p.Same { p with frames := f' :: frames } :=
  ⟨hframes ▸ .cons hf (List.forall₂_same.mpr fun f _ => .refl f), rfl⟩

theorem length_eq (h : p.Same p') : p'.frames.length = p.frames.length := h.frames.length_eq.symm

theorem open? {name : Spelling} {given kept : List (Spelling × Value)} (h : p.Same p')
    (hkeeps : d.Keeps name given kept) (hopen : p.open? d name given = some q)
    : ∃ q', p'.open? d name kept = some q' ∧ q.Same q' := by
  unfold Progress.open? at hopen ⊢
  have hroot : p'.root.isSome = p.root.isSome := by
    rw [← Option.isSome_map (f := (·.head.name.base)), h.root, Option.isSome_map]
  have hscope : SameScope ((p.frames.head?.map (·.scope)).getD [])
      ((p'.frames.head?.map (·.scope)).getD []) := by
    have hframes := h.frames
    generalize p.frames = frames, p'.frames = frames' at hframes
    cases hframes with
    | nil => exact .nil
    | cons hfirst _ => exact hfirst.scope
  rw [hroot, h.length_eq]
  split at hopen
  · cases hopen
  · next hmay =>
      obtain ⟨head, hhead, rfl⟩ := Option.map_eq_some_iff.mp hopen
      obtain ⟨head', hhead', hbindings, hbase⟩ := hkeeps.exists_readHead? hscope hhead p'.mark
      rw [if_neg hmay]
      refine ⟨_, Option.map_eq_some_iff.mpr ⟨head', hhead', rfl⟩, ?_, h.root⟩
      exact .cons ⟨rfl, hbase, hbindings.append hscope⟩ h.frames

theorem close? {name : Spelling} (h : p.Same p') (hclose : p.close? name = some q)
    : ∃ q', p'.close? name = some q' ∧ q.Same q' := by
  obtain ⟨f, frames, hframes, hspelling, hcases⟩ := Progress.close?_eq_some hclose
  have hsame := h.frames
  rw [hframes] at hsame
  obtain ⟨f', frames', hf, hrest, hframes'⟩ := List.forall₂_cons_left_iff.mp hsame
  have hread : p'.close? name = some (({ p' with frames := frames' }).addElement f'.close) := by
    unfold Progress.close?
    rw [hframes']
    exact if_pos (hf.spelling.trans hspelling)
  refine ⟨_, hread, ?_⟩
  unfold Progress.addElement
  rcases hcases with ⟨rfl, rfl⟩ | ⟨g, outer, rfl, rfl⟩
  · cases hrest
    exact ⟨.nil, by simp [Frame.close, hf.base]⟩
  · cases hrest with
    | cons hg houter =>
        refine ⟨.cons ?_ houter, h.root⟩
        exact ⟨hg.spelling, hg.base, hg.scope⟩

theorem start {name : Spelling} {given kept : List (Spelling × Value)} {isEmpty : Bool}
    (h : p.Same p') (hkeeps : d.Keeps name given kept)
    (htake : p.take? d (.start name given isEmpty) = some q)
    : ∃ q', p'.take? d (.start name kept isEmpty) = some q' ∧ q.Same q' := by
  obtain ⟨opened, hopen, hclose⟩ := Option.bind_eq_some_iff.mp htake
  obtain ⟨opened', hopen', hsame⟩ := h.open? hkeeps hopen
  have hread : p'.take? d (.start name kept isEmpty)
      = if isEmpty then opened'.close? name else some opened' := by
    show (p'.open? d name kept).bind _ = _
    rw [hopen', Option.bind_some]
  rw [hread]
  cases isEmpty with
  | false =>
      cases hclose
      exact ⟨opened', rfl, hsame⟩
  | true => exact hsame.close? hclose

/-- What is taken in where some elements are open is taken in where the same ones are. -/
theorem take? {token : Token} (h : p.Same p') (htake : p.take? d token = some q)
    : ∃ q', p'.take? d token = some q' ∧ q.Same q' := by
  have hframes := h.frames
  unfold Progress.take? at htake
  split at htake
  · exact h.start (.refl d _ _) htake
  · exact h.close? htake
  · next s ahead f frames hp =>
      cases htake
      rw [hp] at hframes
      obtain ⟨f', frames', hf, hrest, hp'⟩ := List.forall₂_cons_left_iff.mp hframes
      refine ⟨{ p' with frames := f'.addSegment s ahead :: frames' }, ?_, .cons ?_ hrest, h.root⟩
      · simp [Progress.take?, hp']
      · exact (Frame.Same.addSegment f s ahead).symm.trans (hf.trans (.addSegment f' s ahead))
  · next s ahead hp =>
      split at htake
      · next hspace =>
          cases htake
          rw [hp] at hframes
          exact ⟨p', by simp [Progress.take?, List.forall₂_nil_left_iff.mp hframes, hspace], h⟩
      · cases htake
  · next s f frames hp =>
      cases htake
      rw [hp] at hframes
      obtain ⟨f', frames', hf, hrest, hp'⟩ := List.forall₂_cons_left_iff.mp hframes
      refine ⟨{ p' with frames := f'.addText s :: frames' }, ?_, .cons ?_ hrest, h.root⟩
      · simp [Progress.take?, hp']
      · exact (Frame.Same.addText f s).symm.trans (hf.trans (.addText f' s))
  · cases htake
  · next name f frames hp =>
      split at htake
      · next hmay =>
          cases htake
          rw [hp] at hframes
          obtain ⟨f', frames', hf, hrest, hp'⟩ := List.forall₂_cons_left_iff.mp hframes
          refine ⟨{ p' with frames := f'.addNode (.entity name) :: frames' }, ?_, .cons ?_ hrest,
            h.root⟩
          · simp [Progress.take?, hp', hmay]
          · exact (Frame.Same.addNode f _).symm.trans (hf.trans (.addNode f' _))
      · cases htake
  · cases htake

/-- So are tokens one after the other, by induction over them. -/
theorem foldlM {tokens : List Token} (h : p.Same p')
    (hfold : tokens.foldlM (Progress.take? d) p = some q)
    : ∃ q', tokens.foldlM (Progress.take? d) p' = some q' ∧ q.Same q' := by
  induction tokens generalizing p p' with
  | nil =>
      cases hfold
      exact ⟨p', rfl, h⟩
  | cons token tokens ih =>
      obtain ⟨next, hnext, hrest⟩ := Option.bind_eq_some_iff.mp hfold
      obtain ⟨next', hnext', hsame⟩ := h.take? hnext
      obtain ⟨q', hq', hsame'⟩ := ih hsame hrest
      exact ⟨q', by rw [List.foldlM_cons, hnext']; exact hq', hsame'⟩

end Progress.Same

-----------------------------------------------------------------------------------------
-- What a token does
-----------------------------------------------------------------------------------------

/-- Open elements that are the same in pairs. -/
abbrev SameFrames : List Frame → List Frame → Prop := List.Forall₂ Frame.Same

theorem SameFrames.refl (frames : List Frame) : SameFrames frames frames :=
  List.forall₂_same.mpr fun f _ => .refl f

theorem SameFrames.map_spelling {frames frames' : List Frame} (h : SameFrames frames frames')
    : frames'.map (·.spelling) = frames.map (·.spelling) := by
  induction h with
  | nil => rfl
  | cons hfirst _ ih => rw [List.map_cons, List.map_cons, hfirst.spelling, ih]

/-- A token opens an element, opens one and closes it, closes one, or leaves open what is open. -/
inductive Progress.Moves (p q : Progress) : Token → Prop where
  | opens {name : Spelling} {given : List (Spelling × Value)} {f : Frame}
      (hspelling : f.spelling = name) (hframes : q.frames = f :: p.frames) (hroot : q.root = p.root)
    : Moves p q (.start name given false)
  | passes {name : Spelling} {given : List (Spelling × Value)}
      (hframes : SameFrames p.frames q.frames) (hroot : p.frames ≠ [] → q.root = p.root)
    : Moves p q (.start name given true)
  | closes {name : Spelling} {f : Frame} {frames : List Frame} (hspelling : f.spelling = name)
      (hfirst : p.frames = f :: frames) (hframes : SameFrames frames q.frames)
      (hroot : frames ≠ [] → q.root = p.root)
    : Moves p q (.finish name)
  | text {s : Text} {ahead : Ahead} (hsame : p.Same q) (hroot : q.root = p.root)
    : Moves p q (.text s ahead)
  | literal {s : Text} (hsame : p.Same q) (hroot : q.root = p.root)
    : Moves p q (.literal s)
  | entity {name : Text} (hsame : p.Same q) (hroot : q.root = p.root)
    : Moves p q (.entity name)

theorem Progress.exists_of_close? {p q : Progress} {name : Spelling} (h : p.close? name = some q)
    : ∃ f frames, f.spelling = name ∧ p.frames = f :: frames ∧ SameFrames frames q.frames
      ∧ (frames ≠ [] → q.root = p.root) := by
  obtain ⟨f, frames, hframes, hspelling, hcases⟩ := Progress.close?_eq_some h
  refine ⟨f, frames, hspelling, hframes, ?_⟩
  rcases hcases with ⟨rfl, rfl⟩ | ⟨g, outer, rfl, rfl⟩
  · exact ⟨.nil, fun hne => absurd rfl hne⟩
  · exact ⟨.cons (.addNode g _) (SameFrames.refl outer), fun _ => rfl⟩

theorem Progress.moves_of_take? {d : Doctype} {p q : Progress} {token : Token}
    (h : p.take? d token = some q)
    : p.Moves q token := by
  cases token with
  | start name given isEmpty =>
      obtain ⟨opened, hopen, hclose⟩ := Option.bind_eq_some_iff.mp h
      obtain ⟨f, _, _, hframes, hroot, hspelling, -⟩ := Progress.open?_eq_some hopen
      cases isEmpty with
      | false =>
          cases hclose
          exact .opens hspelling hframes hroot
      | true =>
          obtain ⟨f', frames, -, hframes', hsame, hroot'⟩ := exists_of_close? hclose
          obtain ⟨-, rfl⟩ := List.cons.inj (hframes.symm.trans hframes')
          exact .passes hsame fun hne => (hroot' hne).trans hroot
  | finish name =>
      obtain ⟨f, frames, hspelling, hframes, hsame, hroot⟩ := exists_of_close? h
      exact .closes hspelling hframes hsame hroot
  | text s ahead =>
      cases hp : p.frames with
      | nil =>
          simp only [take?, hp] at h
          split at h
          · cases h
            exact .text (.refl p) rfl
          · cases h
      | cons f frames =>
          simp only [take?, hp] at h
          cases h
          exact .text (.top hp (.addSegment _ _ _)) rfl
  | literal s =>
      cases hp : p.frames with
      | nil =>
          simp only [take?, hp] at h
          cases h
      | cons f frames =>
          simp only [take?, hp] at h
          cases h
          exact .literal (.top hp (.addText _ _)) rfl
  | entity name =>
      cases hp : p.frames with
      | nil =>
          simp only [take?, hp] at h
          cases h
      | cons f frames =>
          simp only [take?, hp] at h
          split at h
          · cases h
            exact .entity (.top hp (.addNode _ _)) rfl
          · cases h

/-- The names of the elements that are open behind a token. -/
def openBehind (opened : List Spelling) : Token → List Spelling
  | .start name _ false => name :: opened
  | .finish _ => opened.tail
  | _ => opened

/-- The names of the elements that are open behind tokens, the innermost first. -/
def openNames (tokens : List Token) : List Spelling := tokens.foldl openBehind []

theorem Progress.Moves.openBehind {p q : Progress} {token : Token} (h : p.Moves q token)
    : q.frames.map (·.spelling) = Xml.openBehind (p.frames.map (·.spelling)) token := by
  cases h with
  | opens hspelling hframes => simp [hframes, Xml.openBehind, hspelling]
  | passes hframes => exact hframes.map_spelling
  | closes _ hfirst hframes => simp [hfirst, Xml.openBehind, hframes.map_spelling]
  | text hsame | literal hsame | entity hsame => exact SameFrames.map_spelling hsame.frames

/-- The names tell which elements are open, by induction over the tokens. -/
theorem Progress.map_spelling_of_foldlM {d : Doctype} {p q : Progress} {tokens : List Token}
    (h : tokens.foldlM (Progress.take? d) p = some q)
    : q.frames.map (·.spelling) = tokens.foldl Xml.openBehind (p.frames.map (·.spelling)) := by
  induction tokens generalizing p with
  | nil =>
      cases h
      rfl
  | cons token tokens ih =>
      obtain ⟨next, hnext, hrest⟩ := Option.bind_eq_some_iff.mp h
      rw [ih hrest, (Progress.moves_of_take? hnext).openBehind, List.foldl_cons]

/-- Elements that are the same can be parted where the others are. -/
theorem SameFrames.exists_append {inner outer frames : List Frame}
    (h : SameFrames (inner ++ outer) frames)
    : ∃ inner' outer', frames = inner' ++ outer' ∧ SameFrames inner inner'
      ∧ SameFrames outer outer' := by
  induction inner generalizing frames with
  | nil => exact ⟨[], frames, rfl, .nil, h⟩
  | cons f inner ih =>
      cases h with
      | cons hfirst hrest =>
          obtain ⟨inner', outer', rfl, hinner, houter⟩ := ih hrest
          exact ⟨_ :: inner', outer', rfl, .cons hfirst hinner, houter⟩

theorem SameFrames.trans {l₁ l₂ l₃ : List Frame} (h : SameFrames l₁ l₂) (h' : SameFrames l₂ l₃)
    : SameFrames l₁ l₃ := by
  induction h generalizing l₃ with
  | nil => exact h'
  | cons hfirst _ ih =>
      cases h' with
      | cons hfirst' hrest' => exact .cons (hfirst.trans hfirst') (ih hrest')

/-- Tags that have their partners leave open what is open around them. The induction is over the
tokens; the elements that have been opened among them are the inner ones.
-/
theorem Progress.sameFrames_of_isBalanced {d : Doctype} {p q : Progress} {tokens : List Token}
    {opened : List Spelling} (h : isBalanced opened tokens)
    (hfold : tokens.foldlM (Progress.take? d) p = some q) {inner outer : List Frame}
    (hp : p.frames = inner ++ outer) (hinner : inner.map (·.spelling) = opened)
    (houter : outer ≠ [])
    : SameFrames outer q.frames ∧ q.root = p.root := by
  induction tokens generalizing p opened inner outer with
  | nil =>
      cases hfold
      obtain rfl := List.isEmpty_iff.mp h
      obtain rfl := List.map_eq_nil_iff.mp hinner
      exact ⟨by rw [hp]; exact SameFrames.refl _, rfl⟩
  | cons token tokens ih =>
      obtain ⟨next, hnext, hrest⟩ := Option.bind_eq_some_iff.mp hfold
      -- what is around the tokens stays the same step by step
      have hstep {frames : List Frame} {opened : List Spelling} {inner outer : List Frame}
          (h : isBalanced opened tokens) (hsame : SameFrames frames next.frames)
          (hframes : frames = inner ++ outer) (hinner : inner.map (·.spelling) = opened)
          (houter : outer ≠ []) (hroot : next.root = p.root)
          : SameFrames outer q.frames ∧ q.root = p.root := by
        obtain ⟨inner', outer', hframes', hsame', hsame''⟩ := (hframes ▸ hsame).exists_append
        have hne : outer' ≠ [] := by
          rintro rfl
          exact houter (List.forall₂_nil_right_iff.mp hsame'')
        obtain ⟨hq, hrootq⟩ :=
          ih h hrest hframes' (hsame'.map_spelling.trans hinner) hne
        exact ⟨hsame''.trans hq, hrootq.trans hroot⟩
      have hne : p.frames ≠ [] := by simp [hp, houter]
      cases Progress.moves_of_take? hnext with
      | @opens name given f hspelling hframes hroot =>
          have hopened : next.frames = (f :: inner) ++ outer := by
            rw [hframes, hp]
            rfl
          exact hstep h (SameFrames.refl _) hopened
            (by rw [List.map_cons, hspelling, hinner]; rfl) houter hroot
      | passes hframes hroot => exact hstep h hframes hp hinner houter (hroot hne)
      | @closes name f frames hspelling hfirst hframes hroot =>
          cases inner with
          | nil =>
              obtain rfl : opened = [] := by simpa using hinner.symm
              cases h
          | cons g inner =>
              obtain ⟨-, rfl⟩ := List.cons.inj (hfirst.symm.trans hp)
              subst hinner
              rw [List.map_cons, isBalanced, Bool.and_eq_true] at h
              exact hstep h.2 hframes rfl rfl houter (hroot (by simp [houter]))
      | text hsame hroot | literal hsame hroot | entity hsame hroot =>
          exact hstep h hsame.frames hp hinner houter hroot

/-- Tokens whose tags have their partners leave open what is open. -/
theorem Progress.Same.of_isBalanced {d : Doctype} {p q : Progress} {tokens : List Token}
    (h : isBalanced [] tokens) (hfold : tokens.foldlM (Progress.take? d) p = some q)
    (hne : p.frames ≠ [])
    : p.Same q := by
  obtain ⟨hframes, hroot⟩ :=
    Progress.sameFrames_of_isBalanced h hfold (List.nil_append p.frames).symm rfl hne
  exact ⟨hframes, by rw [hroot]⟩

end SvgKit.Xml
