import SvgKit.Proofs.Xml.Markup
import SvgKit.Proofs.Xml.Reading

/-! Forests in which every piece of text stands between markup, with elements inside each other
to a depth. What is read is such a forest, without references to entities if there was no
document type declaration.
-/

namespace SvgKit.Xml

-----------------------------------------------------------------------------------------
-- Tidy forests
-----------------------------------------------------------------------------------------

/-- Text begins the nodes. -/
def beginsWithText : List Node → Bool
  | .text _ :: _ => true
  | _ => false

/-- A forest in which no text follows another one, with elements inside each other to a depth.
A literal one holds no reference to an entity, neither in text nor in values.
-/
inductive Tidy (literal : Bool) : Nat → List Node → Prop where
  | nil {depth : Nat} : Tidy literal depth []
  | element {depth : Nat} {h : Head} {content nodes : List Node} (plain : literal → h.Plain)
      (inside : Tidy literal depth content) (behind : Tidy literal (depth + 1) nodes)
      : Tidy literal (depth + 1) (.element h content :: nodes)
  | text {depth : Nat} (s : Text) {nodes : List Node} (apart : beginsWithText nodes = false)
      (behind : Tidy literal depth nodes)
      : Tidy literal depth (.text s :: nodes)
  | entity {depth : Nat} (name : Text) {nodes : List Node} (free : literal = false)
      (behind : Tidy literal depth nodes)
      : Tidy literal depth (.entity name :: nodes)

theorem beginsWithText_append {nodes : List Node} (hne : nodes ≠ []) (more : List Node)
    : beginsWithText (nodes ++ more) = beginsWithText nodes := by
  cases nodes with
  | nil => exact absurd rfl hne
  | cons node nodes => cases node <;> rfl

theorem not_endsWithText_of_cons {node : Node} {nodes : List Node}
    (h : beginsWithText (node :: nodes).reverse = false)
    : beginsWithText nodes.reverse = false := by
  by_cases hnil : nodes = []
  · subst hnil
    rfl
  · rw [← h, List.reverse_cons, beginsWithText_append (by simpa using hnil)]

namespace Tidy

variable {literal : Bool} {depth : Nat} {nodes more : List Node}

theorem plain (h : Tidy true depth nodes) : ∀ head ∈ Node.allHeads nodes, head.Plain := by
  induction h with
  | nil => simp
  | element plain _ _ inside behind =>
      rw [Node.allHeads_element, List.forall_mem_cons, List.forall_mem_append]
      exact ⟨plain rfl, inside, behind⟩
  | text s _ _ ih => simpa using ih
  | entity name free _ _ => cases free

/-- A forest without references to entities is literal. -/
theorem literal_of_plain (h : Tidy literal depth nodes)
    (hplain : ∀ head ∈ Node.allHeads nodes, head.Plain)
    (hleaves : ∀ leaf ∈ Node.allLeaves nodes, leaf.isText)
    : Tidy true depth nodes := by
  induction h with
  | nil => exact .nil
  | element _ _ _ inside behind =>
      rw [Node.allHeads_element, List.forall_mem_cons, List.forall_mem_append] at hplain
      rw [Node.allLeaves, List.forall_mem_append] at hleaves
      exact .element (fun _ => hplain.1) (inside hplain.2.1 hleaves.1) (behind hplain.2.2 hleaves.2)
  | text s apart _ ih =>
      rw [Node.allHeads_text] at hplain
      rw [Node.allLeaves, List.forall_mem_cons] at hleaves
      exact .text s apart (ih hplain hleaves.2)
  | entity name _ _ _ =>
      rw [Node.allLeaves, List.forall_mem_cons] at hleaves
      cases hleaves.1

/-- There is room for a forest in more depth. -/
theorem succ (h : Tidy literal depth nodes) : Tidy literal (depth + 1) nodes := by
  induction h with
  | nil => exact .nil
  | element plain _ _ inside behind => exact .element plain inside behind
  | text s apart _ ih => exact .text s apart ih
  | entity name free _ ih => exact .entity name free ih

/-- Forests follow each other, unless text would meet. -/
theorem append (h : Tidy literal depth nodes) (h' : Tidy literal depth more)
    (hapart : beginsWithText more → beginsWithText nodes.reverse = false)
    : Tidy literal depth (nodes ++ more) := by
  induction h with
  | nil => exact h'
  | @element depth head content nodes plain inside behind _ ih =>
      exact .element plain inside (ih h' fun hmore => not_endsWithText_of_cons (hapart hmore))
  | @text depth s nodes apart behind ih =>
      refine .text s ?_ (ih h' fun hmore => not_endsWithText_of_cons (hapart hmore))
      by_cases hnil : nodes = []
      · subst hnil
        change beginsWithText more = false
        by_contra hmore
        rw [Bool.not_eq_false] at hmore
        cases hapart hmore
      · exact (beginsWithText_append hnil more).trans apart
  | entity name free _ ih =>
      exact .entity name free (ih h' fun hmore => not_endsWithText_of_cons (hapart hmore))

theorem suffix (h : Tidy literal depth nodes) (hsuffix : more <:+ nodes)
    : Tidy literal depth more := by
  induction h with
  | nil =>
      rw [List.suffix_nil] at hsuffix
      exact hsuffix ▸ .nil
  | element plain inside behind _ ih =>
      rcases List.suffix_cons_iff.mp hsuffix with rfl | hsuffix
      · exact .element plain inside behind
      · exact ih hsuffix
  | text s apart behind ih =>
      rcases List.suffix_cons_iff.mp hsuffix with rfl | hsuffix
      · exact .text s apart behind
      · exact ih hsuffix
  | entity name free behind ih =>
      rcases List.suffix_cons_iff.mp hsuffix with rfl | hsuffix
      · exact .entity name free behind
      · exact ih hsuffix

end Tidy

-----------------------------------------------------------------------------------------
-- Heads
-----------------------------------------------------------------------------------------

/-- Without declared entities a value holds no reference to one. -/
theorem any_isEntity_of_valueText? {value : Value} {text : Text}
    (h : Doctype.valueText? {} value = some text)
    : value.any Reference.isEntity = false := by
  obtain ⟨texts, htexts, -⟩ := Option.map_eq_some_iff.mp h
  have hall := mapM_eq_some_iff.mp htexts
  clear h htexts
  induction hall with
  | nil => rfl
  | @cons r _ _ _ hfirst _ ih =>
      rw [List.any_cons, ih, Bool.or_false]
      cases r with
      | char c => rfl
      | entity name => cases hfirst

theorem spelling_of_rawAttribute? {element : Spelling} {a : Spelling × Value}
    {raw : RawAttribute} (h : Doctype.rawAttribute? {} element a = some raw)
    : raw.spelling = none := by
  obtain ⟨value, hvalue, rfl⟩ := Option.map_eq_some_iff.mp h
  simp [any_isEntity_of_valueText? hvalue]

theorem plain_of_readHead? {scope : List Binding} {mark : Nat} {name : Spelling}
    {given : List (Spelling × Value)} {head : Head}
    (h : readHead? {} scope mark name given = some head)
    : head.Plain := by
  obtain ⟨raw, hraw, -, -, -, hattributes, -⟩ := readHead?_eq_some_iff.mp h
  have hspelling : ∀ a ∈ raw.filter (·.declares?.isNone), a.spelling = none := by
    intro a ha
    obtain ⟨pair, -, hpair⟩ := exists_of_mem_mapM hraw (List.mem_of_mem_filter ha)
    exact spelling_of_rawAttribute? hpair
  intro a ha
  obtain ⟨b, hb, hab⟩ := exists_of_mem_mapM hattributes ha
  obtain ⟨n, -, rfl⟩ := Option.map_eq_some_iff.mp hab
  exact hspelling b hb

-----------------------------------------------------------------------------------------
-- Open elements
-----------------------------------------------------------------------------------------

/-- An open element in which everything so far is tidy and leaves room for more. -/
structure Frame.Tidy (literal : Bool) (depth : Nat) (f : Frame) : Prop where
  head : literal → f.head.Plain
  done : Xml.Tidy literal depth f.done.reverse
  apart : beginsWithText f.done = false

/-- Open elements in which everything so far is tidy, and the depth that is left inside the
innermost one.
-/
inductive OpenTidy (literal : Bool) : Nat → List Frame → Prop where
  | nil : OpenTidy literal maxDepth []
  | cons {depth : Nat} {f : Frame} {frames : List Frame} (inner : f.Tidy literal depth)
      (outer : OpenTidy literal (depth + 1) frames)
      : OpenTidy literal depth (f :: frames)

theorem OpenTidy.depth_add_length {literal : Bool} {depth : Nat} {frames : List Frame}
    (h : OpenTidy literal depth frames)
    : depth + frames.length = maxDepth := by
  induction h with
  | nil => rfl
  | cons _ _ ih =>
      rw [List.length_cons]
      omega

/-- Everything so far is tidy. -/
structure Progress.Tidy (literal : Bool) (p : Progress) : Prop where
  frames : ∃ depth, OpenTidy literal depth p.frames
  root : ∀ e, p.root = some e → Xml.Tidy literal maxDepth e.forest

namespace Frame.Tidy

variable {literal : Bool} {depth : Nat} {f : Frame}

theorem nodes (h : f.Tidy literal depth) : Xml.Tidy literal depth f.nodes.reverse := by
  unfold Frame.nodes
  split
  · exact h.done
  · rw [List.reverse_cons]
    refine h.done.append (.text _ rfl .nil) fun _ => ?_
    rw [List.reverse_reverse]
    exact h.apart

theorem addSegment (h : f.Tidy literal depth) (s : Text) (ahead : Ahead)
    : (f.addSegment s ahead).Tidy literal depth := by
  unfold Frame.addSegment
  split
  · exact h
  · exact ⟨h.head, h.done, h.apart⟩

theorem addNode (h : f.Tidy literal depth) {node : Node} (hnode : Xml.Tidy literal depth [node])
    (hmarkup : node.isText = false)
    : (f.addNode node).Tidy literal depth := by
  have hbegins : ∀ nodes, beginsWithText (node :: nodes) = false := by
    intro nodes
    cases node with
    | text s => cases hmarkup
    | element h content => rfl
    | entity name => rfl
  refine ⟨h.head, ?_, hbegins _⟩
  change Xml.Tidy literal depth (_ :: f.nodes).reverse
  rw [List.reverse_cons]
  exact h.nodes.append hnode fun h => by rw [hbegins] at h; cases h

end Frame.Tidy

namespace Progress.Tidy

variable {literal : Bool} {d : Doctype} {p p' : Progress}

theorem open? {name : Spelling} {given : List (Spelling × Value)} (hd : literal → d = {})
    (h : p.Tidy literal) (hopen : p.open? d name given = some p')
    : p'.Tidy literal := by
  unfold Progress.open? at hopen
  split at hopen
  · cases hopen
  · next hroom =>
      obtain ⟨head, hhead, rfl⟩ := Option.map_eq_some_iff.mp hopen
      obtain ⟨depth, hframes⟩ := h.frames
      have hdepth := hframes.depth_add_length
      simp only [Bool.or_eq_true, decide_eq_true_eq, not_or, not_le] at hroom
      obtain ⟨room, rfl⟩ : ∃ room, depth = room + 1 := ⟨depth - 1, by omega⟩
      have hplain : literal → head.Plain := by
        intro hliteral
        obtain rfl := hd hliteral
        exact plain_of_readHead? hhead
      exact ⟨⟨room, .cons ⟨hplain, .nil, rfl⟩ hframes⟩, h.root⟩

theorem close? {name : Spelling} (h : p.Tidy literal) (hclose : p.close? name = some p')
    : p'.Tidy literal := by
  unfold Progress.close? at hclose
  split at hclose
  · cases hclose
  · next f frames hframes =>
      split at hclose
      · cases hclose
        obtain ⟨depth, hopen⟩ := h.frames
        rw [hframes] at hopen
        cases hopen with
        | cons inner outer =>
            have he : Xml.Tidy literal (depth + 1) f.close.forest :=
              .element inner.head inner.nodes .nil
            unfold Progress.addElement
            cases frames with
            | nil =>
                refine ⟨⟨_, outer⟩, ?_⟩
                rintro _ ⟨⟩
                have hdepth := outer.depth_add_length
                rw [List.length_nil, Nat.add_zero] at hdepth
                exact hdepth ▸ he
            | cons g frames =>
                cases outer with
                | cons inner outer => exact ⟨⟨_, .cons (inner.addNode he rfl) outer⟩, h.root⟩
      · cases hclose

/-- Taking in a token keeps everything tidy. -/
theorem take? {token : Token} (hd : literal → d = {}) (h : p.Tidy literal)
    (htake : p.take? d token = some p')
    : p'.Tidy literal := by
  have hfirst {f f' : Frame} {frames : List Frame} (hframes : p.frames = f :: frames)
      (hf : ∀ {depth}, f.Tidy literal depth → f'.Tidy literal depth)
      : Progress.Tidy literal { p with frames := f' :: frames } := by
    obtain ⟨depth, hopen⟩ := h.frames
    rw [hframes] at hopen
    cases hopen with
    | cons inner outer => exact ⟨⟨depth, .cons (hf inner) outer⟩, h.root⟩
  unfold Progress.take? at htake
  split at htake
  · obtain ⟨opened, hopen, hclose⟩ := Option.bind_eq_some_iff.mp htake
    have hopened := h.open? hd hopen
    split at hclose
    · exact hopened.close? hclose
    · cases hclose
      exact hopened
  · exact h.close? htake
  · next s ahead f frames hframes =>
      cases htake
      exact hfirst hframes fun hf => hf.addSegment s ahead
  · split at htake
    · cases htake
      exact h
    · cases htake
  · next s f frames hframes =>
      cases htake
      exact hfirst hframes fun hf => ⟨hf.head, hf.done, hf.apart⟩
  · cases htake
  · next name f frames hframes =>
      split at htake
      · next hrefer =>
          cases htake
          have hfree : literal = false := by
            by_contra hliteral
            obtain rfl := hd (by simpa using hliteral)
            simp [Doctype.mayRefer] at hrefer
          exact hfirst hframes fun hf => hf.addNode (.entity name hfree .nil) rfl
      · cases htake
  · cases htake

/-- Taking in tokens keeps everything tidy, by induction over them. -/
theorem foldlM {tokens : List Token} (hd : literal → d = {}) (h : p.Tidy literal)
    (hfold : tokens.foldlM (Progress.take? d) p = some p')
    : p'.Tidy literal := by
  induction tokens generalizing p with
  | nil =>
      cases hfold
      exact h
  | cons token tokens ih =>
      obtain ⟨next, hnext, hrest⟩ := Option.bind_eq_some_iff.mp hfold
      exact ih (h.take? hd hnext) hrest

end Progress.Tidy

theorem tidy_of_ofTokens? {literal : Bool} {d : Doctype} {tokens : List Token}
    {document : Document} (hd : literal → d = {})
    (h : Document.ofTokens? d tokens = some document)
    : Tidy literal maxDepth document.root.forest := by
  unfold Document.ofTokens? at h
  split at h
  · next p hp =>
      have hstart : Progress.Tidy literal {} := ⟨⟨maxDepth, .nil⟩, by simp⟩
      have htidy := hstart.foldlM hd hp
      split at h
      · obtain ⟨root, hroot, rfl⟩ := Option.map_eq_some_iff.mp h
        exact htidy.root root hroot
      · cases h
  · cases h

end SvgKit.Xml
