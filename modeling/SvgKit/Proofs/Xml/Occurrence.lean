import SvgKit.Proofs.Xml.Document
import SvgKit.Proofs.Xml.Layout

/-! Each element of a document that is read has its start tag in the text, and its end tag behind
that unless it closes itself.
-/

namespace SvgKit.Xml

-----------------------------------------------------------------------------------------
-- What is left is an end of the text
-----------------------------------------------------------------------------------------

theorem afterComment?_suffix {s rest : Text} (h : afterComment? s = some rest) : rest <:+ s := by
  unfold afterComment? at h
  split at h
  · next hs =>
      split at h
      · cases h
        exact (List.suffix_cons _ _).trans (Text.splitAtLiteral?_suffix hs)
      · cases h
  · cases h

theorem afterInstruction?_suffix {s rest : Text} (h : afterInstruction? s = some rest)
    : rest <:+ s := by
  unfold afterInstruction? at h
  split at h
  · cases h
  · next hn =>
      split at h
      · cases h
      · split at h
        · cases h
        · next hs =>
            split at h
            · cases h
              exact (Text.splitAtLiteral?_suffix hs).trans ⟨_, (eq_of_readFullName? hn).symm⟩
            · cases h

theorem readSection?_suffix {s content rest : Text} (h : readSection? s = some (content, rest))
    : rest <:+ s := by
  unfold readSection? at h
  split at h
  · cases h
  · next hs =>
      split at h
      · cases h
        exact Text.splitAtLiteral?_suffix hs
      · cases h

theorem readReference?_suffix {s rest : Text} {r : Reference}
    (h : readReference? s = some (r, rest))
    : rest <:+ s := by
  obtain ⟨body, rfl, -⟩ := exists_of_readReference? h
  exact ⟨body ++ [';'], by simp⟩

theorem readStart?_suffix {s rest : Text} {name : Spelling} {given : List (Spelling × Value)}
    {isEmpty : Bool} (h : readStart? s = some (.start name given isEmpty, rest))
    : rest <:+ s := by
  obtain ⟨t, -, -, rfl⟩ := exists_tagTail h
  exact ⟨name.text ++ (t.body ++ t.close), by simp⟩

theorem readFinish?_suffix {s rest : Text} {token : Token}
    (h : readFinish? s = some (token, rest))
    : rest <:+ s := by
  obtain ⟨name, space, -, -, rfl⟩ := exists_of_readFinish? h
  exact ⟨name.text ++ (space ++ ['>']), by simp⟩

/-- Behind character data stands an end of the text, by induction over its segments. -/
theorem readDataAfter?_suffix {done : List (List Token)} {s rest : Text} {tokens : List Token}
    (h : readDataAfter? done s = some (tokens, rest))
    : rest <:+ s := by
  have hlast (s : Text) : s.dropWhile isData <:+ s := List.dropWhile_suffix _
  fun_induction readDataAfter? done s with
  | case1 => cases h
  | case2 done s segment more hs segmentTokens _ _ ih =>
      have := List.dropWhile_suffix (l := s) isPlain
      rw [hs] at this
      exact ((ih h).trans (List.suffix_cons _ _)).trans this
  | case3 done s segment more hs segmentTokens _ _ =>
      have := List.dropWhile_suffix (l := s) isPlain
      rw [hs] at this
      rw [rest_of_last h]
      exact ((hlast _).trans (List.suffix_cons _ _)).trans this
  | case4 => cases h
  | case5 done s segment _ _ _ =>
      rw [rest_of_last h]
      exact (hlast _).trans (List.dropWhile_suffix _)

-----------------------------------------------------------------------------------------
-- Tokens
-----------------------------------------------------------------------------------------

/-- Character data makes no tags. -/
theorem eq_text_of_mem_readDataAfter? {done : List (List Token)} {s rest : Text}
    {tokens : List Token} (h : readDataAfter? done s = some (tokens, rest))
    (hdone : ∀ read ∈ done, ∀ token ∈ read, ∃ s ahead, token = .text s ahead)
    : ∀ token ∈ tokens, ∃ s ahead, token = .text s ahead := by
  have hsegment {s rest : Text} {tokens : List Token} (h : textToken? s rest = some tokens)
      : ∀ token ∈ tokens, ∃ s ahead, token = .text s ahead := by
    unfold textToken? at h
    split at h
    · cases h
      simp
    · split at h
      · cases h
      · cases h
        simp
  have hlast {done : List (List Token)} {s : Text}
      (h : readDataAfter?.last done s = some (tokens, rest))
      (hdone : ∀ read ∈ done, ∀ token ∈ read, ∃ s ahead, token = .text s ahead)
      : ∀ token ∈ tokens, ∃ s ahead, token = .text s ahead := by
    obtain ⟨segment, hlast, heq⟩ := Option.map_eq_some_iff.mp h
    cases heq
    intro token htoken
    simp only [List.mem_flatten, List.mem_reverse, List.mem_cons] at htoken
    obtain ⟨read, rfl | hread, htoken⟩ := htoken
    · exact hsegment hlast token htoken
    · exact hdone read hread token htoken
  fun_induction readDataAfter? done s with
  | case1 => cases h
  | case2 done s segment more hs tokens' htokens _ ih =>
      exact ih h (List.forall_mem_cons.mpr ⟨hsegment htokens, hdone⟩)
  | case3 done s segment more hs tokens' htokens _ =>
      exact hlast h (List.forall_mem_cons.mpr ⟨hsegment htokens, hdone⟩)
  | case4 => cases h
  | case5 done s segment _ tokens' htokens =>
      exact hlast h (List.forall_mem_cons.mpr ⟨hsegment htokens, hdone⟩)

/-- What begins at the head of a text is a start tag, an end tag, or holds no tag. -/
theorem readTokens?_cases {s rest : Text} {tokens : List Token}
    (h : readTokens? s = some (tokens, rest))
    : rest <:+ s
      ∧ ((∃ t name given isEmpty, s = '<' :: t
            ∧ readStart? t = some (.start name given isEmpty, rest)
            ∧ tokens = [.start name given isEmpty])
        ∨ (∃ t name, s = '<' :: '/' :: t ∧ readFinish? t = some (.finish name, rest)
            ∧ tokens = [.finish name])
        ∨ ∀ token ∈ tokens, (∀ name given isEmpty, token ≠ .start name given isEmpty)
            ∧ ∀ name, token ≠ .finish name) := by
  have hcons {c : Char} {s rest : Text} (h : rest <:+ s) : rest <:+ c :: s :=
    h.trans (List.suffix_cons _ _)
  unfold readTokens? at h
  split at h
  · obtain ⟨_, hafter, heq⟩ := Option.map_eq_some_iff.mp h
    cases heq
    exact ⟨hcons (hcons (afterInstruction?_suffix hafter)), .inr (.inr (by simp))⟩
  · obtain ⟨_, hafter, heq⟩ := Option.map_eq_some_iff.mp h
    cases heq
    exact ⟨hcons (hcons (hcons (hcons (afterComment?_suffix hafter)))), .inr (.inr (by simp))⟩
  · split at h
    · cases h
    · next hopening =>
        obtain ⟨_, hsection, heq⟩ := Option.map_eq_some_iff.mp h
        cases heq
        rw [Text.dropLiteral?_eq_some_iff.mp hopening]
        exact ⟨hcons (hcons ((readSection?_suffix hsection).trans (List.suffix_append _ _))),
          .inr (.inr (by simp))⟩
  · next t =>
      obtain ⟨⟨token, left⟩, hfinish, heq⟩ := Option.map_eq_some_iff.mp h
      cases heq
      obtain ⟨name, space, rfl, -⟩ := exists_of_readFinish? hfinish
      exact ⟨hcons (hcons (readFinish?_suffix hfinish)), .inr (.inl ⟨t, name, rfl, hfinish, rfl⟩)⟩
  · next t _ _ _ _ =>
      obtain ⟨⟨token, left⟩, hstart, heq⟩ := Option.map_eq_some_iff.mp h
      cases heq
      have htoken : ∃ name given isEmpty, token = .start name given isEmpty := by
        unfold readStart? at hstart
        split at hstart
        · cases hstart
        · obtain ⟨⟨⟨given, isEmpty⟩, left⟩, -, heq⟩ := Option.map_eq_some_iff.mp hstart
          cases heq
          exact ⟨_, _, _, rfl⟩
      obtain ⟨name, given, isEmpty, rfl⟩ := htoken
      exact ⟨hcons (readStart?_suffix hstart),
        .inl ⟨t, name, given, isEmpty, rfl, hstart, rfl⟩⟩
  · obtain ⟨⟨r, left⟩, hr, heq⟩ := Option.map_eq_some_iff.mp h
    have hsuffix := hcons (c := '&') (readReference?_suffix hr)
    cases r <;>
    · cases heq
      exact ⟨hsuffix, .inr (.inr (by simp))⟩
  · split at h
    · refine ⟨readDataAfter?_suffix h, .inr (.inr fun token htoken => ?_)⟩
      obtain ⟨_, _, rfl⟩ := eq_text_of_mem_readDataAfter? h (by simp) token htoken
      simp
    · cases h
  · cases h

/-- The tokens of a text, item by item. -/
inductive Items : Text → List Token → Prop where
  | nil : Items [] []
  | cons {s rest : Text} {first more : List Token} (hread : readTokens? s = some (first, rest))
      (h : Items rest more)
    : Items s (first ++ more)

theorem items_of_tokens? {s : Text} {tokens : List Token} (h : tokens? s = some tokens)
    : Items s tokens := by
  induction hlength : s.length using Nat.strong_induction_on generalizing s tokens with
  | _ length ih =>
      rw [tokens?, tokensAfter?] at h
      split at h
      · next hempty =>
          obtain rfl := List.isEmpty_iff.mp hempty
          cases h
          exact .nil
      · split at h
        · next first rest hread =>
            rw [tokensAfter?_eq] at h
            obtain ⟨more, hmore, rfl⟩ := Option.map_eq_some_iff.mp h
            have hshorter := length_readTokens? hread
            simpa using Items.cons hread (ih _ (by omega) hmore rfl)
        · cases h

/-- An end tag among the tokens stands in the text. -/
theorem Items.exists_finish {s : Text} {tokens : List Token} (h : Items s tokens)
    {name : Spelling} (hmem : .finish name ∈ tokens)
    : ∃ t rest, '<' :: '/' :: t <:+ s ∧ readFinish? t = some (.finish name, rest) := by
  induction h with
  | nil => cases hmem
  | @cons s rest first more hread _ ih =>
      obtain ⟨hsuffix, hcases⟩ := readTokens?_cases hread
      rcases List.mem_append.mp hmem with hmem | hmem
      · rcases hcases with ⟨_, _, _, _, -, -, rfl⟩ | ⟨t, name', rfl, hfinish, rfl⟩ | hnone
        · simp at hmem
        · obtain rfl : name = name' := by simpa using hmem
          exact ⟨t, rest, List.suffix_rfl, hfinish⟩
        · exact absurd rfl ((hnone _ hmem).2 name)
      · obtain ⟨t, left, hsuffix', hfinish⟩ := ih hmem
        exact ⟨t, left, hsuffix'.trans hsuffix, hfinish⟩

/-- A start tag among the tokens stands in the text, with the other tokens behind it. -/
theorem Items.exists_start {s : Text} {tokens before more : List Token} (h : Items s tokens)
    {name : Spelling} {given : List (Spelling × Value)} {isEmpty : Bool}
    (heq : tokens = before ++ .start name given isEmpty :: more)
    : ∃ t rest, '<' :: t <:+ s ∧ readStart? t = some (.start name given isEmpty, rest)
      ∧ Items rest more := by
  induction h generalizing before with
  | nil => simp at heq
  | @cons s rest first others hread hothers ih =>
      obtain ⟨hsuffix, hcases⟩ := readTokens?_cases hread
      have hbehind (before' : List Token) (hbefore : before = first ++ before')
          : ∃ t rest, '<' :: t <:+ s ∧ readStart? t = some (.start name given isEmpty, rest)
            ∧ Items rest more := by
        rw [hbefore, List.append_assoc, List.append_cancel_left_eq] at heq
        obtain ⟨t, left, hsuffix', hstart, hmore⟩ := ih heq
        exact ⟨t, left, hsuffix'.trans hsuffix, hstart, hmore⟩
      rcases List.append_eq_append_iff.mp heq with ⟨before', hbefore, -⟩ | ⟨tail, hfirst, htail⟩
      · exact hbehind before' hbefore
      · cases tail with
        | nil => exact hbehind [] (by simpa using hfirst.symm)
        | cons token tail =>
            obtain ⟨rfl, hmore⟩ := List.cons.inj htail
            have hmem : .start name given isEmpty ∈ first := by simp [hfirst]
            rcases hcases with ⟨t, name', given', isEmpty', rfl, hstart, rfl⟩
              | ⟨_, _, -, -, rfl⟩ | hnone
            · obtain ⟨rfl, rfl, rfl⟩ : name = name' ∧ given = given' ∧ isEmpty = isEmpty' := by
                simpa using hmem
              obtain rfl : tail = [] := by
                have hlength := congrArg List.length hfirst
                simp only [List.length_append, List.length_cons, List.length_nil] at hlength
                exact List.length_eq_zero_iff.mp (by omega)
              rw [hmore]
              exact ⟨t, rest, List.suffix_rfl, hstart, hothers⟩
            · simp at hmem
            · exact absurd rfl ((hnone _ hmem).1 name given isEmpty)

-----------------------------------------------------------------------------------------
-- Open elements
-----------------------------------------------------------------------------------------

/-- The heads of an open element and of the elements in it so far. -/
def Frame.heads (f : Frame) : List Head := f.head :: Node.allHeads f.nodes

/-- All heads so far satisfy a condition. -/
structure Progress.HeadsSatisfy (P : Head → Prop) (p : Progress) : Prop where
  frames : ∀ f ∈ p.frames, ∀ h ∈ f.heads, P h
  root : ∀ e, p.root = some e → ∀ h ∈ e.heads, P h

/-- The innermost element changed in what it holds, without elements. -/
structure Frame.TakesData (f f' : Frame) : Prop where
  spelling : f'.spelling = f.spelling
  heads : f'.heads = f.heads

theorem Frame.takesData_addText (f : Frame) (s : Text) : f.TakesData (f.addText s) := by
  refine ⟨rfl, ?_⟩
  unfold heads Frame.nodes addText
  dsimp only
  cases f.pending <;> simp

theorem Frame.takesData_addSegment (f : Frame) (s : Text) (ahead : Ahead)
    : f.TakesData (f.addSegment s ahead) := by
  unfold addSegment
  split
  · exact ⟨rfl, rfl⟩
  · exact ⟨rfl, (f.takesData_addText s).heads⟩

theorem Frame.takesData_addEntity (f : Frame) (name : Text)
    : f.TakesData (f.addNode (.entity name)) := by
  refine ⟨rfl, ?_⟩
  simp [heads, addNode, Frame.nodes]

/-- What a token does: it opens an element, closes one, or goes into the innermost one. -/
theorem Progress.take?_cases {d : Doctype} {p p' : Progress} {token : Token}
    (h : p.take? d token = some p')
    : (∃ name given isEmpty opened, token = .start name given isEmpty
          ∧ p.open? d name given = some opened
          ∧ (if isEmpty then opened.close? name else some opened) = some p')
      ∨ (∃ name, token = .finish name ∧ p.close? name = some p')
      ∨ p' = p
      ∨ ∃ f f' frames, p.frames = f :: frames ∧ p' = { p with frames := f' :: frames }
        ∧ f.TakesData f' := by
  unfold Progress.take? at h
  split at h
  · obtain ⟨opened, hopen, hclose⟩ := Option.bind_eq_some_iff.mp h
    exact .inl ⟨_, _, _, opened, rfl, hopen, hclose⟩
  · exact .inr (.inl ⟨_, rfl, h⟩)
  · next s ahead f frames hframes =>
      cases h
      exact .inr (.inr (.inr ⟨f, _, frames, hframes, rfl, f.takesData_addSegment s ahead⟩))
  · split at h
    · cases h
      exact .inr (.inr (.inl rfl))
    · cases h
  · next s f frames hframes =>
      cases h
      exact .inr (.inr (.inr ⟨f, _, frames, hframes, rfl, f.takesData_addText s⟩))
  · cases h
  · next name f frames hframes =>
      split at h
      · cases h
        exact .inr (.inr (.inr ⟨f, _, frames, hframes, rfl, f.takesData_addEntity name⟩))
      · cases h
  · cases h

/-- Opening an element puts a frame on top. -/
theorem Progress.open?_eq_some {d : Doctype} {p opened : Progress} {name : Spelling}
    {given : List (Spelling × Value)} (h : p.open? d name given = some opened)
    : ∃ f scope mark, opened.frames = f :: p.frames ∧ opened.root = p.root ∧ f.spelling = name
      ∧ readHead? d scope mark name given = some f.head ∧ f.nodes = [] := by
  unfold Progress.open? at h
  split at h
  · cases h
  · obtain ⟨head, hhead, rfl⟩ := Option.map_eq_some_iff.mp h
    exact ⟨_, _, _, rfl, rfl, rfl, hhead, rfl⟩

/-- Closing an element puts it in the frame below, or makes it the root. -/
theorem Progress.close?_eq_some {p p' : Progress} {name : Spelling}
    (h : p.close? name = some p')
    : ∃ f frames, p.frames = f :: frames ∧ f.spelling = name
      ∧ (frames = [] ∧ p' = { p with frames := [], root := some f.close }
        ∨ ∃ g outer, frames = g :: outer
          ∧ p' = { p with frames := g.addNode (.element f.head f.nodes.reverse) :: outer }) := by
  unfold Progress.close? at h
  split at h
  · cases h
  · next f frames hframes =>
      split at h
      · next hspelling =>
          cases h
          refine ⟨f, frames, hframes, hspelling, ?_⟩
          cases frames with
          | nil => exact .inl ⟨rfl, rfl⟩
          | cons g outer => exact .inr ⟨g, outer, rfl, rfl⟩
      · cases h

-----------------------------------------------------------------------------------------
-- End tags
-----------------------------------------------------------------------------------------

/-- An open element stays open, but for the tag that ends it. -/
theorem Progress.exists_spelling_of_close? {p p' : Progress} {name : Spelling}
    (h : p.close? name = some p') {f : Frame} (hf : f ∈ p.frames)
    : name = f.spelling ∨ ∃ f' ∈ p'.frames, f'.spelling = f.spelling := by
  obtain ⟨first, frames, hframes, hspelling, hcases⟩ := close?_eq_some h
  rw [hframes] at hf
  rcases List.mem_cons.mp hf with rfl | hf
  · exact .inl hspelling.symm
  · rcases hcases with ⟨rfl, -⟩ | ⟨g, outer, rfl, rfl⟩
    · cases hf
    · rcases List.mem_cons.mp hf with rfl | hf
      · exact .inr ⟨_, List.mem_cons_self, rfl⟩
      · exact .inr ⟨f, List.mem_cons_of_mem _ hf, rfl⟩

theorem Progress.exists_spelling_of_take? {d : Doctype} {p p' : Progress} {token : Token}
    (h : p.take? d token = some p') {f : Frame} (hf : f ∈ p.frames)
    : token = .finish f.spelling ∨ ∃ f' ∈ p'.frames, f'.spelling = f.spelling := by
  rcases take?_cases h with ⟨name, given, isEmpty, opened, rfl, hopen, hclose⟩
    | ⟨name, rfl, hclose⟩ | rfl | ⟨first, first', frames, hframes, rfl, hdata⟩
  · obtain ⟨top, scope, mark, hframes, -, hspelling, -⟩ := open?_eq_some hopen
    have hf' : f ∈ opened.frames := hframes ▸ List.mem_cons_of_mem _ hf
    cases isEmpty with
    | false =>
        cases hclose
        exact .inr ⟨f, hf', rfl⟩
    | true =>
        -- the frame that is closed is the one on top, not one of those below
        obtain ⟨first, frames, hframes', -, hcases⟩ := close?_eq_some hclose
        obtain ⟨rfl, rfl⟩ := List.cons.inj (hframes.symm.trans hframes')
        rcases hcases with ⟨hnil, -⟩ | ⟨g, outer, hcons, rfl⟩
        · rw [hnil] at hf
          cases hf
        · rw [hcons] at hf
          rcases List.mem_cons.mp hf with rfl | hf
          · exact .inr ⟨_, List.mem_cons_self, rfl⟩
          · exact .inr ⟨f, List.mem_cons_of_mem _ hf, rfl⟩
  · exact (exists_spelling_of_close? hclose hf).imp_left fun hname => by rw [hname]
  · exact .inr ⟨f, hf, rfl⟩
  · rw [hframes] at hf
    rcases List.mem_cons.mp hf with rfl | hf
    · exact .inr ⟨first', List.mem_cons_self, hdata.spelling⟩
    · exact .inr ⟨f, List.mem_cons_of_mem _ hf, rfl⟩

/-- What is open before tokens that close everything is closed by one of them, by induction over
the tokens.
-/
theorem Progress.finish_mem_of_foldlM {d : Doctype} {p p' : Progress} {tokens : List Token}
    (h : tokens.foldlM (Progress.take? d) p = some p') (hclosed : p'.frames = []) {f : Frame}
    (hf : f ∈ p.frames)
    : .finish f.spelling ∈ tokens := by
  induction tokens generalizing p f with
  | nil =>
      cases h
      rw [hclosed] at hf
      cases hf
  | cons token tokens ih =>
      obtain ⟨next, hnext, hrest⟩ := Option.bind_eq_some_iff.mp h
      rcases exists_spelling_of_take? hnext hf with rfl | ⟨f', hf', hspelling⟩
      · exact List.mem_cons_self
      · exact List.mem_cons_of_mem _ (hspelling ▸ ih hrest hf')

-----------------------------------------------------------------------------------------
-- Heads
-----------------------------------------------------------------------------------------

theorem Node.mem_allHeads_reverse {nodes : List Node} {h : Head}
    : h ∈ Node.allHeads nodes.reverse ↔ h ∈ Node.allHeads nodes := by
  induction nodes with
  | nil => simp
  | cons node nodes ih =>
      have hcons : Node.allHeads (node :: nodes)
          = Node.allHeads [node] ++ Node.allHeads nodes := Node.allHeads_append [node] nodes
      rw [List.reverse_cons, Node.allHeads_append, hcons, List.mem_append, List.mem_append, ih,
        or_comm]

theorem Frame.heads_close (f : Frame) {h : Head} : h ∈ f.close.heads ↔ h ∈ f.heads := by
  rw [Element.heads, Frame.heads, Frame.close, List.mem_cons, List.mem_cons,
    Node.mem_allHeads_reverse]

namespace Progress.HeadsSatisfy

variable {P : Head → Prop} {p p' : Progress}

theorem close? {name : Spelling} (h : p.HeadsSatisfy P) (hclose : p.close? name = some p')
    : p'.HeadsSatisfy P := by
  obtain ⟨f, frames, hframes, -, hcases⟩ := Progress.close?_eq_some hclose
  have hall := h.frames
  rw [hframes, List.forall_mem_cons] at hall
  have hclosed : ∀ head ∈ f.close.heads, P head := fun head hhead =>
    hall.1 head (f.heads_close.mp hhead)
  rcases hcases with ⟨rfl, rfl⟩ | ⟨g, outer, rfl, rfl⟩
  · refine ⟨by simp, ?_⟩
    rintro _ ⟨⟩
    exact hclosed
  · have hg := (List.forall_mem_cons.mp hall.2).1
    have houter := (List.forall_mem_cons.mp hall.2).2
    refine ⟨List.forall_mem_cons.mpr ⟨fun head hhead => ?_, houter⟩, h.root⟩
    have hmem : head ∈ f.close.heads ∨ head ∈ g.heads := by
      simp only [Frame.heads, Frame.addNode, Frame.nodes, Node.allHeads_element, List.mem_cons,
        List.mem_append, Element.heads, Frame.close] at hhead ⊢
      tauto
    exact hmem.elim (hclosed head) (hg head)

theorem take? {d : Doctype} {token : Token} (h : p.HeadsSatisfy P)
    (hP : ∀ name given isEmpty, token = .start name given isEmpty
      → ∀ scope mark head, readHead? d scope mark name given = some head → P head)
    (htake : p.take? d token = some p')
    : p'.HeadsSatisfy P := by
  rcases Progress.take?_cases htake with ⟨name, given, isEmpty, opened, rfl, hopen, hclose⟩
    | ⟨name, rfl, hclose⟩ | rfl | ⟨f, f', frames, hframes, rfl, hdata⟩
  · obtain ⟨f, scope, mark, hframes, hroot, -, hhead, hnodes⟩ := Progress.open?_eq_some hopen
    have hopened : opened.HeadsSatisfy P := by
      refine ⟨?_, hroot ▸ h.root⟩
      rw [hframes]
      refine List.forall_mem_cons.mpr ⟨?_, h.frames⟩
      simpa [Frame.heads, hnodes] using hP name given isEmpty rfl scope mark f.head hhead
    cases isEmpty with
    | false =>
        cases hclose
        exact hopened
    | true => exact hopened.close? hclose
  · exact h.close? hclose
  · exact h
  · have hall := h.frames
    rw [hframes, List.forall_mem_cons] at hall
    exact ⟨List.forall_mem_cons.mpr ⟨hdata.heads ▸ hall.1, hall.2⟩, h.root⟩

/-- The heads that tokens make satisfy what the heads of their start tags do, by induction over
the tokens.
-/
theorem foldlM {d : Doctype} {tokens : List Token} (h : p.HeadsSatisfy P)
    (hP : ∀ before name given isEmpty more, tokens = before ++ .start name given isEmpty :: more
      → ∀ scope mark head, readHead? d scope mark name given = some head → P head)
    (hfold : tokens.foldlM (Progress.take? d) p = some p')
    : p'.HeadsSatisfy P := by
  induction tokens generalizing p with
  | nil =>
      cases hfold
      exact h
  | cons token tokens ih =>
      obtain ⟨next, hnext, hrest⟩ := Option.bind_eq_some_iff.mp hfold
      refine ih (h.take? (fun name given isEmpty heq => ?_) hnext)
        (fun before name given isEmpty more heq => ?_) hrest
      · exact hP [] name given isEmpty tokens (by rw [heq]; rfl)
      · exact hP (token :: before) name given isEmpty more (by rw [heq]; rfl)

end Progress.HeadsSatisfy

theorem Progress.exists_frame_of_start {d : Doctype} {p p' : Progress} {name : Spelling}
    {given : List (Spelling × Value)} (h : p.take? d (.start name given false) = some p')
    : ∃ f ∈ p'.frames, f.spelling = name := by
  obtain ⟨opened, hopen, heq⟩ := Option.bind_eq_some_iff.mp h
  obtain ⟨f, scope, mark, hframes, -, hspelling, -⟩ := open?_eq_some hopen
  cases heq
  exact ⟨f, hframes ▸ List.mem_cons_self, hspelling⟩

/-- Each head of what tokens build is that of a start tag among them. The tag that ends the
element is behind it, unless it closes itself.
-/
theorem exists_start_of_ofTokens? {d : Doctype} {tokens : List Token} {document : Document}
    (h : Document.ofTokens? d tokens = some document)
    : ∀ head ∈ document.root.heads, ∃ before name given isEmpty more scope mark,
      tokens = before ++ .start name given isEmpty :: more
      ∧ readHead? d scope mark name given = some head
      ∧ (isEmpty = false → .finish name ∈ more) := by
  unfold Document.ofTokens? at h
  split at h
  · next p hp =>
      split at h
      · next hclosed =>
          obtain ⟨root, hroot, rfl⟩ := Option.map_eq_some_iff.mp h
          refine (Progress.HeadsSatisfy.foldlM (p := {}) ⟨by simp, by simp⟩
            (fun before name given isEmpty more heq scope mark head hread => ?_) hp).root root hroot
          refine ⟨before, name, given, isEmpty, more, scope, mark, heq, hread, fun hopen => ?_⟩
          subst hopen
          rw [heq, List.foldlM_append] at hp
          obtain ⟨reached, -, hfold⟩ := Option.bind_eq_some_iff.mp hp
          obtain ⟨next, hnext, hrest⟩ := Option.bind_eq_some_iff.mp hfold
          obtain ⟨f, hf, rfl⟩ := Progress.exists_frame_of_start hnext
          exact Progress.finish_mem_of_foldlM hrest (List.isEmpty_iff.mp hclosed) hf
      · cases h
  · cases h

-----------------------------------------------------------------------------------------
-- What a head says
-----------------------------------------------------------------------------------------

theorem label_of_lookupLabel? {scope : List Binding} {label : Option Text} {b : Binding}
    (h : lookupLabel? scope label = some b)
    : b.label = label := by
  unfold lookupLabel? at h
  split at h
  · next hxml =>
      cases h
      exact hxml.symm
  · simpa using List.find?_some h

theorem spelling_of_elementName? {scope : List Binding} {n : Spelling} {name : Name}
    (h : elementName? scope n = some name)
    : name.spelling = n := by
  obtain ⟨space, base⟩ := n
  unfold elementName? at h
  dsimp only at h
  split at h
  · next b hlookup =>
      cases h
      have hlabel := label_of_lookupLabel? hlookup
      split <;> simp [Name.spelling, hlabel]
  · cases h
    rfl
  · next label b hlookup =>
      cases h
      simp [Name.spelling, label_of_lookupLabel? hlookup]
  · cases h

theorem spelling_of_attributeName? {scope : List Binding} {n : Spelling} {name : Name}
    (h : attributeName? scope n = some name)
    : name.spelling = n := by
  obtain ⟨space, base⟩ := n
  unfold attributeName? at h
  split at h
  · next hspace =>
      cases h
      obtain rfl : space = none := hspace
      rfl
  · next label hspace =>
      obtain ⟨b, hlookup, rfl⟩ := Option.map_eq_some_iff.mp h
      obtain rfl : space = some label := hspace
      simp [Name.spelling, label_of_lookupLabel? hlookup]

/-- A head has the name of its tag. Without rules for attributes, each attribute is given in
the tag, and its value as well if no entity is referred to.
-/
theorem exists_given_of_readHead? {d : Doctype} (hd : d.rules = []) {scope : List Binding}
    {mark : Nat} {name : Spelling} {given : List (Spelling × Value)} {head : Head}
    (h : readHead? d scope mark name given = some head)
    : head.name.spelling = name
      ∧ ∀ a ∈ head.attributes, ∃ pair ∈ given, a.name.spelling = pair.1
        ∧ (a.spelling = none → pair.2 = a.value.map .char) := by
  obtain ⟨raw, hraw, -, -, helement, hattributes, -⟩ := readHead?_eq_some_iff.mp h
  refine ⟨spelling_of_elementName? helement, fun a ha => ?_⟩
  obtain ⟨b, hb, hread⟩ := exists_of_mem_mapM hattributes ha
  obtain ⟨n, hn, rfl⟩ := Option.map_eq_some_iff.mp hread
  obtain ⟨pair, hpair, hb⟩ := exists_of_mem_mapM hraw (List.mem_of_mem_filter hb)
  have hdefaults : d.defaults name given = [] := by rw [Doctype.defaults, hd, List.filterMap_nil]
  rw [hdefaults, List.append_nil] at hpair
  have hname : b.name = pair.1 := by
    obtain ⟨value, -, rfl⟩ := Option.map_eq_some_iff.mp hb
    rfl
  refine ⟨pair, hpair, (spelling_of_attributeName? hn).trans hname, fun hspelling => ?_⟩
  dsimp only at hspelling
  have hentity : pair.2.any Reference.isEntity = false := by
    obtain ⟨value, -, rfl⟩ := Option.map_eq_some_iff.mp hb
    dsimp only at hspelling
    split at hspelling
    · cases hspelling
    · next hentity => simpa using hentity
  obtain ⟨s, hs⟩ := exists_eq_map_char hentity
  obtain ⟨n', value⟩ := pair
  obtain rfl : value = s.map .char := hs
  rw [rawAttribute?_char hd] at hb
  cases hb
  rfl

-----------------------------------------------------------------------------------------
-- In front of the root
-----------------------------------------------------------------------------------------

theorem dropSpace_suffix (s : Text) : dropSpace s <:+ s := List.dropWhile_suffix _

theorem readQuoted?_suffix {s spelled rest : Text} (h : readQuoted? s = some (spelled, rest))
    : rest <:+ s := by
  obtain ⟨quote, -, -, rfl⟩ := eq_of_readQuoted? h
  exact ⟨quote :: (spelled ++ [quote]), by simp⟩

theorem readPart?_suffix {key s rest : Text} {value : Option Text}
    (h : readPart? key s = some (value, rest))
    : rest <:+ s := by
  unfold readPart? at h
  split at h
  · cases h
    exact List.suffix_rfl
  · next left hleft =>
      split at h
      · next c _ rest' hrest =>
          split at h
          · obtain ⟨⟨value', left'⟩, hquoted, heq⟩ := Option.map_eq_some_iff.mp h
            cases heq
            have hequals : rest' <:+ left := by
              have := dropSpace_suffix left
              rw [hrest] at this
              exact (List.suffix_cons _ _).trans this
            have hkey := Text.dropLiteral?_eq_some_iff.mp hleft
            have hbefore : left <:+ dropSpace (c :: _) := hkey ▸ List.suffix_append _ _
            exact (((readQuoted?_suffix hquoted).trans (dropSpace_suffix _)).trans
              hequals).trans (hbefore.trans (dropSpace_suffix _))
          · cases h
      · cases h

theorem readXmlDeclaration?_suffix {s rest : Text} {alone : Bool}
    (h : readXmlDeclaration? s = some (alone, rest))
    : rest <:+ s := by
  simp only [readXmlDeclaration?, Option.bind_eq_bind, Option.bind_eq_some_iff] at h
  obtain ⟨⟨version, s₁⟩, h₁, _, -, _, -, ⟨_, s₂⟩, h₂, ⟨standalone, s₃⟩, h₃, h⟩ := h
  have hbehind : rest <:+ s₃ := by
    have hclose {left : Text} (hleft : dropSpace s₃ = '?' :: '>' :: left) : left <:+ s₃ := by
      have := dropSpace_suffix s₃
      rw [hleft] at this
      exact ((List.suffix_cons _ _).trans (List.suffix_cons _ _)).trans this
    repeat' split at h
    all_goals first
      | cases h; done
      | next left hleft =>
          cases h
          exact hclose hleft
  exact hbehind.trans ((readPart?_suffix h₃).trans
    ((readPart?_suffix h₂).trans (readPart?_suffix h₁)))

theorem afterXmlDeclaration?_suffix {s rest : Text} {alone : Bool}
    (h : afterXmlDeclaration? s = some (alone, rest))
    : rest <:+ s := by
  unfold afterXmlDeclaration? at h
  split at h
  · next c left hleft =>
      split at h
      · rw [Text.dropLiteral?_eq_some_iff.mp hleft]
        exact (readXmlDeclaration?_suffix h).trans (List.suffix_append _ _)
      · cases h
        exact List.suffix_rfl
  · cases h
    exact List.suffix_rfl

theorem dropMisc?_suffix {s rest : Text} (h : dropMisc? s = some rest) : rest <:+ s := by
  have hcons {c : Char} {s rest : Text} (h : rest <:+ s) : rest <:+ c :: s :=
    h.trans (List.suffix_cons _ _)
  fun_induction dropMisc? s with
  | case1 s left hleft ih => exact hcons (hcons ((ih h).trans (afterInstruction?_suffix hleft)))
  | case3 s left hleft ih =>
      exact hcons (hcons (hcons (hcons ((ih h).trans (afterComment?_suffix hleft)))))
  | case5 c s _ _ _ ih => exact hcons (ih h)
  | case6 | case7 =>
      cases h
      exact List.suffix_rfl
  | case2 | case4 => cases h

theorem dropByteOrderMark_suffix (s : Text) : dropByteOrderMark s <:+ s := by
  unfold dropByteOrderMark
  split
  · exact List.suffix_cons _ _
  · exact List.suffix_rfl

-----------------------------------------------------------------------------------------
-- The document type declaration
-----------------------------------------------------------------------------------------

theorem readWords?_suffix {words found : List Word} {state : WordState} {s rest : Text}
    (h : readWords? words state s = some (found, rest))
    : rest <:+ s := by
  induction s generalizing words state with
  | nil => simp [readWords?] at h
  | cons c s ih =>
      have step {words state} (h : readWords? words state s = some (found, rest))
          : rest <:+ c :: s :=
        (ih h).trans (List.suffix_cons c s)
      unfold readWords? at h
      grind

theorem readDeclaration?_suffix {d d' : Doctype} {s rest : Text}
    (h : readDeclaration? d s = some (d', rest))
    : rest <:+ s := by
  unfold readDeclaration? at h
  split at h
  · next words left hwords =>
      obtain ⟨declared, -, heq⟩ := Option.map_eq_some_iff.mp h
      cases heq
      exact (List.suffix_cons _ _).trans (readWords?_suffix hwords)
  · cases h

/-- Behind the closing bracket of declarations stands an end of the text, by induction over
them.
-/
theorem readSubset?_suffix {d d' : Doctype} {s rest : Text}
    (h : readSubset? d s = some (d', rest))
    : rest <:+ s := by
  have hcons {c : Char} {s₁ s₂ : Text} (h : s₁ <:+ s₂) : s₁ <:+ c :: s₂ :=
    h.trans (List.suffix_cons _ _)
  fun_induction readSubset? d s with
  | case1 =>
      cases h
      exact List.suffix_cons _ _
  | case2 d s name left hname ih =>
      rw [(eq_of_readName? hname).1]
      exact hcons ((ih h).trans ((List.suffix_cons _ _).trans (List.suffix_append _ _)))
  | case4 d s left hleft ih => exact hcons (hcons ((ih h).trans (afterInstruction?_suffix hleft)))
  | case6 d s left hleft ih =>
      exact hcons (hcons (hcons (hcons ((ih h).trans (afterComment?_suffix hleft)))))
  | case8 d s _ next left hnext ih =>
      exact hcons (hcons ((ih h).trans (readDeclaration?_suffix hnext)))
  | case10 d c s _ _ _ _ _ _ ih => exact hcons (ih h)
  | case3 | case5 | case7 | case9 | case11 | case12 => cases h

theorem readDoctype?_suffix {d : Doctype} {s rest : Text} (h : readDoctype? s = some (d, rest))
    : rest <:+ s := by
  unfold readDoctype? at h
  split at h
  · cases h
  · split at h
    · cases h
    · split at h
      · next name words left hwords =>
          have hsuffix := readWords?_suffix hwords
          dsimp only at h
          generalize (if words.isEmpty then some false else (dropExternal? words).bind
            fun left => if left.isEmpty then some true else none) = external at h
          split at h
          · cases h
            exact (List.suffix_cons _ _).trans hsuffix
          · split at h
            · next behind hsubset =>
                split at h
                · next hbehind =>
                    cases h
                    have hspace := dropSpace_suffix behind
                    rw [hbehind] at hspace
                    exact (((List.suffix_cons _ _).trans hspace).trans
                      (readSubset?_suffix hsubset)).trans
                        ((List.suffix_cons _ _).trans hsuffix)
                · cases h
            · cases h
          · cases h
      · cases h

theorem readDoctypeOrNone?_suffix {d : Doctype} {s rest : Text}
    (h : readDoctypeOrNone? s = some (d, rest))
    : rest <:+ s := by
  unfold readDoctypeOrNone? at h
  split at h
  · next left hleft =>
      rw [Text.dropLiteral?_eq_some_iff.mp hleft]
      exact (readDoctype?_suffix h).trans (List.suffix_append _ _)
  · cases h
    exact List.suffix_rfl

/-- The rules for attributes that the document type declaration of a text makes. -/
def attributeRules (s : Text) : List AttributeRule :=
  match (afterXmlDeclaration? (dropByteOrderMark s)).bind fun (_, rest) =>
      (dropMisc? rest).bind readDoctypeOrNone? with
  | some (d, _) => d.rules
  | none => []

-----------------------------------------------------------------------------------------
-- Documents
-----------------------------------------------------------------------------------------

/-- Each element of a document that is read has its start tag in the text. The tag that ends it
stands behind that, unless it closes itself.
-/
theorem exists_readStart?_of_ofText? {s : Text} {document : Document}
    (h : Document.ofText? s = some document)
    : ∃ d : Doctype, d.rules = attributeRules s
      ∧ ∀ head ∈ document.root.heads, ∃ t rest name given isEmpty scope mark, '<' :: t <:+ s
        ∧ readStart? t = some (.start name given isEmpty, rest)
        ∧ readHead? d scope mark name given = some head
        ∧ (isEmpty = false → ∃ u left, '<' :: '/' :: u <:+ rest
          ∧ readFinish? u = some (.finish name, left)) := by
  rw [ofText?_eq] at h
  simp only [Option.bind_eq_some_iff] at h
  obtain ⟨⟨alone, s₁⟩, hxml, s₂, hmisc, ⟨d, s₃⟩, hdoctype, s₄, hmisc', tokens, htokens, h⟩ := h
  have hbefore : s₂ <:+ s := (dropMisc?_suffix hmisc).trans
    ((afterXmlDeclaration?_suffix hxml).trans (dropByteOrderMark_suffix s))
  have hbody : s₄ <:+ s :=
    ((dropMisc?_suffix hmisc').trans (readDoctypeOrNone?_suffix hdoctype)).trans hbefore
  refine ⟨{ d with incomplete := d.incomplete && !alone }, ?_, fun head hhead => ?_⟩
  · simp [attributeRules, hxml, hmisc, hdoctype]
  obtain ⟨before, name, given, isEmpty, more, scope, mark, heq, hread, hfinish⟩ :=
    exists_start_of_ofTokens? h head hhead
  obtain ⟨t, rest, hsuffix, hstart, hmore⟩ := (items_of_tokens? htokens).exists_start heq
  exact ⟨t, rest, name, given, isEmpty, scope, mark, hsuffix.trans hbody, hstart, hread,
    fun hopen => hmore.exists_finish (hfinish hopen)⟩

end SvgKit.Xml
