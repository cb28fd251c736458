import SvgKit.Proofs.Xml.Adaptation
import SvgKit.Proofs.Xml.Reading
import Mathlib.Data.List.Perm.Subperm

/-! Each declaration in a document has a mark of its own: reading gives a new mark to each, and
adaptation adds new ones only.
-/

namespace SvgKit.Xml

-----------------------------------------------------------------------------------------
-- Declarations in a forest
-----------------------------------------------------------------------------------------

/-- The declarations in a forest, in document order. -/
def Node.declared (nodes : List Node) : List Binding := (Node.allHeads nodes).flatMap (·.bindings)

@[simp]
theorem Node.declared_nil : Node.declared [] = [] := by
  simp [declared]

@[simp]
theorem Node.declared_element (h : Head) (content nodes : List Node)
    : Node.declared (.element h content :: nodes)
      = h.bindings ++ (Node.declared content ++ Node.declared nodes) := by
  simp [declared]

@[simp]
theorem Node.declared_text (s : Text) (nodes : List Node)
    : Node.declared (.text s :: nodes) = Node.declared nodes := by
  simp [declared]

@[simp]
theorem Node.declared_entity (name : Text) (nodes : List Node)
    : Node.declared (.entity name :: nodes) = Node.declared nodes := by
  simp [declared]

@[simp]
theorem Node.declared_append (nodes more : List Node)
    : Node.declared (nodes ++ more) = Node.declared nodes ++ Node.declared more := by
  simp [declared]

-----------------------------------------------------------------------------------------
-- Declarations and new ones
-----------------------------------------------------------------------------------------

/-- What becomes of declarations while a supply is used: none occurs more often than before, and
each new one has a mark of its own from the supply.
-/
structure Redeclares (supply supply' : Supply) (bindings bindings' : List Binding) : Prop where
  le : supply.mark ≤ supply'.mark
  marks : (bindings'.map (·.mark)).Subperm
    (bindings.map (·.mark) ++ List.range' supply.mark (supply'.mark - supply.mark))

namespace Redeclares

variable {supply supply' supply'' : Supply} {bindings bindings' bindings'' : List Binding}

theorem of_subperm (hle : supply.mark ≤ supply'.mark) (h : bindings'.Subperm bindings)
    : Redeclares supply supply' bindings bindings' := by
  obtain ⟨kept, hperm, hsub⟩ := h
  exact ⟨hle, _, hperm.map _, (hsub.map _).trans (List.sublist_append_left _ _)⟩

theorem of_sublist (hle : supply.mark ≤ supply'.mark) (h : bindings'.Sublist bindings)
    : Redeclares supply supply' bindings bindings' :=
  of_subperm hle h.subperm

theorem refl (supply : Supply) (bindings : List Binding)
    : Redeclares supply supply bindings bindings :=
  of_sublist (Nat.le_refl _) (List.Sublist.refl _)

/-- The order of declarations does not matter. -/
theorem of_perm {left right : List Binding} (h : Redeclares supply supply' bindings bindings')
    (hleft : left.Perm bindings) (hright : right.Perm bindings')
    : Redeclares supply supply' left right := by
  refine ⟨h.le, ?_⟩
  apply (hright.map (·.mark)).subperm.trans
  exact h.marks.trans ((hleft.map (·.mark)).symm.append_right _).subperm

/-- New declarations take the next marks. -/
theorem new (bindings more : List Binding)
    (hmarks : more.map (·.mark) = List.range' supply.mark more.length)
    (hsupply : supply'.mark = supply.mark + more.length)
    : Redeclares supply supply' bindings (bindings ++ more) := by
  refine ⟨by omega, ?_⟩
  rw [hsupply, Nat.add_sub_cancel_left, List.map_append, hmarks]

theorem trans (h : Redeclares supply supply' bindings bindings')
    (h' : Redeclares supply' supply'' bindings' bindings'')
    : Redeclares supply supply'' bindings bindings'' := by
  refine ⟨h.le.trans h'.le, h'.marks.trans ?_⟩
  have hrange : List.range' supply.mark (supply''.mark - supply.mark)
      = List.range' supply.mark (supply'.mark - supply.mark)
        ++ List.range' supply'.mark (supply''.mark - supply'.mark) := by
    have hle := h.le
    have hle' := h'.le
    have hsum := @List.range'_append supply.mark (supply'.mark - supply.mark)
      (supply''.mark - supply'.mark) 1
    rw [Nat.one_mul, Nat.add_sub_cancel' hle] at hsum
    rw [hsum]
    congr 1
    omega
  rw [hrange, ← List.append_assoc]
  exact (List.subperm_append_right _).mpr h.marks

/-- Declarations in front stay. -/
theorem append_left (h : Redeclares supply supply' bindings bindings') (front : List Binding)
    : Redeclares supply supply' (front ++ bindings) (front ++ bindings') := by
  refine ⟨h.le, ?_⟩
  rw [List.map_append, List.map_append, List.append_assoc]
  exact (List.subperm_append_left _).mpr h.marks

/-- Declarations behind stay. -/
theorem append_right (h : Redeclares supply supply' bindings bindings') (behind : List Binding)
    : Redeclares supply supply' (bindings ++ behind) (bindings' ++ behind) := by
  refine ⟨h.le, ?_⟩
  rw [List.map_append, List.map_append]
  have hmarks := (List.subperm_append_right (behind.map (·.mark))).mpr h.marks
  apply hmarks.trans
  rw [List.append_assoc, List.append_assoc]
  exact (List.perm_append_comm.append_left _).subperm

theorem append {more more' : List Binding} (h : Redeclares supply supply' bindings bindings')
    (h' : Redeclares supply' supply'' more more')
    : Redeclares supply supply'' (bindings ++ more) (bindings' ++ more') :=
  (h.append_right more).trans (h'.append_left bindings')

/-- Declarations on the topmost element, on a head, in it and behind it. -/
theorem nest {supply₃ : Supply} {top top' top'' top₃ kept kept' inside inside' : List Binding}
    {behind behind' : List Binding}
    (hhead : Redeclares supply supply' (top ++ kept) (top' ++ kept'))
    (hinside : Redeclares supply' supply'' (top' ++ inside) (top'' ++ inside'))
    (hbehind : Redeclares supply'' supply₃ (top'' ++ behind) (top₃ ++ behind'))
    : Redeclares supply supply₃ (top ++ (kept ++ (inside ++ behind)))
        (top₃ ++ (kept' ++ (inside' ++ behind'))) := by
  have hfirst := hhead.append_right (inside ++ behind)
  have hsecond := (hinside.append_left kept').append_right behind
  have hthird := hbehind.append_left (kept' ++ inside')
  have hmiddle : (top' ++ kept' ++ (inside ++ behind)).Perm
      (kept' ++ (top' ++ inside) ++ behind) := by
    apply List.perm_iff_count.mpr
    intro b
    simp only [List.count_append]
    omega
  have hlast : (kept' ++ (top'' ++ inside') ++ behind).Perm
      (kept' ++ inside' ++ (top'' ++ behind)) := by
    apply List.perm_iff_count.mpr
    intro b
    simp only [List.count_append]
    omega
  have hall := (hfirst.trans (hsecond.of_perm hmiddle (.refl _))).trans
    (hthird.of_perm hlast (.refl _))
  apply hall.of_perm
  · rw [List.append_assoc]
  · apply List.perm_iff_count.mpr
    intro b
    simp only [List.count_append]
    omega

end Redeclares

-----------------------------------------------------------------------------------------
-- Adaptation
-----------------------------------------------------------------------------------------

theorem redeclares_findOrDeclare (path : List Head) (isAttribute : Bool) (uri : Text)
    (wanted : Option Text) (supply : Supply) (bindings : List Binding)
    : let result := findOrDeclare path isAttribute uri wanted supply
      Redeclares supply result.2.2 bindings
        (if result.2.1 then bindings ++ [result.1] else bindings) := by
  intro result
  cases husable : usableBinding? path isAttribute uri with
  | some b =>
      have hfound : result = (b, false, supply) := by
        simp only [result, findOrDeclare, husable]
      rw [hfound]
      exact .refl supply bindings
  | none =>
      have hmade : result = (⟨supply.mark, some (newLabel path uri wanted supply.label).1, uri⟩,
          true, ⟨supply.mark + 1, (newLabel path uri wanted supply.label).2⟩) := by
        simp only [result, findOrDeclare, husable]
      rw [hmade]
      exact .new bindings [_] rfl rfl

/-- What has been declared on the topmost element since an adaptation began. -/
def Adaptation.Extends (a a' : Adaptation) : Prop :=
  Redeclares a.supply a'.supply a.declared a'.declared

theorem extends_adaptName (outer : List Head) (isAttribute : Bool) (n : Name) (a : Adaptation)
    : a.Extends (adaptName outer isAttribute n a).2 := by
  unfold adaptName
  split
  · exact .refl a.supply a.declared
  · next old _ =>
      split
      · exact .refl a.supply a.declared
      · exact redeclares_findOrDeclare _ isAttribute old.uri old.label a.supply a.declared

theorem extends_adaptAttributes (outer : List Head) (attributes : List Attribute)
    (a : Adaptation)
    : a.Extends (attributes.mapM (adaptAttribute outer) a).2 := by
  induction attributes generalizing a with
  | nil => exact .refl a.supply a.declared
  | cons x attributes ih =>
      rw [List.mapM_cons]
      exact Redeclares.trans (extends_adaptName outer true x.name a) (ih _)

/-- Adapting nodes makes new declarations on the topmost element only, by induction over the
forest.
-/
theorem redeclares_adaptNodes {outer : List Head} {top : Name} {inner : List Head}
    {nodes : List Node} (a : Adaptation)
    : Redeclares a.supply (adaptNodes outer top inner nodes a).2.supply
        (a.declared ++ Node.declared nodes)
        ((adaptNodes outer top inner nodes a).2.declared
          ++ Node.declared (adaptNodes outer top inner nodes a).1) := by
  induction nodes using Node.forest_induction generalizing inner a with
  | nil =>
      rw [adaptNodes]
      exact .refl a.supply _
  | element h content nodes inside behind =>
      rw [adaptNodes_element]
      simp only [Node.declared_element]
      generalize hstrip : stripBindings
        (inner ++ { name := top, bindings := a.declared } :: outer) h.bindings = strip
      have hkept : strip.1.Sublist h.bindings := by
        rw [← hstrip]
        exact List.filter_sublist
      have hnamed := extends_adaptName outer false h.name { a with become := a.become ++ strip.2 }
      generalize adaptName outer false h.name { a with become := a.become ++ strip.2 } = named
        at hnamed ⊢
      have hattributed := extends_adaptAttributes outer h.attributes named.2
      generalize h.attributes.mapM (adaptAttribute outer) named.2 = attributed at hattributed ⊢
      have hhead : Redeclares a.supply attributed.2.supply (a.declared ++ h.bindings)
          (attributed.2.declared ++ strip.1) :=
        (Redeclares.trans hnamed hattributed).append (.of_sublist (Nat.le_refl _) hkept)
      generalize Head.mk named.1 strip.1 attributed.1 = head
      have hinside := @inside (head :: inner) attributed.2
      generalize adaptNodes outer top (head :: inner) content attributed.2 = inner' at hinside ⊢
      have hbehind := @behind inner inner'.2
      generalize adaptNodes outer top inner nodes inner'.2 = rest at hbehind ⊢
      exact hhead.nest hinside hbehind
  | text s nodes ih =>
      rw [adaptNodes]
      exact ih a
  | entity name nodes ih =>
      rw [adaptNodes]
      exact ih a

theorem Node.adapt_element (outer : List Head) (h : Head) (content : List Node) (supply : Supply)
    : (Node.element h content).adapt outer supply
      = (let strip := stripBindings outer h.bindings
        let named := adaptName outer false h.name ⟨strip.2, strip.1, supply⟩
        let attributed := h.attributes.mapM (adaptAttribute outer) named.2
        let inside := adaptNodes outer named.1 [] content attributed.2
        (.element ⟨named.1, inside.2.declared, attributed.1⟩ inside.1, inside.2.supply)) :=
  rfl

/-- Adapting a node makes new declarations only. -/
theorem Node.redeclares_adapt (outer : List Head) (node : Node) (supply : Supply)
    : Redeclares supply (node.adapt outer supply).2 (Node.declared [node])
        (Node.declared [(node.adapt outer supply).1]) := by
  cases node with
  | text s => exact .refl supply _
  | entity name => exact .refl supply _
  | element h content =>
      rw [Node.adapt_element]
      simp only [Node.declared_element, Node.declared_nil, List.append_nil]
      generalize hstrip : stripBindings outer h.bindings = strip
      have hkept : strip.1.Sublist h.bindings := by
        rw [← hstrip]
        exact List.filter_sublist
      have hnamed := extends_adaptName outer false h.name ⟨strip.2, strip.1, supply⟩
      generalize adaptName outer false h.name ⟨strip.2, strip.1, supply⟩ = named at hnamed ⊢
      have hattributed := extends_adaptAttributes outer h.attributes named.2
      generalize h.attributes.mapM (adaptAttribute outer) named.2 = attributed at hattributed ⊢
      have hhead : Redeclares supply attributed.2.supply h.bindings attributed.2.declared :=
        (Redeclares.of_sublist (Nat.le_refl _) hkept).trans
          (Redeclares.trans hnamed hattributed)
      exact (hhead.append_right _).trans (redeclares_adaptNodes attributed.2)

theorem mark_le_foldl {step : Supply → Node → Supply}
    (hstep : ∀ supply node, supply.mark ≤ (step supply node).mark) (supply : Supply)
    (nodes : List Node)
    : supply.mark ≤ (nodes.foldl step supply).mark := by
  induction nodes generalizing supply with
  | nil => exact Nat.le_refl _
  | cons node nodes ih => exact (hstep supply node).trans (ih _)

/-- Discarding a node gives no mark back, by induction over the depth. -/
theorem mark_le_discardTo (p : Head → Head → Bool) (depth : Nat) (node : Node) (supply : Supply)
    : supply.mark ≤ (discardTo p depth node supply).mark := by
  induction depth generalizing node supply with
  | zero => exact Nat.le_refl _
  | succ depth ih =>
      have hadapt := (Node.redeclares_adapt [] node supply).le
      rw [discardTo]
      split
      · next h content supply' heq =>
          rw [heq] at hadapt
          exact hadapt.trans (mark_le_foldl (fun supply node => ih node supply) supply' _)
      · next supply' _ heq =>
          rw [heq] at hadapt
          exact hadapt

-----------------------------------------------------------------------------------------
-- Marks of their own
-----------------------------------------------------------------------------------------

/-- No two declarations have the same mark, and all marks are below the next one. -/
structure OwnMarks (next : Nat) (bindings : List Binding) : Prop where
  distinct : (bindings.map (·.mark)).Nodup
  below : ∀ b ∈ bindings, b.mark < next

theorem OwnMarks.redeclare {supply supply' : Supply} {bindings bindings' : List Binding}
    (h : OwnMarks supply.mark bindings) (hchange : Redeclares supply supply' bindings bindings')
    : OwnMarks supply'.mark bindings' := by
  obtain ⟨hle, hmarks⟩ := hchange
  have hbefore : (bindings.map (·.mark)
      ++ List.range' supply.mark (supply'.mark - supply.mark)).Nodup := by
    apply List.nodup_append.mpr
    refine ⟨h.distinct, List.nodup_range', ?_⟩
    intro m hm m' hm' heq
    obtain ⟨b, hb, rfl⟩ := List.mem_map.mp hm
    have hbelow := h.below b hb
    rw [List.mem_range'_1] at hm'
    omega
  constructor
  · obtain ⟨marks, hperm, hsub⟩ := hmarks
    exact hperm.nodup_iff.mp (hsub.nodup hbefore)
  · intro b hb
    rcases List.mem_append.mp (hmarks.subset (List.mem_map_of_mem hb)) with hm | hm
    · obtain ⟨b', hb', heq⟩ := List.mem_map.mp hm
      have hbelow := h.below b' hb'
      omega
    · rw [List.mem_range'_1] at hm
      omega

-----------------------------------------------------------------------------------------
-- Reading
-----------------------------------------------------------------------------------------

theorem marks_of_bindingsOf? {mark : Nat} {raw : List RawAttribute} {bindings : List Binding}
    (h : bindingsOf? mark raw = some bindings)
    : bindings.map (·.mark) = List.range' mark bindings.length := by
  induction raw generalizing mark bindings with
  | nil =>
      cases h
      rfl
  | cons a raw ih =>
      rw [bindingsOf?] at h
      split at h
      · exact ih h
      · split at h
        · cases h
        · split at h
          · exact ih h
          · obtain ⟨rest, hrest, rfl⟩ := Option.map_eq_some_iff.mp h
            rw [List.map_cons, List.length_cons, List.range'_succ, ih hrest]

/-- The declarations on an open element and in it. -/
def Frame.declared (f : Frame) : List Binding := f.head.bindings ++ Node.declared f.done

/-- The declarations in all that has been read. -/
def Progress.declared (p : Progress) : List Binding :=
  p.frames.flatMap Frame.declared ++ p.root.elim [] fun e => Node.declared e.forest

/-- What new declarations are made from while a document is read. -/
def Progress.supply (p : Progress) : Supply := { mark := p.mark }

theorem Frame.declared_nodes (f : Frame) : Node.declared f.nodes = Node.declared f.done := by
  unfold Frame.nodes
  split
  · rfl
  · exact Node.declared_text _ _

theorem Node.declared_reverse (nodes : List Node)
    : (Node.declared nodes.reverse).Perm (Node.declared nodes) := by
  induction nodes with
  | nil => exact .refl _
  | cons node nodes ih =>
      have hsplit : Node.declared (node :: nodes) = Node.declared [node] ++ Node.declared nodes :=
        Node.declared_append [node] nodes
      rw [List.reverse_cons, Node.declared_append, hsplit]
      exact (ih.append_right _).trans List.perm_append_comm

namespace Progress

theorem subperm_declared_addElement (p : Progress) (e : Element)
    : (p.addElement e).declared.Subperm (Node.declared e.forest ++ p.declared) := by
  obtain ⟨frames, mark, root⟩ := p
  cases frames with
  | nil => exact (List.sublist_append_left _ _).subperm
  | cons f frames =>
      have hadded : Frame.declared (f.addNode (.element e.head e.content))
          = f.head.bindings ++ (Node.declared e.forest ++ Node.declared f.done) := by
        rw [Frame.declared, Frame.addNode, ← f.declared_nodes]
        exact congrArg _ (Node.declared_append e.forest f.nodes)
      simp only [declared, addElement, List.flatMap_cons, hadded]
      apply List.Perm.subperm
      apply List.perm_iff_count.mpr
      intro b
      simp only [List.count_append, Frame.declared]
      omega

theorem redeclares_close? {p p' : Progress} {name : Spelling} (h : p.close? name = some p')
    : Redeclares p.supply p'.supply p.declared p'.declared := by
  unfold close? at h
  split at h
  · cases h
  · next f frames hframes =>
      split at h
      · cases h
        have hmark : (({ p with frames }).addElement f.close).mark = p.mark := by
          cases frames <;> rfl
        refine .of_subperm (Nat.le_of_eq hmark.symm) ?_
        apply (subperm_declared_addElement _ _).trans
        have hclosed : (Node.declared f.close.forest).Perm f.declared := by
          have hnodes := Node.declared_reverse f.nodes
          rw [f.declared_nodes] at hnodes
          simpa [Frame.close, Element.forest, Frame.declared] using hnodes.append_left _
        rw [declared, declared, hframes, List.flatMap_cons, List.append_assoc]
        exact (hclosed.append_right _).subperm
      · cases h

theorem redeclares_open? {d : Doctype} {p p' : Progress} {name : Spelling}
    {given : List (Spelling × Value)} (h : p.open? d name given = some p')
    : Redeclares p.supply p'.supply p.declared p'.declared := by
  unfold open? at h
  split at h
  · cases h
  · obtain ⟨head, hhead, rfl⟩ := Option.map_eq_some_iff.mp h
    obtain ⟨raw, -, -, hbindings, -⟩ := readHead?_eq_some_iff.mp hhead
    apply Redeclares.of_perm (.new p.declared _ (marks_of_bindingsOf? hbindings) rfl) (.refl _)
    have hframe (spelling : Spelling) (scope : List Binding) (spacing : Spacing)
        (elementOnly : Option Bool)
        : Frame.declared { spelling, head, scope, spacing, elementOnly } = head.bindings := by
      simp [Frame.declared]
    rw [declared, declared, List.flatMap_cons, hframe, List.append_assoc]
    exact List.perm_append_comm

/-- Taking in a token gives a new mark to each declaration in it. -/
theorem redeclares_take? {d : Doctype} {p p' : Progress} {token : Token}
    (h : p.take? d token = some p')
    : Redeclares p.supply p'.supply p.declared p'.declared := by
  have hfirst {f f' : Frame} {frames : List Frame} (hframes : p.frames = f :: frames)
      (hf : f'.declared = f.declared)
      : Redeclares p.supply p.supply p.declared { p with frames := f' :: frames }.declared := by
    have hsame : { p with frames := f' :: frames }.declared = p.declared := by
      rw [declared, declared, hframes, List.flatMap_cons, List.flatMap_cons, hf]
    rw [hsame]
    exact .refl p.supply p.declared
  unfold take? at h
  split at h
  · next name attributes isEmpty _ =>
      obtain ⟨opened, hopen, hclose⟩ := Option.bind_eq_some_iff.mp h
      apply (redeclares_open? hopen).trans
      split at hclose
      · exact redeclares_close? hclose
      · cases hclose
        exact .refl _ _
  · exact redeclares_close? h
  · next s ahead f frames hframes =>
      cases h
      apply hfirst hframes
      unfold Frame.addSegment
      split
      · rfl
      · rfl
  · split at h
    · cases h
      exact .refl _ _
    · cases h
  · next s f frames hframes =>
      cases h
      exact hfirst hframes rfl
  · cases h
  · next name f frames hframes =>
      split at h
      · cases h
        apply hfirst hframes
        rw [Frame.declared, Frame.declared, ← f.declared_nodes]
        exact congrArg _ (Node.declared_entity name f.nodes)
      · cases h
  · cases h

/-- Taking in tokens does, by induction over them. -/
theorem redeclares_foldlM {d : Doctype} {p p' : Progress} {tokens : List Token}
    (h : tokens.foldlM (take? d) p = some p')
    : Redeclares p.supply p'.supply p.declared p'.declared := by
  induction tokens generalizing p with
  | nil =>
      cases h
      exact .refl _ _
  | cons token tokens ih =>
      obtain ⟨next, hnext, hrest⟩ := Option.bind_eq_some_iff.mp h
      exact (redeclares_take? hnext).trans (ih hrest)

end Progress

/-- The declarations in a document have marks of their own, below the next one. -/
def Document.HasOwnMarks (d : Document) : Prop :=
  OwnMarks d.supply.mark (Node.declared d.root.forest)

theorem hasOwnMarks_of_ofTokens? {d : Doctype} {tokens : List Token} {document : Document}
    (h : Document.ofTokens? d tokens = some document)
    : document.HasOwnMarks := by
  unfold Document.ofTokens? at h
  split at h
  · next p hp =>
      have hstart : OwnMarks (Progress.supply {}).mark (Progress.declared {}) :=
        ⟨.nil, by simp [Progress.declared]⟩
      have hmarks := hstart.redeclare (Progress.redeclares_foldlM hp)
      split at h
      · next hclosed =>
          obtain ⟨root, hroot, rfl⟩ := Option.map_eq_some_iff.mp h
          rw [Progress.declared, List.isEmpty_iff.mp hclosed, hroot] at hmarks
          exact hmarks
      · cases h
  · cases h

/-- In a document that is read, each declaration has a mark of its own. -/
theorem hasOwnMarks_of_ofText? {s : Text} {document : Document}
    (h : Document.ofText? s = some document)
    : document.HasOwnMarks := by
  obtain ⟨d, before, after, tokens, incomplete, -, -, hdocument⟩ := ofText?_eq_some h
  exact hasOwnMarks_of_ofTokens? hdocument

/-- The declaration that every document has, and the declarations in a sound document, have marks
of their own.
-/
theorem Document.HasOwnMarks.nodup {made : List Binding} {d : Document} (h : d.HasOwnMarks)
    (hd : d.Sound made)
    : ((Binding.xml :: Node.declared d.root.forest).map (·.mark)).Nodup := by
  rw [List.map_cons, List.nodup_cons]
  refine ⟨?_, h.distinct⟩
  intro hmem
  obtain ⟨b, hb, hmark⟩ := List.mem_map.mp hmem
  obtain ⟨head, hhead, hb⟩ := List.mem_flatMap.mp hb
  obtain ⟨hmade, hlabel⟩ := (hd.tree.heads head hhead).bindings b hb
  rw [hd.ledger.eq_of_mark_eq hmade hd.ledger.xml hmark] at hlabel
  exact hlabel rfl

end SvgKit.Xml
