import SvgComponent.Jsx.Lines
import SvgComponent.Proofs.Outline
import SvgComponent.Proofs.ParsedTree
import SvgComponent.Text.Line

/-!
# The JSX of a tree, by recursion, and what is read from it

The lines of a tree are made from a list of pending work. Here they are given by recursion on the
tree (`childLines`, `lines_eq_framed`), then as one text (`elementText`), and then it is said what the
reader makes of that text: an element is read back with its own tag and attributes, and its content
is what `rereadContent` says, up to outlines (`readsAs_elementText`, `readsAs_childLines`).
-/

namespace SvgComponent.Jsx

open Text Markup

/-! ## Lines by recursion -/

/-- The lines of an element, given those of its children. -/
def framed (quote : Quote) (level : Int) (extra : List (List Char)) (e : Element)
    (inner : List (List Char)) : List (List Char) :=
  let opening := indentation level ++ startTag quote e extra
  if e.children.all isBlankNode then [opening ++ " />".toList]
  else if e.children.all isTextNode then
    [opening ++ '>' :: escapeText (e.children.flatMap textContent) ++ endTag e.tag]
  else (opening ++ ['>']) :: inner ++ [indentation level ++ endTag e.tag]

mutual

/-- The lines of a child of an element at `level`. -/
def nodeLines (quote : Quote) (level : Int) (first last : Bool) : Node → List (List Char)
  | .element tag attributes children =>
    framed quote (level + 1) [] ⟨tag, attributes, children⟩
      (childLines quote (level + 1) true children)
  | .comment body => [indentation level ++ indentUnit ++ formatComment body]
  | .text s =>
    match mixedText first last s with
    | [] => []
    | content => [indentation level ++ indentUnit ++ content]

/-- The lines of the children of an element at `level`; `first` says that no child stands before
them. -/
def childLines (quote : Quote) (level : Int) (first : Bool) : List Node → List (List Char)
  | [] => []
  | n :: ns => nodeLines quote level first ns.isEmpty n ++ childLines quote level false ns

end

/-- An element of pending work makes its lines, given that its children make theirs. -/
theorem workLines_element (quote : Quote) (level : Int) (extra : List (List Char)) (e : Element)
    (rest : List Work)
    (hc : ∀ later, Work.lines quote (Work.children level true e.children ++ later) =
      childLines quote level true e.children ++ Work.lines quote later) :
    Work.lines quote (.element e level extra :: rest) =
      framed quote level extra e (childLines quote level true e.children) ++
        Work.lines quote rest := by
  rw [Work.lines, framed]
  split
  · rfl
  split
  · rfl
  · rw [hc, Work.lines]
    simp

theorem workLines_children (quote : Quote) (level : Int) (first : Bool) :
    ∀ (ns : List Node) (rest : List Work),
      Work.lines quote (Work.children level first ns ++ rest) =
        childLines quote level first ns ++ Work.lines quote rest
  | [], _ => by simp [Work.children, childLines]
  | .element tag attributes children :: ns, rest => by
    simp only [Work.children, List.cons_append, childLines, nodeLines]
    rw [workLines_element quote (level + 1) [] ⟨tag, attributes, children⟩ _
      (workLines_children quote (level + 1) true children),
      workLines_children quote level false ns rest, List.append_assoc]
  | .comment body :: ns, rest => by
    simp only [Work.children, List.cons_append, Work.lines, childLines, nodeLines,
      workLines_children quote level false ns rest, List.nil_append]
  | .text s :: ns, rest => by
    simp only [Work.children, childLines, nodeLines]
    cases mixedText first ns.isEmpty s with
    | nil => exact workLines_children quote level false ns rest
    | cons c content =>
      simp only [List.cons_append, Work.lines, workLines_children quote level false ns rest,
        List.nil_append]

/-- **The lines of an element, by recursion on the tree.** -/
theorem lines_eq_framed (quote : Quote) (level : Int) (extra : List (List Char)) (e : Element) :
    lines quote level extra e =
      framed quote level extra e (childLines quote level true e.children) := by
  rw [lines, workLines_element _ _ _ _ _ (workLines_children quote level true e.children),
    Work.lines, List.append_nil]

/-! ## Lines as one text -/

/-- Lines, each behind a line feed. -/
def block (ls : List (List Char)) : List Char := ls.flatMap ('\n' :: ·)

@[simp] theorem block_nil : block [] = [] := rfl

@[simp] theorem block_append (ls ms : List (List Char)) : block (ls ++ ms) = block ls ++ block ms := by
  simp [block]

theorem intercalate_cons (sep l : List Char) (ls : List (List Char)) :
    sep.intercalate (l :: ls) = l ++ ls.flatMap (sep ++ ·) := by
  induction ls generalizing l with
  | nil => simp [List.intercalate]
  | cons m ls ih =>
    have := ih m
    simp only [List.intercalate, List.intersperse_cons_cons, List.flatten_cons] at this ⊢
    rw [this, List.flatMap_cons]
    simp

theorem joinLines_cons (l : List Char) (ls : List (List Char)) :
    joinLines (l :: ls) = l ++ block ls := intercalate_cons ['\n'] l ls

/-- An element from its start tag to its end, given the text of its children. -/
def elementText (quote : Quote) (level : Int) (extra : List (List Char)) (e : Element)
    (inner : List Char) : List Char :=
  startTag quote e extra ++
    if e.children.all isBlankNode then " />".toList
    else if e.children.all isTextNode then
      '>' :: (escapeText (e.children.flatMap textContent) ++ endTag e.tag)
    else '>' :: (inner ++ ('\n' :: indentation level ++ endTag e.tag))

theorem joinLines_framed (quote : Quote) (level : Int) (extra : List (List Char)) (e : Element)
    (inner : List (List Char)) :
    joinLines (framed quote level extra e inner) =
      indentation level ++ elementText quote level extra e (block inner) := by
  simp only [framed, elementText]
  split
  · simp [joinLines_cons]
  split
  · simp [joinLines_cons]
  · rw [List.cons_append, joinLines_cons, block_append]
    simp [block]

theorem block_eq_joinLines {ls : List (List Char)} (h : ls ≠ []) : block ls = '\n' :: joinLines ls := by
  cases ls with
  | nil => exact absurd rfl h
  | cons l ls =>
    rw [joinLines_cons]
    simp [block]

theorem block_framed (quote : Quote) (level : Int) (extra : List (List Char)) (e : Element)
    (inner : List (List Char)) :
    block (framed quote level extra e inner) =
      '\n' :: indentation level ++ elementText quote level extra e (block inner) := by
  have hne : framed quote level extra e inner ≠ [] := by
    simp only [framed]
    split
    · simp
    split <;> simp
  rw [block_eq_joinLines hne, joinLines_framed]
  simp

/-! ## Start tags are renderings -/

theorem attributesRendering_append {as bs : List Attribute} {s t : List Char}
    (h : AttributesRendering as s) (h' : AttributesRendering bs t) :
    AttributesRendering (as ++ bs) (s ++ t) := by
  induction h with
  | nil => exact h'
  | cons hne hg hv has ih =>
    rw [List.cons_append, List.append_assoc]
    exact .cons hne hg hv ih

/-- A value that can be quoted is written verbatim. -/
theorem quoteAttribute_eq (quote : Quote) {value : List Char} (h : isQuotable value = true) :
    ∃ q, isQuote q = true ∧ q ∉ value ∧ quoteAttribute quote value = q :: value ++ [q] := by
  rw [quoteAttribute]
  split
  · rename_i hq
    exact ⟨quote.char, by cases quote <;> rfl, hq, rfl⟩
  split
  · rename_i hq
    exact ⟨quote.other.char, by cases quote <;> rfl, hq, rfl⟩
  · rename_i h1 h2
    cases quote <;> simp_all [isQuotable, Quote.char, Quote.other]

theorem attributesRendering_format (quote : Quote) {as : List Attribute}
    (h : as.all (isQuotable ·.value) = true) :
    AttributesRendering as ((as.map (formatAttribute quote)).flatMap (' ' :: ·)) := by
  induction as with
  | nil => exact .nil
  | cons a as ih =>
    simp only [List.all_cons, Bool.and_eq_true] at h
    obtain ⟨q, hq, hv, he⟩ := quoteAttribute_eq quote h.1
    have hval : ValueRendering a.value ([] ++ '=' :: ([] ++ q :: a.value ++ [q])) :=
      .quoted rfl rfl hq hv
    have hcons := AttributesRendering.cons (List.cons_ne_nil ' ' []) rfl hval (ih h.2)
    simpa [formatAttribute, he] using hcons

/-- The extra parts of a start tag read as attributes without values. -/
def bareAttributes (extra : List (List Char)) : List Attribute := extra.map (⟨·, []⟩)

theorem attributesRendering_bare (extra : List (List Char)) :
    AttributesRendering (bareAttributes extra) (extra.flatMap (' ' :: ·)) := by
  induction extra with
  | nil => exact .nil
  | cons x extra ih =>
    have hcons := AttributesRendering.cons (a := ⟨x, []⟩) (List.cons_ne_nil ' ' []) rfl .none ih
    simpa [bareAttributes] using hcons

/-- A start tag is its tag behind a `<` and a rendering of its attributes. -/
theorem startTag_rendering (quote : Quote) (e : Element) (extra : List (List Char))
    (h : e.attributes.all (isQuotable ·.value) = true) :
    ∃ a, startTag quote e extra = '<' :: e.tag ++ a ∧
      AttributesRendering (e.attributes ++ bareAttributes extra) a := by
  refine ⟨_, rfl, ?_⟩
  rw [List.flatMap_append]
  exact attributesRendering_append (attributesRendering_format quote h)
    (attributesRendering_bare extra)

/-! ## Written text starts no markup -/

theorem isQuiet_container (c : Char) : isQuiet (container c) = true := by
  by_cases h : c = '<' <;> simp [container, isQuiet, h]

theorem isQuiet_containSpecial (s : List Char) : isQuiet (containSpecial s) = true := by
  refine isQuiet_flatMap fun c _ => ?_
  split
  · exact isQuiet_container c
  · rename_i h
    refine isQuiet_of_not_mem fun hm => h ?_
    rw [← List.mem_singleton.1 hm]
    rfl

theorem isQuiet_escapeText (s : List Char) : isQuiet (escapeText s) = true :=
  isQuiet_containSpecial _

theorem isQuiet_mixedText (first last : Bool) (s : List Char) :
    isQuiet (mixedText first last s) = true := by
  have hsep : ∀ b : Bool, isQuiet (if b then container ' ' else []) = true := by decide
  rw [mixedText]
  split
  · exact hsep _
  · exact isQuiet_append (isQuiet_append (hsep _) (isQuiet_escapeText s)) (hsep _)

theorem mem_of_mem_stripEnd {c : Char} {s : List Char} (h : c ∈ stripEnd s) : c ∈ s := by
  induction s with
  | nil => exact h
  | cons d s ih =>
    rw [stripEnd_cons] at h
    split at h
    · cases h
    · rcases List.mem_cons.1 h with rfl | h
      · simp
      · exact List.mem_cons_of_mem _ (ih h)

theorem mem_of_mem_strip {c : Char} {s : List Char} (h : c ∈ strip s) : c ∈ s :=
  (List.dropWhile_sublist _).subset (mem_of_mem_stripEnd h)

theorem mem_guardClose {c : Char} {s : List Char} (h : c ∈ guardClose s) : c = '\\' ∨ c ∈ s := by
  induction s with
  | nil => exact .inr h
  | cons d s ih =>
    rw [guardClose] at h
    split at h
    · rename_i hd
      simp only [List.mem_cons] at h ⊢
      rcases h with rfl | rfl | h
      · exact .inr (.inl hd.1.symm)
      · exact .inl rfl
      · exact (ih h).imp id .inr
    · simp only [List.mem_cons] at h ⊢
      rcases h with rfl | h
      · exact .inr (.inl rfl)
      · exact (ih h).imp id .inr

theorem isQuiet_formatComment {body : List Char} (h : '<' ∉ body) :
    isQuiet (formatComment body) = true := by
  have hb : '<' ∉ guardClose (strip body) := fun hm => by
    rcases mem_guardClose hm with hm | hm
    · exact absurd hm (by decide)
    · exact h (mem_of_mem_strip hm)
  rw [formatComment]
  split
  · decide
  · exact isQuiet_append (isQuiet_append (by decide) (isQuiet_of_not_mem hb)) (by decide)

theorem mem_indentation {c : Char} {level : Int} (h : c ∈ indentation level) : c = ' ' := by
  simp only [indentation, List.mem_flatten, List.mem_replicate] at h
  obtain ⟨l, ⟨-, rfl⟩, hc⟩ := h
  simpa [indentUnit] using hc

theorem isBlank_of_mem_indentation {level : Int} : ∀ c ∈ indentation level, isBlank c = true := by
  intro c hc
  rw [mem_indentation hc]
  decide

theorem not_mem_indentation (level : Int) : '<' ∉ '\n' :: indentation level := by
  intro hm
  rcases List.mem_cons.1 hm with h | h
  · exact absurd h (by decide)
  · exact absurd (mem_indentation h) (by decide)

theorem isQuiet_indentation (level : Int) : isQuiet ('\n' :: indentation level) = true :=
  isQuiet_of_not_mem (not_mem_indentation level)

theorem isQuiet_line (level : Int) {content : List Char} (h : isQuiet content = true) :
    isQuiet ('\n' :: (indentation level ++ indentUnit ++ content)) = true := by
  rw [← List.cons_append, ← List.cons_append]
  exact isQuiet_append (isQuiet_append (isQuiet_indentation level) (by decide)) h

/-! ## What is read back -/

/-- What is read back inside an element, given what is read back of its children: nothing if it was
closed in itself, its escaped text if it stood on one line, else the children and the line of the end
tag. -/
def rereadContent (level : Int) (children inner : List Node) : List Node :=
  if children.all isBlankNode then []
  else if children.all isTextNode then [.text (escapeText (children.flatMap textContent))]
  else inner ++ [.text ('\n' :: indentation level)]

mutual

/-- What is read back of a child of an element at `level`, up to outlines. -/
def rereadNode (level : Int) (first last : Bool) : Node → List Node
  | .element tag attributes children =>
    [.text ('\n' :: indentation (level + 1)),
      .element tag attributes
        (rereadContent (level + 1) children (rereadNodes (level + 1) true children))]
  | .comment body => [.text ('\n' :: (indentation level ++ indentUnit ++ formatComment body))]
  | .text s =>
    match mixedText first last s with
    | [] => []
    | content => [.text ('\n' :: (indentation level ++ indentUnit ++ content))]

/-- What is read back of the children of an element at `level`, up to outlines. -/
def rereadNodes (level : Int) (first : Bool) : List Node → List Node
  | [] => []
  | n :: ns => rereadNode level first ns.isEmpty n ++ rereadNodes level false ns

end

/-- `s` reads as the nodes `ns` inside any element, whatever follows it. -/
def ReadsAs (s : List Char) (ns : List Node) : Prop :=
  ∀ (e : Element) (es : List Element) (rest : List Char),
    outlineAfter (e :: es) (s ++ rest) = outlineAfter (e.extend ns :: es) rest

theorem readsAs_nil : ReadsAs [] [] := fun _ _ _ => by simp

theorem readsAs_text {text : List Char} (h : isQuiet text = true) : ReadsAs text [.text text] :=
  fun e es rest => outlineAfter_text h e es rest

theorem ReadsAs.append {s t : List Char} {ns ms : List Node} (hs : ReadsAs s ns)
    (ht : ReadsAs t ms) : ReadsAs (s ++ t) (ns ++ ms) := fun e es rest => by
  rw [List.append_assoc, hs, ht, Element.extend_extend]

/-- A sound element that is not blank is not void, so it can be closed by an end tag. -/
theorem not_isVoid_of_content {tag : List Char} {children : List Node}
    (h : isVoid tag = false ∨ children = []) (hb : children.all isBlankNode = false) :
    isVoid tag = false := by
  rcases h with h | rfl
  · exact h
  · cases hb

/-- **A written element is read as itself**, with the content `rereadContent` tells, given how the
text of its children is read. -/
theorem readsAs_elementText (quote : Quote) (level : Int) {e : Element}
    (he : e.node.isSound = true) {inner : List Char} {ms : List Node} (hi : ReadsAs inner ms) :
    ReadsAs (elementText quote level [] e inner)
      [.element e.tag e.attributes (rereadContent level e.children ms)] := by
  simp only [Element.node, isSound_element, properAttributes_iff] at he
  obtain ⟨ht, ⟨hn, hd⟩, hq, hv, -, -⟩ := he
  obtain ⟨a, hs, ha⟩ := startTag_rendering quote e [] hq
  rw [show bareAttributes [] = [] from rfl, List.append_nil] at ha
  intro p ps rest
  simp only [elementText, rereadContent, hs]
  by_cases hb : e.children.all isBlankNode = true
  · have hself := run_tag_selfClose ht hn ha (show isBlankText [' '] = true from rfl) p ps rest
    rw [firsts_of_distinct hd] at hself
    simp only [hb, if_true, outlineAfter]
    simp only [List.append_assoc, List.cons_append, String.reduceToList, List.nil_append]
      at hself ⊢
    rw [hself]
  · rw [Bool.not_eq_true] at hb
    have hvoid := not_isVoid_of_content hv hb
    -- The two forms with an end tag differ only in what stands between the tags.
    have hmain : ∀ {content : List Char} {ns : List Node}, ReadsAs content ns →
        outlineAfter (p :: ps) ('<' :: e.tag ++ (a ++ '>' :: (content ++ (endTag e.tag ++ rest)))) =
          outlineAfter (p.extend [.element e.tag e.attributes ns] :: ps) rest := by
      intro content ns hc
      have hopen := run_tag_open ht hn ha (show isBlankText [] = true from rfl) hvoid p ps
        (content ++ (endTag e.tag ++ rest))
      have hend := run_endTag ht (show isBlankText [] = true from rfl)
        (e := Element.extend ⟨e.tag, e.attributes, []⟩ ns) rfl p ps rest
      rw [firsts_of_distinct hd] at hopen
      rw [List.nil_append] at hopen
      rw [outlineAfter, hopen]
      show outlineAfter (_ :: p :: ps) _ = _
      rw [hc, outlineAfter]
      simp only [endTag, List.append_assoc, List.cons_append, List.nil_append] at hend ⊢
      rw [hend]
      simp [outlineAfter, Element.node, Element.extend]
    by_cases hx : e.children.all isTextNode = true
    · have := hmain (readsAs_text (isQuiet_escapeText (e.children.flatMap textContent)))
      simpa [hb, hx] using this
    · have := hmain (hi.append (readsAs_text (isQuiet_indentation level)))
      simpa [hb, hx] using this

theorem readsAs_childLines (quote : Quote) (level : Int) (first : Bool) :
    ∀ {ns : List Node}, Node.areProper ns = true →
      Node.allAttributesOf (isQuotable ·.value) ns = true →
      Node.allCommentsOf (!·.contains '<') ns = true →
      ReadsAs (block (childLines quote level first ns)) (rereadNodes level first ns)
  | [], _, _, _ => readsAs_nil
  | .element tag attributes children :: ns, hp, ha, hc => by
    simp only [Node.areProper, Node.allAttributesOf, Node.allCommentsOf, Bool.and_eq_true]
      at hp ha hc
    have he : (Node.element tag attributes children).isSound = true := by
      rw [Node.isSound, hp.1, ha.1]
      rfl
    obtain ⟨-, -, -, -, hp', ha'⟩ := isSound_element.1 he
    have hi := readsAs_childLines quote (level + 1) true hp' ha' hc.1
    rw [childLines, block_append, nodeLines, block_framed, rereadNodes, rereadNode]
    exact ((readsAs_text (isQuiet_indentation (level + 1))).append
      (readsAs_elementText quote (level + 1) (e := ⟨tag, attributes, children⟩) he hi)).append
      (readsAs_childLines quote level false hp.2 ha.2 hc.2)
  | .comment body :: ns, hp, ha, hc => by
    simp only [Node.areProper, Node.allAttributesOf, Node.allCommentsOf, Bool.and_eq_true]
      at hp ha hc
    have hb : '<' ∉ body := by simpa [Node.allComments] using hc.1
    rw [childLines, block_append, rereadNodes]
    refine ReadsAs.append ?_ (readsAs_childLines quote level false hp.2 ha.2 hc.2)
    rw [nodeLines, rereadNode]
    simpa [block] using readsAs_text (isQuiet_line level (isQuiet_formatComment hb))
  | .text s :: ns, hp, ha, hc => by
    simp only [Node.areProper, Node.allAttributesOf, Node.allCommentsOf, Bool.and_eq_true]
      at hp ha hc
    have hq := isQuiet_mixedText first ns.isEmpty s
    rw [childLines, block_append, rereadNodes]
    refine ReadsAs.append ?_ (readsAs_childLines quote level false hp.2 ha.2 hc.2)
    rw [nodeLines, rereadNode]
    cases hm : mixedText first ns.isEmpty s with
    | nil => exact readsAs_nil
    | cons c content =>
      rw [hm] at hq
      simpa [block] using readsAs_text (isQuiet_line level hq)

/-- The tree that is read back from a written root, up to outlines. The extra parts of its start tag
count as attributes without values. -/
def rereadRoot (level : Int) (extra : List (List Char)) (e : Element) : Element :=
  ⟨e.tag, firsts (e.attributes ++ bareAttributes extra),
    rereadContent level e.children (rereadNodes level true e.children)⟩

/-- **A written root is read as itself**, whatever follows it. -/
theorem outlineAfter_root (quote : Quote) (level : Int) {extra : List (List Char)} {e : Element}
    (hroot : e.tag = rootTag) (he : e.node.isSound = true)
    (hc : Node.allCommentsOf (!·.contains '<') e.children = true)
    (hx : ∀ x ∈ extra, isAttributeName x = true) (rest : List Char) :
    outlineAfter [] (elementText quote level extra e (block (childLines quote level true e.children)) ++
      rest) = .ok (rereadRoot level extra e).outline := by
  simp only [Element.node, isSound_element, properAttributes_iff] at he
  obtain ⟨ht, ⟨hn, hd⟩, hq, hv, hp, ha⟩ := he
  have hi := readsAs_childLines quote level true hp ha hc
  obtain ⟨a, hs, has⟩ := startTag_rendering quote e extra hq
  have hn' : ∀ x ∈ e.attributes ++ bareAttributes extra, isAttributeName x.name = true := by
    intro x hm
    rcases List.mem_append.1 hm with hm | hm
    · exact hn x hm
    · obtain ⟨y, hy, rfl⟩ := List.mem_map.1 hm
      exact hx y hy
  simp only [elementText, rereadRoot, rereadContent, hs]
  by_cases hb : e.children.all isBlankNode = true
  · have hself := run_tag_selfClose_root ht hn' has (show isBlankText [' '] = true from rfl) hroot
      rest
    simp only [hb, if_true, outlineAfter]
    simp only [List.append_assoc, List.cons_append, String.reduceToList, List.nil_append]
      at hself ⊢
    rw [hself]
    rfl
  · have hmain : ∀ {content : List Char} {ns : List Node}, ReadsAs content ns →
        outlineAfter [] ('<' :: e.tag ++ (a ++ '>' :: (content ++ (endTag e.tag ++ rest)))) =
          .ok (Element.outline ⟨e.tag, firsts (e.attributes ++ bareAttributes extra), ns⟩) := by
      intro content ns hread
      have hopen := run_tag_open_root ht hn' has (show isBlankText [] = true from rfl) hroot
        (content ++ (endTag e.tag ++ rest))
      have hend := run_endTag_root ht (show isBlankText [] = true from rfl)
        (e := Element.extend ⟨e.tag, firsts (e.attributes ++ bareAttributes extra), []⟩ ns) rfl rest
      rw [List.nil_append] at hopen
      rw [outlineAfter, hopen]
      show outlineAfter [_] _ = _
      rw [hread, outlineAfter]
      simp only [endTag, List.append_assoc, List.cons_append, List.nil_append] at hend ⊢
      rw [hend]
      simp [Except.map, Element.extend]
    by_cases hx : e.children.all isTextNode = true
    · have := hmain (readsAs_text (isQuiet_escapeText (e.children.flatMap textContent)))
      simpa [hb, hx] using this
    · have := hmain (hi.append (readsAs_text (isQuiet_indentation level)))
      simpa [hb, hx] using this

end SvgComponent.Jsx
