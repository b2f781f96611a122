import SvgComponent.Proofs.ComponentSource
import SvgComponent.Proofs.MarkedTree

/-!
# The source of a component as written source

The source of a component is written with the marks of its tree (`written_sourceText`), and it is calm if
no text of the tree holds a quotation mark: the writer itself puts marks in pairs only, around values, around
the character in a container and around the name of a module.

* `WrittenAs`: text in content that is written with some marks, whatever follows it.
-/

namespace SvgComponent.Jsx

open Text Markup Source

/-! ## The texts of a tree -/

mutual

/-- Every text has the property. -/
def allTexts (p : List Char → Bool) : Node → Bool
  | .element _ _ children => allTextsOf p children
  | .text s => p s
  | .comment _ => true

/-- Every text among the siblings and below has the property. -/
def allTextsOf (p : List Char → Bool) : List Node → Bool
  | [] => true
  | n :: ns => allTexts p n && allTextsOf p ns

end

/-- Text without quotation marks. -/
def isUnquoted (s : List Char) : Bool := s.all (!isStringQuote ·)

/-- The text of siblings has no quotation marks if none of their texts has. -/
theorem isUnquoted_textContent {ns : List Node} (h : ∀ s, .text s ∈ ns → isUnquoted s = true) :
    isUnquoted (ns.flatMap textContent) = true := by
  unfold isUnquoted
  rw [List.all_eq_true]
  intro c hc
  obtain ⟨n, hn, hc⟩ := List.mem_flatMap.1 hc
  cases n with
  | text s => exact List.all_eq_true.1 (h s hn) c hc
  | element | comment => cases hc

theorem of_allTextsOf {p : List Char → Bool} {ns : List Node} (h : allTextsOf p ns = true) :
    ∀ s, .text s ∈ ns → p s = true := by
  induction ns with
  | nil =>
    intro s hs
    cases hs
  | cons n ns ih =>
    simp only [allTextsOf, Bool.and_eq_true] at h
    intro s hs
    rcases List.mem_cons.1 hs with rfl | hs
    · exact h.1
    · exact ih h.2 s hs

theorem allTextsOf_mapAttributesIn (f : List Attribute → List Attribute) (p : List Char → Bool) :
    ∀ ns : List Node, allTextsOf p (Node.mapAttributesIn f ns) = allTextsOf p ns
  | [] => rfl
  | .element tag attributes children :: ns => by
    simp only [Node.mapAttributesIn, Node.mapAttributes, allTextsOf, allTexts,
      allTextsOf_mapAttributesIn f p children, allTextsOf_mapAttributesIn f p ns]
  | .comment body :: ns => by
    simp only [Node.mapAttributesIn, Node.mapAttributes, allTextsOf, allTextsOf_mapAttributesIn f p ns]
  | .text s :: ns => by
    simp only [Node.mapAttributesIn, Node.mapAttributes, allTextsOf, allTextsOf_mapAttributesIn f p ns]

theorem allTexts_adapt (p : List Char → Bool) (root : Element) (withoutIds : Bool) :
    allTexts p (adapt root withoutIds).node = allTexts p root.node := by
  rw [adapt_eq]
  split
  · exact (allTextsOf_mapAttributesIn _ p _).trans (allTextsOf_mapAttributesIn _ p _)
  · exact allTextsOf_mapAttributesIn _ p _

/-! ## Text -/

/-- Content that is written with the marks `ls`, whatever follows it. -/
def WrittenAs (calm : Bool) (s : List Char) (ls : List Lexeme) : Prop :=
  ∀ (rest : List Char) (later : List Lexeme), Written calm .content rest later →
    Written calm .content (s ++ rest) (ls ++ later)

variable {calm : Bool}

theorem writtenAs_nil : WrittenAs calm [] [] := fun _ _ h => h

theorem WrittenAs.append {s t : List Char} {ls ms : List Lexeme} (hs : WrittenAs calm s ls)
    (ht : WrittenAs calm t ms) : WrittenAs calm (s ++ t) (ls ++ ms) := fun rest later h => by
  rw [List.append_assoc, List.append_assoc]
  exact hs _ _ (ht rest later h)

/-- Text can be put together from pieces without marks. -/
theorem WrittenAs.append_text {s t : List Char} {ls : List Lexeme} (hs : WrittenAs calm s [])
    (ht : WrittenAs calm t ls) : WrittenAs calm (s ++ t) ls := hs.append ht

theorem writtenAs_char {c : Char} (hc : c ≠ '<') (hq : calm = true → isStringQuote c = false) :
    WrittenAs calm [c] [] := fun _ _ h => .char hc hq h

theorem writtenAs_text {text : List Char} (ht : '<' ∉ text)
    (hq : calm = true → isUnquoted text = true) : WrittenAs calm text [] := by
  induction text with
  | nil => exact writtenAs_nil
  | cons c text ih =>
    simp only [List.mem_cons, not_or] at ht
    simp only [isUnquoted, List.all_cons, Bool.and_eq_true, Bool.not_eq_true'] at hq
    exact (writtenAs_char (Ne.symm ht.1) fun h => (hq h).1).append (ih ht.2 fun h => (hq h).2)

/-- Text without markup and quotation marks. -/
theorem writtenAs_fixed {s : List Char} (h : '<' ∉ s ∧ isUnquoted s = true) : WrittenAs calm s [] :=
  writtenAs_text h.1 fun _ => h.2

theorem writtenAs_enclosed {q : Char} {v : List Char} (hq : isStringQuote q = true) (hv : q ∉ v)
    (hlt : '<' ∉ v) : WrittenAs calm (q :: v ++ [q]) [] := fun _ _ h => by
  have := Written.literal hq hv hlt h
  simpa using this

theorem writtenAs_container {c : Char} (hc : c ≠ '"') : WrittenAs calm (container c) [] := by
  have hinner : WrittenAs calm ['"', c, '"'] [] := by
    by_cases hlt : c = '<'
    · subst hlt
      exact fun _ _ h => .angle h
    · exact writtenAs_enclosed (v := [c]) (by decide) (by simpa using Ne.symm hc)
        (by simpa using Ne.symm hlt)
  exact (writtenAs_char (by decide) fun _ => by decide).append
    (hinner.append (writtenAs_char (by decide) fun _ => by decide))

theorem mem_spaced {c : Char} {s : List Char} (h : c ∈ spaced s) : c = ' ' ∨ c ∈ s := by
  have hwords : c ∈ (words s).flatten → c ∈ s := fun hm => by
    rw [words, flatten_runs] at hm
    exact List.mem_of_mem_filter hm
  rw [spaced] at h
  cases hw : words s with
  | nil => rw [hw] at h; cases h
  | cons w ws =>
    rw [hw, intercalate_cons] at h
    rw [hw, List.flatten_cons] at hwords
    rcases List.mem_append.1 h with h | h
    · exact .inr (hwords (List.mem_append_left _ h))
    · obtain ⟨v, hv, hc⟩ := List.mem_flatMap.1 h
      rcases List.mem_cons.1 hc with hc | hc
      · exact .inl hc
      · exact .inr (hwords (List.mem_append_right _ (List.mem_flatten.2 ⟨v, hv, hc⟩)))

theorem writtenAs_escapeText {s : List Char} (hs : calm = true → isUnquoted s = true) :
    WrittenAs calm (escapeText s) [] := by
  have hall : ∀ t, (calm = true → isUnquoted t = true) → WrittenAs calm (containSpecial t) [] := by
    intro t ht
    induction t with
    | nil => exact writtenAs_nil
    | cons c t ih =>
      simp only [isUnquoted, List.all_cons, Bool.and_eq_true, Bool.not_eq_true'] at ht
      rw [containSpecial, List.flatMap_cons]
      refine WrittenAs.append_text ?_ (ih fun h => (ht h).2)
      split
      · rename_i hc
        exact writtenAs_container fun e => by
          rw [e] at hc
          cases hc
      · rename_i hc
        exact writtenAs_char (fun e => hc (by rw [e]; rfl)) fun h => (ht h).1
  refine hall (spaced s) fun h => ?_
  rw [isUnquoted, List.all_eq_true]
  intro c hc
  rcases mem_spaced hc with rfl | hc
  · decide
  · exact List.all_eq_true.1 (hs h) c hc

theorem writtenAs_mixedText (first last : Bool) {s : List Char}
    (hs : calm = true → isUnquoted s = true) : WrittenAs calm (mixedText first last s) [] := by
  have hsep : ∀ b : Bool, WrittenAs calm (if b then container ' ' else []) [] := by
    intro b
    cases b with
    | false => exact writtenAs_nil
    | true => exact writtenAs_container (by decide)
  rw [mixedText]
  split
  · exact hsep _
  · exact ((hsep _).append_text (writtenAs_escapeText hs)).append_text (hsep _)

theorem writtenAs_indentation (level : Int) : WrittenAs calm ('\n' :: indentation level) [] := by
  refine writtenAs_text (not_mem_indentation level) fun _ => ?_
  rw [isUnquoted, List.all_cons, Bool.and_eq_true, List.all_eq_true]
  refine ⟨by decide, fun c hc => ?_⟩
  rw [mem_indentation hc]
  decide

theorem writtenAs_line (level : Int) {content : List Char} (h : WrittenAs calm content []) :
    WrittenAs calm ('\n' :: (indentation level ++ indentUnit ++ content)) [] := by
  have hunit : WrittenAs calm indentUnit [] := writtenAs_fixed (by decide)
  rw [← List.cons_append, ← List.cons_append]
  exact ((writtenAs_indentation level).append_text hunit).append_text h

/-! ## Elements -/

/-- Names of which minifying takes no character for punctuation. -/
def isPlainName (name : List Char) : Bool := name.all isNameChar

theorem written_attributes (quote : Quote) {as : List Attribute}
    (hne : ∀ a ∈ as, isAttributeName a.name = true) (hn : as.all (isPlainName ·.name) = true)
    (hq : as.all (isQuotable ·.value) = true) {s : List Char} {ls : List Lexeme}
    (h : Written calm .tag s ls) :
    Written calm .tag ((as.map (formatAttribute quote)).flatMap (' ' :: ·) ++ s)
      (as.map Attribute.lexeme ++ ls) := by
  induction as with
  | nil => exact h
  | cons a as ih =>
    simp only [List.all_cons, Bool.and_eq_true] at hn hq
    obtain ⟨q, hquote, hv, hvalue⟩ := quoteAttribute_eq quote hq.1
    have hname : a.name ≠ [] := fun e => by
      have := hne a (by simp)
      rw [e] at this
      cases this
    have hlater := ih (fun b hb => hne b (by simp [hb])) hn.2 hq.2
    have hfirst := Written.attribute hname hn.1 hquote hv hlater
    simpa [formatAttribute, hvalue, Attribute.lexeme] using hfirst

/-- The end of a start tag, behind the extra parts. -/
theorem written_ending {extra : List (List Char)} (hx : extra = [] ∨ extra = [Component.propsSpread])
    (selfClosed : Bool) {s : List Char} {ls : List Lexeme} (h : Written calm .content s ls) :
    Written calm .tag (extra.flatMap (' ' :: ·) ++ (tagEnding selfClosed ++ s))
      ((bareAttributes extra).map Attribute.lexeme ++ endLexeme selfClosed :: ls) := by
  rcases hx with rfl | rfl
  · exact .ending selfClosed h
  · have hspread := Written.spread selfClosed h
    simpa [bareAttributes, Attribute.lexeme] using hspread

theorem writtenAs_endTag {tag : List Char} (ht : isTagName tag = true) :
    WrittenAs calm (endTag tag) [.closeTag tag] := fun rest later h => by
  have hclose := Written.closeTag ht h
  simpa [endTag] using hclose

/-- **A written element is written with its marks**, given that its children are. -/
theorem writtenAs_elementText (quote : Quote) (level : Int) {extra : List (List Char)} {e : Element}
    (he : e.node.isSound = true) (hn : e.attributes.all (isPlainName ·.name) = true)
    (hx : extra = [] ∨ extra = [Component.propsSpread])
    (ht : calm = true → allTextsOf isUnquoted e.children = true) {inner : List Char}
    (hi : WrittenAs calm inner (childMarks e.children)) :
    WrittenAs calm (elementText quote level extra e inner)
      (nodeMarks { e with attributes := e.attributes ++ bareAttributes extra }.node) := by
  simp only [Element.node, isSound_element, properAttributes_iff] at he
  obtain ⟨htag, ⟨hne, -⟩, hq, -, -, -⟩ := he
  intro rest later h
  -- the start tag, whatever follows its end
  have hstart : ∀ (selfClosed : Bool) {s : List Char} {ls : List Lexeme},
      Written calm .content s ls →
      Written calm .content (startTag quote e extra ++ (tagEnding selfClosed ++ s))
        (.openTag e.tag :: ((e.attributes ++ bareAttributes extra).map Attribute.lexeme ++
          endLexeme selfClosed :: ls)) := by
    intro selfClosed s ls hs
    have hattributes := written_attributes quote hne hn hq (written_ending hx selfClosed hs)
    have hopen := Written.openTag htag hattributes
    simpa [startTag] using hopen
  simp only [elementText, Element.node, nodeMarks, closingMarks]
  by_cases hb : e.children.all isBlankNode = true
  · have hself := hstart true h
    simpa [hb, tagEnding, endLexeme] using hself
  · have hend := writtenAs_endTag htag rest later h
    by_cases htext : e.children.all isTextNode = true
    · have hunquoted : calm = true → isUnquoted (e.children.flatMap textContent) = true :=
        fun hc => isUnquoted_textContent (of_allTextsOf (ht hc))
      have hopen := hstart false (writtenAs_escapeText hunquoted _ _ hend)
      simpa [hb, htext, childMarks_textNodes htext, tagEnding, endLexeme] using hopen
    · have hopen := hstart false (hi.append (writtenAs_indentation level) _ _ hend)
      simpa [hb, htext, tagEnding, endLexeme] using hopen

theorem writtenAs_childLines (quote : Quote) (level : Int) (first : Bool) :
    ∀ {ns : List Node}, Node.areProper ns = true →
      Node.allAttributesOf (isQuotable ·.value) ns = true →
      Node.allAttributesOf (isPlainName ·.name) ns = true →
      Node.allCommentsOf (fun _ => false) ns = true →
      (calm = true → allTextsOf isUnquoted ns = true) →
      WrittenAs calm (block (childLines quote level first ns)) (childMarks ns)
  | [], _, _, _, _, _ => writtenAs_nil
  | .element tag attributes children :: ns, hp, ha, hn, hc, ht => by
    simp only [Node.areProper, Node.allAttributesOf, Node.allCommentsOf, Bool.and_eq_true, allTextsOf]
      at hp ha hn hc ht
    have he : (Node.element tag attributes children).isSound = true := by
      rw [Node.isSound, hp.1, ha.1]
      rfl
    obtain ⟨-, -, -, -, hp', ha'⟩ := isSound_element.1 he
    have hn' := hn.1
    rw [Node.allAttributes, Bool.and_eq_true] at hn'
    have hi := writtenAs_childLines quote (level + 1) true hp' ha' hn'.2 hc.1 fun h => (ht h).1
    have helement := writtenAs_elementText quote (level + 1) (e := ⟨tag, attributes, children⟩) he
      hn'.1 (.inl rfl) (fun h => (ht h).1) hi
    have hlater := writtenAs_childLines quote level false hp.2 ha.2 hn.2 hc.2 fun h => (ht h).2
    rw [show bareAttributes [] = [] from rfl, List.append_nil] at helement
    rw [childLines, block_append, nodeLines, block_framed, childMarks]
    exact ((writtenAs_indentation (level + 1)).append_text helement).append hlater
  | .comment body :: ns, _, _, _, hc, _ => by
    simp [Node.allCommentsOf, Node.allComments] at hc
  | .text s :: ns, hp, ha, hn, hc, ht => by
    simp only [Node.areProper, Node.allAttributesOf, Node.allCommentsOf, Bool.and_eq_true, allTextsOf]
      at hp ha hn hc ht
    have htext := writtenAs_mixedText first ns.isEmpty fun h => (ht h).1
    have hlater := writtenAs_childLines quote level false hp.2 ha.2 hn.2 hc.2 fun h => (ht h).2
    rw [childLines, block_append]
    refine WrittenAs.append_text ?_ hlater
    rw [nodeLines]
    cases hm : mixedText first ns.isEmpty s with
    | nil => exact writtenAs_nil
    | cons c content =>
      rw [hm] at htext
      simpa [block] using writtenAs_line level htext

end SvgComponent.Jsx

namespace SvgComponent.Component

open Text Markup Jsx Settings Source

variable {calm : Bool}

/-! ## The source of a component -/

theorem attributes_withSpread_of_plain {root : Element} (hn : root.attributes.all (isPlainName ·.name) = true)
    (o : Options) :
    { root with attributes := root.attributes ++ bareAttributes (spread o) } = withSpread root o := by
  have hfree : hasAttribute propsSpread root.attributes = false := by
    rw [hasAttribute_eq_false]
    intro hm
    obtain ⟨a, ha, he⟩ := List.mem_map.1 hm
    have hplain := List.all_eq_true.1 hn a ha
    rw [he] at hplain
    revert hplain
    decide +kernel
  unfold spread withSpread
  split
  · rw [addAttribute, if_neg (by simp [hfree])]
    rfl
  · rw [show bareAttributes [] = [] from rfl, List.append_nil]

theorem writtenAs_rootText {root : Element} {o : Options} (hs : root.node.isSound = true)
    (hn : root.node.allAttributes (isPlainName ·.name) = true)
    (hc : root.node.allComments (fun _ => false) = true)
    (ht : calm = true → allTexts isUnquoted root.node = true) :
    WrittenAs calm (rootText root o) (nodeMarks (withSpread root o).node) := by
  obtain ⟨-, -, -, -, hp, ha⟩ := isSound_element.1 hs
  rw [Element.node, Node.allAttributes, Bool.and_eq_true] at hn
  have hextra : spread o = [] ∨ spread o = [propsSpread] := by
    unfold spread
    split
    · exact .inr rfl
    · exact .inl rfl
  rw [← attributes_withSpread_of_plain hn.1]
  exact writtenAs_elementText o.quotes 2 hs hn.1 hextra ht
    (writtenAs_childLines o.quotes 2 true hp ha hn.2 hc ht)

/-- The marks in front of those of the tree. -/
def parameterMarks (o : Options) : List Lexeme :=
  if o.typescript then [.openTag "SVGSVGElement".toList, .tagEnd] else []

theorem writtenAs_parameter (o : Options) : WrittenAs calm (parameter o) (parameterMarks o) := by
  unfold parameter parameterMarks
  split
  · have hprops : "props: React.SVGProps<SVGSVGElement>".toList =
        "props: React.SVGProps".toList ++ ('<' :: ("SVGSVGElement".toList ++ ['>'])) := by decide
    have htext : WrittenAs calm "props: React.SVGProps".toList [] :=
      writtenAs_fixed (by decide)
    have htag : WrittenAs calm ('<' :: ("SVGSVGElement".toList ++ ['>']))
        [.openTag "SVGSVGElement".toList, .tagEnd] := fun rest later h => by
      have hname : isTagName "SVGSVGElement".toList = true := by decide +kernel
      have hopen := Written.openTag hname (Written.ending false h)
      rw [List.cons_append, List.append_assoc]
      exact hopen
    rw [hprops]
    exact htext.append_text htag
  · exact writtenAs_fixed (by decide)

theorem writtenAs_plain {s : List Char} (h : isPlainName s = true) : WrittenAs calm s [] := by
  rw [isPlainName, List.all_eq_true] at h
  refine writtenAs_text (fun hm => absurd (h _ hm) (by decide)) fun _ => ?_
  rw [isUnquoted, List.all_eq_true]
  intro c hc
  rw [(isNameChar_facts (h c hc)).2.1]
  rfl

theorem isPlainName_exportName {name : List Char} {o : Options} (hname : isPlainName name = true)
    (hexport : ∀ e, o.exportName = some e → isPlainName e.toList = true) :
    isPlainName (exportName name o) = true := by
  rw [exportName]
  split
  · exact hname
  · rename_i e he
    split
    · exact hname
    · exact hexport e he

theorem writtenAs_imports (o : Options) :
    WrittenAs calm ((imports o).flatMap (· ++ "\n\n".toList)) [] := by
  have hquote : isStringQuote o.quotes.char = true := by cases o.quotes <;> rfl
  have hreact : o.quotes.char ∉ "react".toList := by cases o.quotes <;> decide
  have hline : ∀ names : String, '<' ∉ names.toList → isUnquoted names.toList = true →
      WrittenAs calm ("import ".toList ++ names.toList ++ " from ".toList ++
        o.quotes.enclose "react".toList ++ [';'] ++ "\n\n".toList) [] := by
    intro names hlt hunquoted
    have himport : WrittenAs calm "import ".toList [] := writtenAs_fixed (by decide)
    have hfrom : WrittenAs calm " from ".toList [] := writtenAs_fixed (by decide)
    have hmodule : WrittenAs calm (o.quotes.enclose "react".toList) [] :=
      writtenAs_enclosed hquote hreact (by decide)
    have hend : WrittenAs calm ([';'] ++ "\n\n".toList) [] :=
      writtenAs_fixed (by decide)
    have hnames : WrittenAs calm names.toList [] := writtenAs_fixed ⟨hlt, hunquoted⟩
    rw [List.append_assoc _ [';']]
    exact (((himport.append_text hnames).append_text hfrom).append_text hmodule).append_text hend
  unfold imports
  split
  · exact writtenAs_nil
  split
  · simpa using hline "React, \x7b memo \x7d" (by decide) (by decide)
  · simpa using hline "React" (by decide) (by decide)
  · simpa using hline "\x7b memo \x7d" (by decide) (by decide)
  · exact writtenAs_nil

theorem writtenAs_sourceHead {name : List Char} {o : Options} (hname : isPlainName name = true)
    (hexport : isPlainName (exportName name o) = true) : WrittenAs calm (sourceHead name o) [] := by
  have hequals : WrittenAs calm " = ".toList [] := writtenAs_fixed (by decide)
  unfold sourceHead
  refine (writtenAs_imports o).append_text ?_
  cases o.exportStyle with
  | default =>
    have hdefault : WrittenAs calm "export default ".toList [] := writtenAs_fixed (by decide)
    exact hdefault
  | named =>
    have hconst : WrittenAs calm "const ".toList [] := writtenAs_fixed (by decide)
    exact (hconst.append_text (writtenAs_plain hname)).append_text hequals
  | const =>
    have hconst : WrittenAs calm "export const ".toList [] :=
      writtenAs_fixed (by decide)
    exact (hconst.append_text (writtenAs_plain hexport)).append_text hequals

theorem writtenAs_sourceTail {name : List Char} {o : Options} (hname : isPlainName name = true)
    (hexport : isPlainName (exportName name o) = true) : WrittenAs calm (sourceTail name o) [] := by
  have hsemicolon : WrittenAs calm [';'] [] := writtenAs_fixed (by decide)
  unfold sourceTail
  split
  · have hstart : WrittenAs calm ";\n\nexport \x7b ".toList [] :=
      writtenAs_fixed (by decide)
    have hend : WrittenAs calm " \x7d;".toList [] := writtenAs_fixed (by decide)
    have has : WrittenAs calm " as ".toList [] := writtenAs_fixed (by decide)
    refine (hstart.append_text ?_).append_text hend
    split
    · exact writtenAs_plain hname
    · exact ((writtenAs_plain hname).append_text has).append_text (writtenAs_plain hexport)
  · exact hsemicolon

/-- **The source of a component is written with the marks of its tree**, behind those of its parameter. -/
theorem written_sourceText {root : Element} {name : List Char} {o : Options}
    (hs : root.node.isSound = true) (hn : root.node.allAttributes (isPlainName ·.name) = true)
    (hc : root.node.allComments (fun _ => false) = true)
    (ht : calm = true → allTexts isUnquoted root.node = true) (hname : isPlainName name = true)
    (hexport : ∀ e, o.exportName = some e → isPlainName e.toList = true) :
    Written calm .content (sourceText root name o)
      (parameterMarks o ++ nodeMarks (withSpread root o).node) := by
  have hexport' := isPlainName_exportName hname hexport
  have hfunction : WrittenAs calm (functionHead o) [] := by
    unfold functionHead
    cases o.memo <;> exact writtenAs_fixed (by decide)
  have hbody : WrittenAs calm bodyHead [] := writtenAs_fixed (by decide)
  have htail : WrittenAs calm (functionTail o) [] := by
    unfold functionTail
    cases o.memo <;> exact writtenAs_fixed (by decide)
  have hhead : WrittenAs calm (sourceHead name o) [] := writtenAs_sourceHead hname hexport'
  have hroot : WrittenAs calm (rootText root o) _ := writtenAs_rootText hs hn hc ht
  have hend := htail.append_text (writtenAs_sourceTail hname hexport')
  have hstart := (hhead.append_text hfunction).append_text (writtenAs_parameter o)
  have hall := ((hstart.append hbody).append hroot).append hend _ _ .nil
  simpa [sourceText] using hall

end SvgComponent.Component
