import SvgComponent.Proofs.MinifiedMarks
import SvgComponent.Proofs.WrittenSource

/-!
# Conversion to minified source

Minifying finds the literals of source by its quotation marks alone, wherever they stand. A quotation mark in
text shifts the pairs behind it, so that a value can be taken for code. The markup is kept all the same, so
that elements, tags and attribute names are read back from minified source. Values are read back, up to runs
of blanks, exactly if what is taken for code in them is steady (`keepsValues`).

* `exists_parse_minify`: what is read back from minified source.
* `parse_convert_minified`: what becomes of a document that is converted to minified source.
-/

namespace SvgComponent.Component

open Text Markup Jsx Settings Source

/-! ## Reading minified source -/

theorem minifiedLexeme_alike (source : List Char) (t : Token) :
    (minifiedLexeme source t).Alike Any Any t.lexeme := by
  unfold minifiedLexeme
  split
  · rename_i name value hl
    rw [hl]
    exact .attribute trivial
  · exact Lexeme.alike_refl (fun _ => trivial) (fun _ => trivial) _

theorem parameterMarks_eq (o : Options) :
    parameterMarks o = [] ∨ parameterMarks o = [.openTag "SVGSVGElement".toList, .tagEnd] := by
  unfold parameterMarks
  split
  · exact .inr rfl
  · exact .inl rfl

/-- The element in the type of the parameter is no root. -/
theorem run_parameterMarks (o : Options) (ls : List Lexeme) :
    Builder.run {} (parameterMarks o ++ ls) = Builder.run {} ls := by
  rcases parameterMarks_eq o with h | h <;> rw [h] <;> rfl

/-- Marks that differ from those of the source in values at most start with those of the parameter. -/
theorem exists_parameterMarks {o : Options} {ls more : List Lexeme}
    (h : List.Forall₂ (Lexeme.Alike Any Any) ls (parameterMarks o ++ more)) :
    ∃ rest, ls = parameterMarks o ++ rest ∧ List.Forall₂ (Lexeme.Alike Any Any) rest more ∧
      ∀ value, List.Forall₂ (Lexeme.Alike value Any) ls (parameterMarks o ++ more) ↔
        List.Forall₂ (Lexeme.Alike value Any) rest more := by
  rcases parameterMarks_eq o with hm | hm
  · rw [hm] at h ⊢
    exact ⟨ls, rfl, h, fun value => Iff.rfl⟩
  · rw [hm] at h ⊢
    obtain ⟨l, ls, hl, hls, rfl⟩ := List.forall₂_cons_right_iff.1 h
    cases hl
    obtain ⟨l, ls, hl, hrest, rfl⟩ := List.forall₂_cons_right_iff.1 hls
    cases hl
    refine ⟨ls, rfl, hrest, fun value => ?_⟩
    have hopen : (Lexeme.openTag "SVGSVGElement".toList).Alike value Any
        (.openTag "SVGSVGElement".toList) := .openTag
    have hend : Lexeme.tagEnd.Alike value Any .tagEnd := .tagEnd
    rw [List.cons_append, List.cons_append, List.nil_append, List.forall₂_cons, List.forall₂_cons]
    simp only [hopen, hend, true_and]

theorem withSpread_tag (root : Element) (o : Options) : (withSpread root o).tag = root.tag := by
  unfold withSpread
  split <;> rfl

theorem isProper_withSpread {root : Element} (hs : root.node.isSound = true) (o : Options) :
    (withSpread root o).node.isProper = true := by
  unfold withSpread
  split
  · simp only [Element.node, isSound_element, properAttributes, Bool.and_eq_true] at hs
    simp only [Element.node, Node.isProper, properAttributes, Bool.and_eq_true, Bool.or_eq_true,
      Bool.not_eq_true', List.isEmpty_iff]
    exact ⟨⟨⟨hs.1, all_addAttribute hs.2.1.1 isAttributeName_propsSpread,
      distinctNames_addAttribute _ hs.2.1.2⟩, hs.2.2.2.1⟩, hs.2.2.2.2.1⟩
  · rw [Node.isSound, Bool.and_eq_true] at hs
    exact hs.1

/-- **What is read from the marks of a text is read from the text**, up to text. -/
theorem exists_parse_of_marks {s : List Char} {back : Element}
    (h : Builder.run {} (marks .content s) = .ok back) :
    ∃ read, parse s = .ok read ∧
      ∀ value e, read.Alike value Any e ↔ back.Alike value Any e := by
  have hempty : Builder.Alike Eq Any {} {} := ⟨.nil, .none⟩
  have hrun : AlikeResults Eq Any (parse s) (.ok back) := by
    rw [← h]
    exact run_marks hempty (lexemes .content s)
  cases hp : parse s with
  | error e =>
    rw [hp] at hrun
    exact hrun.elim
  | ok read =>
    rw [hp] at hrun
    have hread : read.Alike Eq Any back := hrun
    have hback : back.Alike Eq Any read := hread.symm (fun _ _ => Eq.symm) fun _ _ _ => trivial
    have htrans : ∀ {value : List Char → List Char → Prop} (a b c : List Char), a = b → value b c →
        value a c := fun a b c hab hbc => hab ▸ hbc
    exact ⟨read, rfl, fun value e => ⟨fun h => hback.trans htrans (fun _ _ _ _ _ => trivial) h,
      fun h => hread.trans htrans (fun _ _ _ _ _ => trivial) h⟩⟩

/-- **A tree can be read back from its minified source.** Its elements, tags and attribute names are the
same, and up to runs of blanks its values are, exactly if the source keeps them. -/
theorem exists_parse_minify {root : Element} {name : List Char} {o : Options}
    (hroot : root.tag = rootTag) (hs : root.node.isSound = true)
    (hn : root.node.allAttributes (isPlainName ·.name) = true)
    (hc : root.node.allComments (fun _ => false) = true) (hname : isPlainName name = true)
    (hexport : ∀ e, o.exportName = some e → isPlainName e.toList = true) :
    ∃ back, parse (minify (sourceText root name o)) = .ok back ∧
      back.Alike Any Any (withSpread root o) ∧
      (back.Alike (fun a b => a = collapse b) Any (withSpread root o) ↔
        keepsValues (sourceText root name o) = true) := by
  have hwritten : Written false .content (sourceText root name o) _ :=
    written_sourceText hs hn hc (fun h => by cases h) hname hexport
  have hminify := minify_eq_minifyFrom (clear_sourceText root name o)
    (getLast?_sourceText root name o) (by decide)
  have hkept := hwritten.keepsMarks []
  have hmarks := map_marksAt .content 0 (sourceText root name o)
  have hkeeps := keepsValues_iff (sourceText root name o)
  simp only [Reading.after, List.length_nil, List.nil_append, ← hminify] at hkept
  rw [hwritten.marks_eq] at hmarks
  rw [← hkept, hmarks] at hkeeps
  -- the marks of the minified source differ from those of the source in values only
  have halike : List.Forall₂ (Lexeme.Alike Any Any)
      (marks .content (minify (sourceText root name o)))
      (parameterMarks o ++ nodeMarks (withSpread root o).node) := by
    rw [hkept, ← hmarks, List.forall₂_map_left_iff, List.forall₂_map_right_iff, List.forall₂_same]
    exact fun t _ => minifiedLexeme_alike _ t
  obtain ⟨rest, hrest, hany, hparameter⟩ := exists_parameterMarks halike
  obtain ⟨tree, hrun, hvalues⟩ := exists_root ((withSpread_tag root o).trans hroot)
    (isProper_withSpread hs o) hany
  obtain ⟨back, hback, hsame⟩ := exists_parse_of_marks (by rw [hrest, run_parameterMarks, hrun])
  refine ⟨back, hback, ?_, ?_⟩
  · rw [hsame, hvalues]
    exact hany
  · rw [hsame, hvalues, hkeeps, hparameter]

theorem isPlainName_jsxName {name : List Char} (h : isPlainName name = true) :
    isPlainName (jsxName name) = true :=
  jsxName_rec (p := isPlainName) (by decide) (fun e he => (all_isNameChar_spellings e he).2) h

end SvgComponent.Component

namespace SvgComponent

open Text Markup Jsx Settings Component Tool

/-! ## Conversion to minified source -/

/-- What is known of the adapted tree of a document without comments. -/
theorem adapt_of_parse {s : List Char} {root : Element} (hp : parse s = .ok root)
    (hc : root.node.allComments (fun _ => false) = true)
    (hn : root.node.allAttributes (isPlainName ·.name) = true) (withoutIds : Bool) :
    (adapt root withoutIds).tag = rootTag ∧ (adapt root withoutIds).node.isSound = true ∧
      (adapt root withoutIds).node.allAttributes (isPlainName ·.name) = true ∧
      (adapt root withoutIds).node.allComments (fun _ => false) = true := by
  obtain ⟨hroot, hs⟩ := parse_sound hp
  refine ⟨by rw [adapt_tag, hroot], isSound_adapt withoutIds hs, ?_,
    (allComments_adapt _ root withoutIds).trans hc⟩
  exact allAttributes_adapt (p := (isPlainName ·.name)) (fun a ha => isPlainName_jsxName ha)
    withoutIds hn

variable {m : Type → Type} [Monad m] [LawfulMonad m]

theorem convert_minified (tools : Tools m) {svg : String} (name : String) {o : Options}
    {root : Element} (hminify : o.minify = true) (hoptimize : o.optimizeSvg = false)
    (hp : parse svg.toList = .ok root) :
    convert tools svg name o = conclude tools name (.ok (String.ofList
      (Source.minify (sourceText (adapt root o.removeIds) name.toList o)))) := by
  refine convert_of_finish tools name hoptimize hp ?_
  simp [finish, hminify]

/-- **What becomes of a document that is converted to minified source.** The conversion yields source
from which a tree can be read, and that is the adapted tree of the document, with the part that passes
properties on as one more attribute of the root if the options ask for it: the same elements, tags and
attribute names in the same order. Its values are those of the document with each run of blanks replaced by
one space, if and only if what is read as code in the values of the source is steady before it is minified.
That is so whenever no text of the document has a quotation mark. -/
theorem parse_convert_minified (tools : Tools m) {svg name : String} {o : Options} {root : Element}
    (hminify : o.minify = true) (hoptimize : o.optimizeSvg = false)
    (hname : isPlainName name.toList = true)
    (hexport : ∀ e, o.exportName = some e → isPlainName e.toList = true)
    (hp : parse svg.toList = .ok root) (hc : root.node.allComments (fun _ => false) = true)
    (hn : root.node.allAttributes (isPlainName ·.name) = true) :
    ∃ source final back,
      generate (adapt root o.removeIds) name.toList o = .ok source ∧
      (convert tools svg name o = do
        tools.note ⟨.debug, .conversion, "Converted " ++ name ++ " (0 warning(s))"⟩
        return .ok { componentName := name, source := some final }) ∧
      parse final.toList = .ok back ∧
      back.outline.Alike (fun _ _ => True) (fun _ _ => True)
        (withSpread (adapt root o.removeIds) o).outline ∧
      (back.outline.Alike (fun a b => a = collapse b) (fun _ _ => True)
          (withSpread (adapt root o.removeIds) o).outline ↔ keepsValues source = true) ∧
      (allTexts isUnquoted root.node = true → keepsValues source = true) := by
  obtain ⟨hroot, hs, hplain, hfree⟩ := adapt_of_parse hp hc hn o.removeIds
  obtain ⟨back, hb, ha, hv⟩ := exists_parse_minify hroot hs hplain hfree hname hexport
  refine ⟨_, _, back, generate_eq hroot name.toList o, convert_minified tools name hminify hoptimize hp,
    by rwa [String.toList_ofList], ha, hv, fun ht => ?_⟩
  have ht' := (allTexts_adapt _ root o.removeIds).trans ht
  exact (written_sourceText hs hplain hfree (fun _ => ht') hname hexport).keepsValues

/-- A quotation mark in text that shifts the literals behind it, values that are read as code for that reason,
an attribute to rename and one to drop, and a parameter with a type. -/
theorem parse_convert_minified_hard :
    ∃ root final back,
      parse "<svg id='i'><text>\"</text><path stroke-width='1' d='M0 0\n L1,1'/></svg>".toList =
        .ok root ∧
      (convert Tools.session
          "<svg id='i'><text>\"</text><path stroke-width='1' d='M0 0\n L1,1'/></svg>" "Icon"
          { minify := true, removeIds := true, typescript := true } = do
        Tools.session.note ⟨.debug, .conversion, "Converted Icon (0 warning(s))"⟩
        return .ok { componentName := "Icon", source := some final }) ∧
      parse final.toList = .ok back ∧
      back.outline.Alike (fun a b => a = collapse b) (fun _ _ => True)
        (withSpread (adapt root true) { minify := true, removeIds := true, typescript := true }).outline := by
  obtain ⟨root, hp, hall⟩ := exists_parse_of_any
    (s := "<svg id='i'><text>\"</text><path stroke-width='1' d='M0 0\n L1,1'/></svg>".toList)
    (p := fun root => root.node.allComments (fun _ => false) &&
      root.node.allAttributes (isPlainName ·.name) &&
      (generate (adapt root true) "Icon".toList
        { minify := true, removeIds := true, typescript := true }).toOption.any keepsValues)
    (by decide +kernel)
  simp only [Bool.and_eq_true] at hall
  obtain ⟨⟨hc, hn⟩, hkeeps⟩ := hall
  obtain ⟨source, final, back, hgenerate, hconvert, hb, -, hv, -⟩ :=
    parse_convert_minified Tools.session
      (o := { minify := true, removeIds := true, typescript := true })
      rfl rfl (show isPlainName "Icon".toList = true by decide) (by simp) hp hc hn
  rw [hgenerate] at hkeeps
  exact ⟨root, final, back, hp, hconvert, hb, hv.2 hkeeps⟩

/-- **A quotation mark in text can cost a value its blanks.** The literals behind it are shifted, and the value
is minified as code. -/
theorem convert_minified_shifted :
    ∃ root final back,
      parse "<svg><text>\"</text><path d=\"a , b\"/></svg>".toList = .ok root ∧
      root.node.allComments (fun _ => false) = true ∧
      root.node.allAttributes (isPlainName ·.name) = true ∧
      (convert Tools.session "<svg><text>\"</text><path d=\"a , b\"/></svg>" "Icon"
          { minify := true } = do
        Tools.session.note ⟨.debug, .conversion, "Converted Icon (0 warning(s))"⟩
        return .ok { componentName := "Icon", source := some final }) ∧
      parse final.toList = .ok back ∧
      ¬back.outline.Alike (fun a b => a = collapse b) (fun _ _ => True)
        (withSpread (adapt root false) { minify := true }).outline := by
  obtain ⟨root, hp, hall⟩ := exists_parse_of_any
    (s := "<svg><text>\"</text><path d=\"a , b\"/></svg>".toList)
    (p := fun root => root.node.allComments (fun _ => false) &&
      root.node.allAttributes (isPlainName ·.name) &&
      !keepsValues (sourceText (adapt root false) "Icon".toList { minify := true }))
    (by decide +kernel)
  simp only [Bool.and_eq_true, Bool.not_eq_true'] at hall
  obtain ⟨⟨hc, hn⟩, hshifted⟩ := hall
  obtain ⟨hroot, hs, hplain, hfree⟩ := adapt_of_parse hp hc hn false
  obtain ⟨back, hb, -, hv⟩ := exists_parse_minify (o := { minify := true }) hroot hs hplain hfree
    (show isPlainName "Icon".toList = true by decide) (by simp)
  refine ⟨root, _, back, hp, hc, hn, convert_minified Tools.session "Icon" rfl rfl hp,
    by rwa [String.toList_ofList], fun h => ?_⟩
  rw [hv.1 h] at hshifted
  cases hshifted

end SvgComponent
