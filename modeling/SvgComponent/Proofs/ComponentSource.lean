import SvgComponent.Conversion
import SvgComponent.Proofs.RoundTrip
import SvgComponent.Proofs.TreePasses

/-!
# The source of a component

A tree that was read stays sound when it is adapted to JSX (`isSound_adapt`). The source generated for
it is the JSX of the tree between two texts that depend on the name and the options only
(`generate_eq`), and reading the whole source is reading that JSX: the text in front has no start tag
of a root (`outlineAfter_sourceHead`). So the tree can be read back from the source, with the part
that passes properties on as one more attribute of the root (`parse_sourceText`). A conversion without
the optimizer ends with what finishing makes of that source (`convert_of_finish`).
-/

namespace SvgComponent.Jsx

open Text Markup

/-! ## Adapting keeps trees sound -/

theorem areProper_mapAttributesIn {f : List Attribute → List Attribute}
    (hf : ∀ as, properAttributes as = true → properAttributes (f as) = true) :
    ∀ {ns : List Node}, Node.areProper ns = true → Node.areProper (Node.mapAttributesIn f ns) = true
  | [], _ => rfl
  | .element tag attributes children :: ns, h => by
    simp only [Node.areProper, Node.isProper, Bool.and_eq_true] at h
    obtain ⟨⟨⟨⟨ht, ha⟩, hv⟩, hc⟩, hns⟩ := h
    have hv' : (!isVoid tag || (Node.mapAttributesIn f children).isEmpty) = true := by
      cases children with
      | nil => simp [Node.mapAttributesIn]
      | cons n ns =>
        have hvoid : isVoid tag = false := by simpa using hv
        simp [hvoid]
    simp only [Node.mapAttributesIn, Node.mapAttributes, Node.areProper, Node.isProper, ht, hf _ ha,
      hv', areProper_mapAttributesIn hf hc, areProper_mapAttributesIn hf hns, Bool.and_self]
  | .comment body :: ns, h => by
    simp only [Node.mapAttributesIn, Node.mapAttributes, Node.areProper, Bool.and_eq_true] at h ⊢
    exact ⟨h.1, areProper_mapAttributesIn hf h.2⟩
  | .text s :: ns, h => by
    simp only [Node.mapAttributesIn, Node.mapAttributes, Node.areProper, Bool.and_eq_true] at h ⊢
    exact ⟨h.1, areProper_mapAttributesIn hf h.2⟩

theorem allAttributesOf_mapAttributesIn {f : List Attribute → List Attribute} {p : Attribute → Bool}
    (hf : ∀ as, as.all p = true → (f as).all p = true) :
    ∀ {ns : List Node}, Node.allAttributesOf p ns = true →
      Node.allAttributesOf p (Node.mapAttributesIn f ns) = true
  | [], _ => rfl
  | .element tag attributes children :: ns, h => by
    simp only [Node.allAttributesOf, Node.allAttributes, Bool.and_eq_true] at h
    simp only [Node.mapAttributesIn, Node.mapAttributes, Node.allAttributesOf, Node.allAttributes,
      hf _ h.1.1, allAttributesOf_mapAttributesIn hf h.1.2, allAttributesOf_mapAttributesIn hf h.2,
      Bool.and_self]
  | .comment body :: ns, h => by
    simp only [Node.mapAttributesIn, Node.mapAttributes, Node.allAttributesOf, Bool.and_eq_true] at h ⊢
    exact ⟨h.1, allAttributesOf_mapAttributesIn hf h.2⟩
  | .text s :: ns, h => by
    simp only [Node.mapAttributesIn, Node.mapAttributes, Node.allAttributesOf, Bool.and_eq_true] at h ⊢
    exact ⟨h.1, allAttributesOf_mapAttributesIn hf h.2⟩

theorem allCommentsOf_mapAttributesIn (f : List Attribute → List Attribute) (p : List Char → Bool) :
    ∀ ns : List Node, Node.allCommentsOf p (Node.mapAttributesIn f ns) = Node.allCommentsOf p ns
  | [] => rfl
  | .element tag attributes children :: ns => by
    simp only [Node.mapAttributesIn, Node.mapAttributes, Node.allCommentsOf, Node.allComments,
      allCommentsOf_mapAttributesIn f p children, allCommentsOf_mapAttributesIn f p ns]
  | .comment body :: ns => by
    simp only [Node.mapAttributesIn, Node.mapAttributes, Node.allCommentsOf,
      allCommentsOf_mapAttributesIn f p ns]
  | .text s :: ns => by
    simp only [Node.mapAttributesIn, Node.mapAttributes, Node.allCommentsOf,
      allCommentsOf_mapAttributesIn f p ns]

/-- What holds of a name, and of all spellings in the vocabulary, holds of its JSX spelling. -/
theorem jsxName_rec {p : List Char → Bool} (hclass : p "className".toList = true)
    (htable : ∀ e ∈ spellings, p e.2.toList = true) {name : List Char} (h : p name = true) :
    p (jsxName name) = true := by
  rw [jsxName]
  split
  · exact hclass
  split
  · rename_i e _ hfind
    exact htable _ (List.mem_of_find?_eq_some hfind)
  · exact h

theorem all_isNameChar_spellings :
    ∀ e ∈ spellings, e.2.toList ≠ [] ∧ e.2.toList.all isNameChar = true := by
  decide +kernel

theorem isAttributeName_jsxName {name : List Char} (h : isAttributeName name = true) :
    isAttributeName (jsxName name) = true := by
  refine jsxName_rec (p := isAttributeName) (by decide +kernel) (fun e he => ?_) h
  obtain ⟨hne, hall⟩ := all_isNameChar_spellings e he
  exact isAttributeName_of_isNameChar hne hall

theorem distinctNames_firsts (as : List Attribute) : distinctNames (firsts as) = true := by
  have hfold : ∀ acc, distinctNames acc = true →
      distinctNames (as.foldl addAttribute acc) = true := by
    induction as with
    | nil => exact fun _ h => h
    | cons a as ih => exact fun acc h => ih _ (distinctNames_addAttribute a h)
  exact hfold [] (by decide)

theorem all_firsts {p : Attribute → Bool} {as : List Attribute} (h : as.all p = true) :
    (firsts as).all p = true := by
  have hfold : ∀ acc, acc.all p = true → (as.foldl addAttribute acc).all p = true := by
    induction as with
    | nil => exact fun _ h => h
    | cons a as ih =>
      simp only [List.all_cons, Bool.and_eq_true] at h
      exact fun acc hacc => ih h.2 _ (all_addAttribute hacc h.1)
  exact hfold [] rfl

theorem renameAttributes_eq_firsts (as : List Attribute) :
    renameAttributes as = firsts (as.map fun a => ⟨jsxName a.name, a.value⟩) := by
  rw [renameAttributes, firsts, List.foldl_map]

/-- A check on attributes that passes also under the JSX name passes on all that is left. -/
theorem all_renameAttributes {p : Attribute → Bool}
    (hp : ∀ a : Attribute, p a = true → p ⟨jsxName a.name, a.value⟩ = true) (as : List Attribute)
    (h : as.all p = true) : (renameAttributes as).all p = true := by
  rw [renameAttributes_eq_firsts]
  refine all_firsts ?_
  rw [List.all_map, List.all_eq_true]
  exact fun a ha => hp a (List.all_eq_true.1 h a ha)

theorem all_dropId {p : Attribute → Bool} (as : List Attribute) (h : as.all p = true) :
    (dropId as).all p = true := by
  rw [List.all_eq_true] at h ⊢
  exact fun a ha => h a (List.mem_of_mem_filter ha)

theorem properAttributes_renameAttributes {as : List Attribute} (h : properAttributes as = true) :
    properAttributes (renameAttributes as) = true := by
  have hn := all_renameAttributes (p := fun a => isAttributeName a.name)
    (fun a => isAttributeName_jsxName) as
  simp only [properAttributes, Bool.and_eq_true] at h ⊢
  refine ⟨hn h.1, ?_⟩
  rw [renameAttributes_eq_firsts]
  exact distinctNames_firsts _

theorem properAttributes_dropId {as : List Attribute} (h : properAttributes as = true) :
    properAttributes (dropId as) = true := by
  simp only [properAttributes, distinctNames, Bool.and_eq_true, decide_eq_true_eq] at h ⊢
  refine ⟨all_dropId as h.1, ?_⟩
  exact h.2.sublist (List.filter_sublist.map Attribute.name)

/-- Changing attribute lists, but no proper one into another, keeps a tree sound. -/
theorem isSound_mapAttributes {f : List Attribute → List Attribute} {e : Element}
    (hf : ∀ as, properAttributes as = true → properAttributes (f as) = true)
    (hq : ∀ as, as.all (isQuotable ·.value) = true → (f as).all (isQuotable ·.value) = true)
    (h : e.node.isSound = true) : (e.mapAttributes f).node.isSound = true := by
  simp only [Node.isSound, Bool.and_eq_true] at h ⊢
  have hp : Node.areProper [e.node] = true := by simp [Node.areProper, h.1]
  have ha : Node.allAttributesOf (isQuotable ·.value) [e.node] = true := by
    simp [Node.allAttributesOf, h.2]
  have hp' := areProper_mapAttributesIn hf hp
  have ha' := allAttributesOf_mapAttributesIn hq ha
  simp only [Node.mapAttributesIn, Node.areProper, Node.allAttributesOf, Bool.and_true] at hp' ha'
  exact ⟨hp', ha'⟩

/-- **A sound tree is sound when it is adapted.** -/
theorem isSound_adapt {root : Element} (withoutIds : Bool) (h : root.node.isSound = true) :
    (adapt root withoutIds).node.isSound = true := by
  have hr : (root.mapAttributes renameAttributes).node.isSound = true :=
    isSound_mapAttributes (fun _ => properAttributes_renameAttributes)
      (all_renameAttributes fun _ ha => ha) h
  rw [adapt_eq]
  split
  · exact isSound_mapAttributes (fun _ => properAttributes_dropId) all_dropId hr
  · exact hr

@[simp] theorem adapt_tag (root : Element) (withoutIds : Bool) :
    (adapt root withoutIds).tag = root.tag := by
  rw [adapt_eq]
  split <;> rfl

theorem allComments_adapt (p : List Char → Bool) (root : Element) (withoutIds : Bool) :
    (adapt root withoutIds).node.allComments p = root.node.allComments p := by
  rw [adapt_eq]
  split
  · exact (allCommentsOf_mapAttributesIn _ p _).trans (allCommentsOf_mapAttributesIn _ p _)
  · exact allCommentsOf_mapAttributesIn _ p _

/-- What holds of all attributes, whatever their spelling, holds in the adapted tree. -/
theorem allAttributes_adapt {p : Attribute → Bool}
    (hp : ∀ a : Attribute, p a = true → p ⟨jsxName a.name, a.value⟩ = true) {root : Element}
    (withoutIds : Bool) (h : root.node.allAttributes p = true) :
    (adapt root withoutIds).node.allAttributes p = true := by
  have hnodes : Node.allAttributesOf p [root.node] = true := by simp [Node.allAttributesOf, h]
  have hrename := allAttributesOf_mapAttributesIn (all_renameAttributes hp) hnodes
  have hstrip := allAttributesOf_mapAttributesIn (all_dropId (p := p)) hrename
  simp only [Node.mapAttributesIn, Node.allAttributesOf, Bool.and_true] at hrename hstrip
  rw [adapt_eq]
  split
  · exact hstrip
  · exact hrename

end SvgComponent.Jsx

namespace SvgComponent.Component

open Text Markup Jsx Settings

/-! ## The text around the tree -/

/-- The parts that are added to the root's start tag. -/
def spread (o : Options) : List (List Char) := if o.passProps then [propsSpread] else []

/-- What stands before the function: the imports and the start of the export statement. -/
def sourceHead (name : List Char) (o : Options) : List Char :=
  (imports o).flatMap (· ++ "\n\n".toList) ++
    match o.exportStyle with
    | .default => "export default ".toList
    | .named => "const ".toList ++ name ++ " = ".toList
    | .const => "export const ".toList ++ exportName name o ++ " = ".toList

/-- The function up to its parameter. -/
def functionHead (o : Options) : List Char := if o.memo then "memo((".toList else ['(']

/-- What stands behind the parameter, up to the tree. -/
def bodyHead : List Char := ") => \x7b\n  return (\n    ".toList

/-- The end of the function. -/
def functionTail (o : Options) : List Char :=
  "\n  );\n\x7d".toList ++ if o.memo then [')'] else []

/-- What stands behind the function. -/
def sourceTail (name : List Char) (o : Options) : List Char :=
  match o.exportStyle with
  | .named =>
    ";\n\nexport \x7b ".toList ++
      (if exportName name o = name then name else name ++ " as ".toList ++ exportName name o) ++
      " \x7d;".toList
  | _ => [';']

/-- The JSX of a tree in the source. -/
def rootText (root : Element) (o : Options) : List Char :=
  elementText o.quotes 2 (spread o) root (block (childLines o.quotes 2 true root.children))

theorem joinLines_around (a b c d : List Char) (ls : List (List Char)) :
    joinLines ([a, b] ++ ls ++ [c, d]) = a ++ '\n' :: b ++ block ls ++ '\n' :: c ++ '\n' :: d := by
  rw [List.append_assoc, List.cons_append, joinLines_cons]
  simp [block]

theorem function_eq (root : Element) (o : Options) :
    function root o =
      functionHead o ++ parameter o ++ bodyHead ++ rootText root o ++ functionTail o := by
  have hlines : block (lines o.quotes 2 (if o.passProps then [propsSpread] else []) root) =
      '\n' :: indentation 2 ++ rootText root o := by
    rw [lines_eq_framed, block_framed]
    rfl
  rw [function, joinLines_around, hlines]
  unfold functionHead functionTail bodyHead
  cases o.memo <;> simp [indentation, indentUnit]

theorem imports_eq (o : Options) : imports o = [] ∨ ∃ line, imports o = [line] := by
  rw [imports]
  split
  · exact .inl rfl
  · cases o.typescript <;> cases o.memo <;> simp

/-- The source of a component: the JSX of the tree between texts that do not depend on it. -/
def sourceText (root : Element) (name : List Char) (o : Options) : List Char :=
  sourceHead name o ++ functionHead o ++ parameter o ++ bodyHead ++ rootText root o ++
    (functionTail o ++ sourceTail name o)

/-- **What is generated** for a tree that has the root of a component. -/
theorem generate_eq {root : Element} (hroot : root.tag = rootTag) (name : List Char) (o : Options) :
    generate root name o = .ok (sourceText root name o) := by
  have hexported : ∀ code, exported name code o =
      (match o.exportStyle with
        | .default => "export default ".toList
        | .named => "const ".toList ++ name ++ " = ".toList
        | .const => "export const ".toList ++ exportName name o ++ " = ".toList) ++ code ++
        sourceTail name o := by
    intro code
    rw [exported, sourceTail]
    cases o.exportStyle <;> simp
  rw [generate, if_pos hroot]
  simp only [hexported, function_eq, sourceText, sourceHead]
  rcases imports_eq o with h | ⟨line, h⟩
  · simp [h]
  · simp [h, joinLines_cons]

/-! ## Reading the source -/

theorem not_mem_exportName {c : Char} {name : List Char} {o : Options} (hname : c ∉ name)
    (hexport : ∀ e, o.exportName = some e → c ∉ e.toList) : c ∉ exportName name o := by
  rw [exportName]
  split
  · exact hname
  · rename_i e he
    split
    · exact hname
    · exact hexport e he

theorem not_mem_sourceHead {name : List Char} {o : Options} (hname : '<' ∉ name)
    (hexport : '<' ∉ exportName name o) : '<' ∉ sourceHead name o := by
  have himports : '<' ∉ (imports o).flatMap (· ++ "\n\n".toList) := by
    rw [imports]
    cases o.omitImports <;> cases o.typescript <;> cases o.memo <;> cases o.quotes <;> decide
  rw [sourceHead, List.mem_append, not_or]
  refine ⟨himports, ?_⟩
  cases o.exportStyle <;> simp [hname, hexport]

/-- No element is opened by what stands before the tree. -/
theorem outlineAfter_sourceHead {name : List Char} {o : Options} (hname : '<' ∉ name)
    (hexport : '<' ∉ exportName name o) (s : List Char) :
    outlineAfter [] (sourceHead name o ++ functionHead o ++ parameter o ++ bodyHead ++ s) =
      outlineAfter [] s := by
  have hhead := not_mem_sourceHead hname hexport
  have hfunction : '<' ∉ functionHead o := by
    unfold functionHead
    cases o.memo <;> decide
  have hbody : '<' ∉ bodyHead := by decide
  rw [outlineAfter, outlineAfter]
  congr 1
  unfold parameter
  split
  · -- the type of the parameter is in angle brackets, which read as a start tag
    have hprops : "props: React.SVGProps<SVGSVGElement>".toList =
        "props: React.SVGProps".toList ++ ('<' :: "SVGSVGElement".toList ++ ['>']) := by decide
    have hbefore : '<' ∉ sourceHead name o ++ functionHead o ++ "props: React.SVGProps".toList := by
      simp [hhead, hfunction]
    have hskip := run_skip_text hbefore ('<' :: "SVGSVGElement".toList ++ '>' :: (bodyHead ++ s))
    rw [run_skip_tag (by decide +kernel) (by decide), run_skip_text hbody] at hskip
    rw [hprops]
    simpa using hskip
  · have hbefore : '<' ∉ sourceHead name o ++ functionHead o ++ "props".toList ++ bodyHead := by
      simp [hhead, hfunction, hbody]
    exact run_skip_text hbefore s

/-- The root of the tree that is read back from the source. -/
def withSpread (root : Element) (o : Options) : Element :=
  if o.passProps then { root with attributes := addAttribute root.attributes ⟨propsSpread, []⟩ }
  else root

theorem attributes_withSpread {root : Element} (hd : distinctNames root.attributes = true)
    (o : Options) :
    { root with attributes := firsts (root.attributes ++ bareAttributes (spread o)) } =
      withSpread root o := by
  unfold spread withSpread
  split
  · rw [show bareAttributes [propsSpread] = [⟨propsSpread, []⟩] from rfl, firsts_append_singleton,
      firsts_of_distinct hd]
  · rw [show bareAttributes [] = [] from rfl, List.append_nil, firsts_of_distinct hd]

/-- **The tree can be read back from the source.** Its elements, tags, attributes and values are the
same, with the part that passes properties on as one more attribute of the root, and its text shows the
same text. -/
theorem parse_sourceText {root : Element} {name : List Char} {o : Options} (hroot : root.tag = rootTag)
    (hs : root.node.isSound = true) (hc : root.node.allComments (fun _ => false) = true)
    (hname : '<' ∉ name) (hexport : ∀ e, o.exportName = some e → '<' ∉ e.toList) :
    ∃ back, parse (sourceText root name o) = .ok back ∧
      back.Alike Eq Shows (withSpread root o) := by
  have hspread : ∀ x ∈ spread o, isAttributeName x = true := by
    unfold spread
    split
    · simpa using show isAttributeName propsSpread = true by decide +kernel
    · simp
  have hlt : root.node.allComments (!·.contains '<') = true := allCommentsOf_mono (by simp) hc
  have hread := outlineAfter_root o.quotes 2 hroot hs hlt hspread (functionTail o ++ sourceTail name o)
  rw [← outlineAfter_sourceHead hname (not_mem_exportName hname hexport)] at hread
  obtain ⟨back, hb, ho⟩ := exists_parse_of_outlineAfter hread
  refine ⟨back, ?_, ?_⟩
  · rw [← hb, sourceText, rootText]
    simp only [List.append_assoc]
  · have halike := alike_rereadRoot (fun level _ => shows_rereadContent level) 2 (spread o) hc
    simp only [Element.node, isSound_element, properAttributes_iff] at hs
    rw [attributes_withSpread hs.2.1.2] at halike
    rw [Element.Alike, ho]
    exact halike

/-! ## The edges of the source -/

theorem clear_sourceText (root : Element) (name : List Char) (o : Options) :
    Clear isBlank (sourceText root name o) := by
  have hhead : ∃ c t, sourceHead name o = c :: t ∧ isBlank c = false := by
    unfold sourceHead imports
    cases o.omitImports <;> cases o.typescript <;> cases o.memo <;> cases o.exportStyle <;>
      exact ⟨_, _, rfl, by decide⟩
  obtain ⟨c, t, h, hc⟩ := hhead
  unfold sourceText
  rw [h]
  simpa using hc

theorem getLast?_sourceText (root : Element) (name : List Char) (o : Options) :
    (sourceText root name o).getLast? = some ';' := by
  have htail : (sourceTail name o).getLast? = some ';' := by
    unfold sourceTail
    split
    · rw [List.getLast?_append]
      rfl
    · rfl
  unfold sourceText
  rw [List.getLast?_append, List.getLast?_append, htail]
  rfl

end SvgComponent.Component

namespace SvgComponent

open Text Markup Jsx Settings Component Tool

/-! ## The conversion of a document -/

/-- A blank text has no tree. -/
theorem isBlankText_of_parse {s : List Char} {root : Element} (h : parse s = .ok root) :
    isBlankText s = false := by
  cases hb : isBlankText s with
  | false => rfl
  | true =>
    have hlt : '<' ∉ s := fun hm => by
      have := isBlankText_iff.1 hb _ hm
      cases this
    have hskip := run_skip_text hlt []
    rw [List.append_nil] at hskip
    rw [parse_eq_build, build, hskip] at h
    simp [Builder.run] at h

variable {m : Type → Type} [Monad m]

/-- The end of a conversion that has nothing to warn of. -/
def conclude (tools : Tools m) (name : String) : Except Crash String → m (Except Crash Result)
  | .error c => pure (.error c)
  | .ok final => do
    tools.note ⟨.debug, .conversion, "Converted " ++ name ++ " (0 warning(s))"⟩
    return .ok { componentName := name, source := some final }

/-- **A conversion that does not optimize** ends with what finishing makes of the source. -/
theorem convert_of_finish [LawfulMonad m] (tools : Tools m) {svg : String} (name : String) {o : Options}
    {root : Element} (ho : o.optimizeSvg = false) (hp : parse svg.toList = .ok root)
    {outcome : Except Crash String}
    (hf : finish tools o (String.ofList (sourceText (adapt root o.removeIds) name.toList o)) =
      pure ⟨[], outcome⟩) :
    convert tools svg name o = conclude tools name outcome := by
  have hroot : (adapt root o.removeIds).tag = rootTag := by
    rw [adapt_tag]
    exact (parse_sound hp).1
  have hsource : sourceOf svg name o false =
      .ok (String.ofList (sourceText (adapt root o.removeIds) name.toList o)) := by
    simp [sourceOf, hp, generate_eq hroot]
  have hprepare : prepare tools o svg = pure ⟨[], .ok (svg, false)⟩ := by simp [prepare, ho]
  have hcount : " (" ++ (Nat.repr 0 ++ " warning(s))") = " (0 warning(s))" := by decide +kernel
  simp only [convert, isBlankText_of_parse hp, hprepare, pure_bind, hsource, hf]
  cases outcome with
  | error c => rfl
  | ok final => simp [conclude, String.append_assoc, hcount]

end SvgComponent
