import SvgComponent.Proofs.CarriageReturns
import SvgComponent.Proofs.ComponentSource
import SvgComponent.Proofs.MappedTexts

/-!
# Conversion does not depend on how lines end

Markup whose lines end in a carriage return and a line feed is read as the tree of the same markup with
line feeds alone, the carriage returns being in its texts (`parse_respacing`). Character data is written
without them. In values and comments they are written where they stand, so the source differs by carriage
returns in front of line feeds (`carried_sourceText`), which neither indenting nor minifying keeps. So the
conversion is the same (`convertToText_crlf`).
-/

namespace SvgComponent.Text

open Source

/-! ## Line ends -/

/-- A carriage return in front of every line feed. -/
def withReturns (s : List Char) : List Char := s.flatMap fun c => if c = '\n' then ['\r', '\n'] else [c]

/-- Every carriage return made a space. -/
def withoutReturns (s : List Char) : List Char := s.flatMap fun c => if c = '\r' then [' '] else [c]

theorem respacing_withReturns : Respacing withReturns :=
  .replace (by decide) (by simp) (forall_mem_of_all (by decide))

theorem respacing_withoutReturns : Respacing withoutReturns :=
  .replace (by decide) (by simp) (forall_mem_of_all (by decide))

theorem not_mem_withoutReturns (s : List Char) : '\r' ∉ withoutReturns s := by
  intro h
  obtain ⟨c, -, hc⟩ := List.mem_flatMap.1 h
  split at hc
  · simp at hc
  · rename_i hne
    exact hne (List.mem_singleton.1 hc).symm

theorem withoutReturns_eq_self {s : List Char} (h : '\r' ∉ s) : withoutReturns s = s := by
  induction s with
  | nil => rfl
  | cons c s ih =>
    simp only [List.mem_cons, not_or] at h
    have hs := ih h.2
    rw [withoutReturns] at hs ⊢
    rw [List.flatMap_cons, if_neg (Ne.symm h.1), hs, List.singleton_append]

theorem carried_withReturns {s : List Char} (h : '\r' ∉ s) : Carried false s (withReturns s) := by
  induction s with
  | nil => exact .nil
  | cons c s ih =>
    simp only [List.mem_cons, not_or] at h
    rw [withReturns, List.flatMap_cons]
    split
    · rename_i hc
      subst hc
      exact .feed (ih h.2)
    · refine .cons c ?_
      rw [show (c == '\r') = false by simpa using Ne.symm h.1]
      exact ih h.2

theorem withReturns_cons {c : Char} (hc : c ≠ '\n') (s : List Char) :
    withReturns (c :: s) = c :: withReturns s := by
  rw [withReturns, List.flatMap_cons, if_neg hc, List.singleton_append, withReturns]

theorem withReturns_feed (s : List Char) : withReturns ('\n' :: s) = '\r' :: '\n' :: withReturns s := rfl

theorem withReturns_append (s t : List Char) : withReturns (s ++ t) = withReturns s ++ withReturns t :=
  List.flatMap_append

theorem stripEnd_withReturns (s : List Char) : stripEnd (withReturns s) = withReturns (stripEnd s) := by
  induction s with
  | nil => rfl
  | cons c s ih =>
    have hempty : (stripEnd (withReturns s)).isEmpty = (stripEnd s).isEmpty := by
      rw [ih, Bool.eq_iff_iff, List.isEmpty_iff, List.isEmpty_iff, respacing_withReturns.eq_nil]
    by_cases hc : c = '\n'
    · subst hc
      rw [withReturns_feed, stripEnd_cons, stripEnd_cons, stripEnd_cons, hempty, ih]
      cases (stripEnd s).isEmpty <;> rfl
    · rw [withReturns_cons hc, stripEnd_cons, stripEnd_cons, hempty, ih]
      split
      · rfl
      · rw [withReturns_cons hc]

theorem strip_withReturns (s : List Char) : strip (withReturns s) = withReturns (strip s) := by
  rw [strip, strip, stripStart, stripStart, respacing_withReturns.dropBlanks, stripEnd_withReturns]

end SvgComponent.Text

namespace SvgComponent.Jsx

open Text Markup Source

/-! ## Texts -/

theorem guardClose_withReturns (s : List Char) : guardClose (withReturns s) = withReturns (guardClose s) := by
  induction s with
  | nil => rfl
  | cons c s ih =>
    by_cases hc : c = '\n'
    · subst hc
      rw [withReturns_feed, guardClose, guardClose, guardClose]
      simp [ih, withReturns_feed]
    · have hslash := respacing_withReturns.head? (show isBlank '/' = false by decide) s
      rw [withReturns_cons hc, guardClose, guardClose, ih]
      by_cases hclose : c = '*' ∧ s.head? = some '/'
      · rw [if_pos hclose, if_pos ⟨hclose.1, hslash.2 hclose.2⟩, withReturns_cons (by decide),
          withReturns_cons (by decide)]
      · rw [if_neg hclose, if_neg fun h => hclose ⟨h.1, hslash.1 h.2⟩, withReturns_cons hc]

theorem carried_formatComment {body : List Char} (h : '\r' ∉ body) :
    Carried true (formatComment body) (formatComment (withReturns body)) := by
  have hbody : '\r' ∉ guardClose (strip body) := by
    intro hm
    rcases mem_guardClose hm with hm | hm
    · cases hm
    · exact h (mem_of_mem_strip hm)
  rw [formatComment, formatComment, strip_withReturns, guardClose_withReturns]
  generalize guardClose (strip body) = content at hbody ⊢
  cases content with
  | nil => exact .refl _ _
  | cons c content =>
    have hcarried := carried_withReturns hbody
    obtain ⟨d, rest, hd⟩ := List.exists_cons_of_ne_nil
      (mt respacing_withReturns.eq_nil.1 (List.cons_ne_nil c content))
    rw [hd] at hcarried ⊢
    exact .cons _ (.cons _ (.cons _ (.cons _ (hcarried.append (.refl _ _)))))

theorem escapeText_withReturns (s : List Char) : escapeText (withReturns s) = escapeText s := by
  rw [escapeText, escapeText, spaced, spaced, respacing_withReturns.words]

theorem getLast?_withReturns (s : List Char) : (withReturns s).getLast? = s.getLast? := by
  rcases List.eq_nil_or_concat s with rfl | ⟨a, c, rfl⟩
  · rfl
  · have hlast : (withReturns [c]).getLast? = some c := by
      by_cases hc : c = '\n'
      · subst hc
        rfl
      · rw [withReturns_cons hc]
        rfl
    rw [List.concat_eq_append, withReturns_append, List.getLast?_append, hlast,
      List.getLast?_append]
    rfl

theorem mixedText_withReturns (first last : Bool) (s : List Char) :
    mixedText first last (withReturns s) = mixedText first last s := by
  have hfeed : (withReturns s).contains '\n' = s.contains '\n' := by
    rw [Bool.eq_iff_iff, List.contains_iff_mem, List.contains_iff_mem]
    constructor
    · intro h
      obtain ⟨c, hc, hm⟩ := List.mem_flatMap.1 h
      split at hm
      · rename_i hfeed
        exact hfeed ▸ hc
      · exact List.mem_singleton.1 hm ▸ hc
    · intro h
      exact List.mem_flatMap.2 ⟨'\n', h, by simp⟩
  have hhead : (withReturns s).head?.any isBlank = s.head?.any isBlank := by
    cases s with
    | nil => rfl
    | cons c s =>
      by_cases hc : c = '\n'
      · subst hc
        rfl
      · rw [withReturns_cons hc]
        rfl
  rw [mixedText, mixedText, respacing_withReturns.isBlankText, escapeText_withReturns, hfeed, hhead,
    getLast?_withReturns]

theorem carried_enclose (quote : Quote) {v w : List Char} (h : Carried false v w) :
    Carried true (quote.enclose v) (quote.enclose w) := by
  cases quote <;> exact .cons _ (h.append (.refl _ _))

theorem carried_quoteAttribute (quote : Quote) {value : List Char} (h : '\r' ∉ value) :
    Carried true (quoteAttribute quote value) (quoteAttribute quote (withReturns value)) := by
  have hmem : ∀ q : Quote, q.char ∈ withReturns value ↔ q.char ∈ value := by
    intro q
    exact respacing_withReturns.mem (by cases q <;> decide) value
  have hcommute : (withReturns value).flatMap (fun c => if c = quote.char then quote.entity else [c]) =
      withReturns (value.flatMap fun c => if c = quote.char then quote.entity else [c]) := by
    rw [withReturns, withReturns, List.flatMap_assoc, List.flatMap_assoc]
    congr 1
    funext c
    by_cases hc : c = '\n'
    · subst hc
      cases quote <;> rfl
    · by_cases hq : c = quote.char
      · subst hq
        cases quote <;> decide
      · simp [hc, hq]
  have hout : '\r' ∉ value.flatMap fun c => if c = quote.char then quote.entity else [c] := by
    intro hm
    obtain ⟨c, hc, hcr⟩ := List.mem_flatMap.1 hm
    split at hcr
    · revert hcr
      cases quote <;> decide
    · exact h (List.mem_singleton.1 hcr ▸ hc)
  simp only [quoteAttribute, hmem]
  split
  · exact carried_enclose quote (carried_withReturns h)
  split
  · exact carried_enclose quote.other (carried_withReturns h)
  · rw [hcommute]
    exact carried_enclose quote (carried_withReturns hout)

/-! ## Trees -/

section
variable (quote : Quote)

theorem carried_formatAttribute (a : Attribute) :
    Carried true (formatAttribute quote (a.mapValue withoutReturns))
      (formatAttribute quote ((a.mapValue withoutReturns).mapValue withReturns)) := by
  have hvalue := carried_quoteAttribute quote (not_mem_withoutReturns a.value)
  exact (Carried.refl true a.name).append (.cons '=' (hvalue.of_behind _))

theorem carried_startTag (extra : List (List Char)) (e : Element) :
    Carried true (startTag quote (e.mapTexts withoutReturns) extra)
      (startTag quote ((e.mapTexts withoutReturns).mapTexts withReturns) extra) := by
  refine (Carried.refl true ('<' :: e.tag)).append ?_
  simp only [Element.mapTexts]
  induction e.attributes with
  | nil => exact .refl _ _
  | cons a as ih => exact Carried.append (.cons ' ' ((carried_formatAttribute quote a).of_behind _)) ih

theorem all_isBlankNode_mapTexts {f : List Char → List Char} (hf : Respacing f) (ns : List Node) :
    (Node.mapTextsIn f ns).all isBlankNode = ns.all isBlankNode := by
  induction ns with
  | nil => rfl
  | cons n ns ih =>
    rw [Node.mapTextsIn, List.all_cons, List.all_cons, ih]
    cases n <;> simp [Node.mapTexts, isBlankNode, hf.isBlankText]

theorem all_isTextNode_mapTexts (f : List Char → List Char) (ns : List Node) :
    (Node.mapTextsIn f ns).all isTextNode = ns.all isTextNode := by
  induction ns with
  | nil => rfl
  | cons n ns ih =>
    rw [Node.mapTextsIn, List.all_cons, List.all_cons, ih]
    cases n <;> simp [Node.mapTexts, isTextNode]

theorem flatMap_textContent_withReturns (ns : List Node) :
    (Node.mapTextsIn withReturns ns).flatMap textContent = withReturns (ns.flatMap textContent) := by
  induction ns with
  | nil => rfl
  | cons n ns ih =>
    rw [Node.mapTextsIn, List.flatMap_cons, List.flatMap_cons, withReturns_append, ih]
    cases n <;> rfl

/-- An element, given that its children are so. -/
theorem carried_elementText (level : Int) (extra : List (List Char)) (e : Element)
    {inner inner' : List Char} (h : Carried true inner inner') :
    Carried true (elementText quote level extra (e.mapTexts withoutReturns) inner)
      (elementText quote level extra ((e.mapTexts withoutReturns).mapTexts withReturns) inner') := by
  unfold elementText
  refine (carried_startTag quote extra e).append ?_
  rw [show ((e.mapTexts withoutReturns).mapTexts withReturns).children =
      Node.mapTextsIn withReturns (e.mapTexts withoutReturns).children from rfl,
    all_isBlankNode_mapTexts respacing_withReturns, all_isTextNode_mapTexts,
    flatMap_textContent_withReturns, escapeText_withReturns]
  split
  · exact .refl _ _
  split
  · exact .refl _ _
  · exact .cons _ ((h.of_behind _).append (.refl _ _))

theorem isEmpty_mapTextsIn (f : List Char → List Char) (ns : List Node) :
    (Node.mapTextsIn f ns).isEmpty = ns.isEmpty := by
  cases ns <;> rfl

/-- **Children differ by carriage returns** in front of the line feeds in values and comments. -/
theorem carried_childLines (level : Int) (first : Bool) : ∀ ns : List Node,
    Carried true (block (childLines quote level first (Node.mapTextsIn withoutReturns ns)))
      (block (childLines quote level first
        (Node.mapTextsIn withReturns (Node.mapTextsIn withoutReturns ns))))
  | [] => .nil
  | .element tag attributes children :: ns => by
    have hchildren := carried_childLines (level + 1) true children
    have hns := carried_childLines level false ns
    have hself := carried_elementText quote (level + 1) [] ⟨tag, attributes, children⟩ hchildren
    simp only [Node.mapTextsIn, Node.mapTexts, childLines, nodeLines, block_append, block_framed]
    exact ((Carried.refl true ('\n' :: indentation (level + 1))).append hself).append hns
  | .comment body :: ns => by
    have hns := carried_childLines level false ns
    have hself := carried_formatComment (not_mem_withoutReturns body)
    simp only [Node.mapTextsIn, Node.mapTexts, childLines, nodeLines, block_append]
    refine Carried.append ?_ hns
    simp only [block, List.flatMap_cons, List.flatMap_nil, List.append_nil]
    exact .cons '\n' ((Carried.refl _ _).append hself)
  | .text s :: ns => by
    have hns := carried_childLines level false ns
    simp only [Node.mapTextsIn, Node.mapTexts, childLines, nodeLines, block_append,
      mixedText_withReturns, isEmpty_mapTextsIn]
    exact (Carried.refl true _).append hns

end

end SvgComponent.Jsx

namespace SvgComponent.Component

open Text Markup Jsx Settings Source

/-- **The source differs by carriage returns** in front of line feeds. -/
theorem carried_sourceText (root : Element) (name : List Char) (o : Options) :
    Carried true (sourceText (root.mapTexts withoutReturns) name o)
      (sourceText ((root.mapTexts withoutReturns).mapTexts withReturns) name o) := by
  have hroot : Carried true (rootText (root.mapTexts withoutReturns) o)
      (rootText ((root.mapTexts withoutReturns).mapTexts withReturns) o) :=
    carried_elementText o.quotes 2 (spread o) root (carried_childLines o.quotes 2 true root.children)
  exact ((Carried.refl true _).append hroot).append (.refl true _)

end SvgComponent.Component

namespace SvgComponent

open Text Markup Jsx Component Settings Source

/-! ## Conversion -/

/-- Either there is no source for the same reason, or the sources differ by carriage returns. -/
theorem sourceOf_withReturns {svg : String} (hsvg : '\r' ∉ svg.toList) (name : String) (o : Options)
    (optimized : Bool) :
    (∃ d, sourceOf svg name o optimized = .error d ∧
        sourceOf (String.ofList (withReturns svg.toList)) name o optimized = .error d) ∨
      ∃ s t, sourceOf svg name o optimized = .ok (String.ofList s) ∧
        sourceOf (String.ofList (withReturns svg.toList)) name o optimized = .ok (String.ofList t) ∧
        Carried true s t := by
  have hplain := parse_respacing respacing_withoutReturns svg.toList
  have hpairs := parse_respacing respacing_withReturns svg.toList
  rw [withoutReturns_eq_self hsvg] at hplain
  cases hp : parse svg.toList with
  | error e =>
    rw [hp] at hpairs
    refine .inl ⟨⟨.noSvgRoot, e.message⟩, ?_, ?_⟩
    · simp only [sourceOf, hp]
    · simp only [sourceOf, String.toList_ofList, hpairs, Except.map]
  | ok root =>
    rw [hp] at hpairs hplain
    have hroot : root = root.mapTexts withoutReturns := Except.ok.inj hplain
    have hadapted : adapt root (o.removeIds && !optimized) =
        (adapt root (o.removeIds && !optimized)).mapTexts withoutReturns := by
      rw [← adapt_mapTexts, ← hroot]
    have htag : (adapt root (o.removeIds && !optimized)).tag = rootTag := by
      rw [adapt_tag]
      exact (parse_sound hp).1
    have hcarried := carried_sourceText (adapt root (o.removeIds && !optimized)) name.toList o
    rw [← hadapted] at hcarried
    refine .inr ⟨_, _, ?_, ?_, hcarried⟩
    · simp only [sourceOf, hp, generate_eq htag]
    · have htag' : ((adapt root (o.removeIds && !optimized)).mapTexts withReturns).tag = rootTag := htag
      simp only [sourceOf, String.toList_ofList, hpairs, Except.map, adapt_mapTexts, generate_eq htag']

section
variable {m : Type → Type} [Monad m] (tools : Tools m)

theorem finish_carried {o : Options} (hf : o.useFormatter = false) {behind : Bool} {s t : List Char}
    (h : Carried behind s t) :
    finish tools o (String.ofList s) = finish tools o (String.ofList t) := by
  have hindent : indented o (String.ofList s) = indented o (String.ofList t) := by
    simp only [indented, indent, String.toList_ofList, h.indentWith_eq]
  simp only [finish, hf, Bool.false_eq_true, if_false, String.toList_ofList, h.minify_eq, hindent]

variable [LawfulMonad m]

theorem convert_withReturns {svg : String} (hsvg : '\r' ∉ svg.toList) (name : String) {o : Options}
    (ho : o.optimizeSvg = false) (hf : o.useFormatter = false) :
    convert tools (String.ofList (withReturns svg.toList)) name o = convert tools svg name o := by
  have hprepare : ∀ markup, prepare tools o markup = pure ⟨[], .ok (markup, false)⟩ := by
    intro markup
    simp only [prepare, ho, Bool.false_eq_true, if_false]
  have hblank : isBlankText (String.ofList (withReturns svg.toList)).toList = isBlankText svg.toList := by
    rw [String.toList_ofList, respacing_withReturns.isBlankText]
  simp only [convert, hblank, hprepare, pure_bind]
  rcases sourceOf_withReturns hsvg name o false with ⟨d, hs, ht⟩ | ⟨s, t, hs, ht, hcarried⟩
  · simp only [hs, ht]
  · simp only [hs, ht, finish_carried tools hf hcarried]

end

/-- **Line endings do not matter.** Markup whose lines end in a carriage return and a line feed is
converted to the same text, and with the same messages, as with line feeds alone. -/
theorem convertToText_crlf {m : Type → Type} [Monad m] [LawfulMonad m] (tools : Tools m) (svg : String)
    (hsvg : '\r' ∉ svg.toList) (name : String) (o : Options) (ho : o.optimizeSvg = false)
    (hf : o.useFormatter = false) :
    convertToText tools (String.ofList (withReturns svg.toList)) name o =
      convertToText tools svg name o := by
  rw [convertToText, convertToText, convert_withReturns tools hsvg name ho hf]

/-- Line breaks inside a start tag, a value, a comment and text, before a tag and behind one. -/
theorem convertToText_crlf_everywhere :
    '\r' ∉ "<svg\n a='1\n\n2'>\n<!-- x\n*/ y -->p \n q<g/> \n <b>\n</b></svg>".toList ∧
      convertToText Tools.session
          "<svg\r\n a='1\r\n\r\n2'>\r\n<!-- x\r\n*/ y -->p \r\n q<g/> \r\n <b>\r\n</b></svg>" "Icon"
          { minify := true } =
        convertToText Tools.session
          "<svg\n a='1\n\n2'>\n<!-- x\n*/ y -->p \n q<g/> \n <b>\n</b></svg>" "Icon" { minify := true } := by
  have hsvg : '\r' ∉ "<svg\n a='1\n\n2'>\n<!-- x\n*/ y -->p \n q<g/> \n <b>\n</b></svg>".toList := by
    decide +kernel
  have hpairs : String.ofList
      (withReturns "<svg\n a='1\n\n2'>\n<!-- x\n*/ y -->p \n q<g/> \n <b>\n</b></svg>".toList) =
      "<svg\r\n a='1\r\n\r\n2'>\r\n<!-- x\r\n*/ y -->p \r\n q<g/> \r\n <b>\r\n</b></svg>" := by
    decide +kernel
  have h := convertToText_crlf Tools.session _ hsvg "Icon" { minify := true } rfl rfl
  rw [hpairs] at h
  exact ⟨hsvg, h⟩

end SvgComponent
