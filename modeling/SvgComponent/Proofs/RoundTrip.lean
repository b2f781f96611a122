import SvgComponent.Proofs.Printing

/-!
# Reading back the JSX of a tree

The JSX of a tree that was read is markup again, and reading it gives the same elements, tags and
attributes, values included (`parse_lines`). Text is escaped and laid out anew; it is the same once
the escapes are undone (`decode`) and blanks are ignored (`squash`).

* `Spells a x`: `a` is `x` with some characters in containers, and so decodes to `x`.
* `Shows a t`: what `a` spells is `t` up to blanks.
* `allAlike_rereadNodes`: the elements that are read back are those that were written.
-/

namespace SvgComponent.Jsx

open Text Markup

/-! ## Undoing escapes -/

/-- The text with each container of one character replaced by that character, from left to right. -/
def decode : List Char → List Char
  | '\x7b' :: '"' :: c :: '"' :: '\x7d' :: s => c :: decode s
  | c :: s => c :: decode s
  | [] => []

/-- The text without its blanks. -/
def squash (s : List Char) : List Char := s.filter (!isBlank ·)

/-- `a` spells `x`: each character of `x` stands for itself or in a container of its own. An opening
brace has to be in a container, and a line break cannot be. -/
inductive Spells : List Char → List Char → Prop
  | nil : Spells [] []
  | char {c : Char} {a x : List Char} : c ≠ '\x7b' → Spells a x → Spells (c :: a) (c :: x)
  | contained {c : Char} {a x : List Char} : isBreak c = false → Spells a x →
      Spells ('\x7b' :: '"' :: c :: '"' :: '\x7d' :: a) (c :: x)

theorem decode_cons {c : Char} (hc : c ≠ '\x7b') (s : List Char) :
    decode (c :: s) = c :: decode s := by
  rw [decode]
  rintro d t rfl
  exact absurd rfl hc

/-- Undoing the escapes gives what was spelled. -/
theorem Spells.decode_eq {a x : List Char} (h : Spells a x) : decode a = x := by
  induction h with
  | nil => rfl
  | char hc _ ih => rw [decode_cons hc, ih]
  | contained _ _ ih => rw [decode, ih]

theorem Spells.append {a b x y : List Char} (ha : Spells a x) (hb : Spells b y) :
    Spells (a ++ b) (x ++ y) := by
  induction ha with
  | nil => exact hb
  | char hc _ ih => exact .char hc ih
  | contained hc _ ih => exact .contained hc ih

theorem spells_container {c : Char} (hc : isBreak c = false) : Spells (container c) [c] :=
  .contained hc .nil

theorem spells_of_not_mem {s : List Char} (h : '\x7b' ∉ s) : Spells s s := by
  induction s with
  | nil => exact .nil
  | cons c s ih =>
    simp only [List.mem_cons, not_or] at h
    exact .char (Ne.symm h.1) (ih h.2)

theorem spells_containSpecial (s : List Char) : Spells (containSpecial s) s := by
  induction s with
  | nil => exact .nil
  | cons c s ih =>
    have hc : Spells (if isSpecial c then container c else [c]) [c] := by
      split
      · rename_i h
        refine spells_container ?_
        simp only [isSpecial, Bool.or_eq_true, beq_iff_eq] at h
        rcases h with ((rfl | rfl) | rfl) | rfl <;> decide
      · rename_i h
        exact .char (fun e => h (by rw [e]; rfl)) .nil
    rw [containSpecial, List.flatMap_cons]
    exact hc.append ih

/-! ## Blanks -/

@[simp] theorem squash_append (s t : List Char) : squash (s ++ t) = squash s ++ squash t := by
  simp [squash]

theorem squash_eq_nil {s : List Char} : squash s = [] ↔ ∀ c ∈ s, isBlank c = true := by
  simp [squash]

theorem flatten_runs (p : Char → Bool) (s : List Char) : (runs p s).flatten = s.filter p := by
  induction s with
  | nil => rfl
  | cons c s ih =>
    simp only [runs, List.foldr_cons] at ih ⊢
    generalize s.foldr (runs.push p) (false, []) = state at ih ⊢
    obtain ⟨joined, rs⟩ := state
    simp only [runs.push]
    by_cases hc : p c = true
    · match joined, rs with
      | true, r :: rs => simpa [hc] using ih
      | true, [] => simpa [hc] using ih
      | false, rs => simpa [hc] using ih
    · simpa [hc] using ih

theorem squash_words (s : List Char) : (words s).flatMap squash = squash s := by
  have h : squash (words s).flatten = squash s := by
    rw [words, flatten_runs]
    simp [squash]
  rw [← h, squash, List.filter_flatten, List.flatMap]
  rfl

/-- Putting words one space apart changes blanks only. -/
theorem squash_spaced (s : List Char) : squash (spaced s) = squash s := by
  rw [← squash_words s, spaced]
  cases words s with
  | nil => rfl
  | cons w ws =>
    rw [intercalate_cons, squash_append, List.flatMap_cons]
    congr 1
    induction ws with
    | nil => rfl
    | cons v ws ih => simpa [squash, isBlank] using ih

/-! ## What written text shows -/

/-- `a` spells `t`, up to blanks. -/
def Shows (a t : List Char) : Prop := ∃ x, Spells a x ∧ squash x = squash t

theorem Shows.eq {a t : List Char} (h : Shows a t) : squash (decode a) = squash t := by
  obtain ⟨x, hx, hs⟩ := h
  rw [hx.decode_eq, hs]

theorem Shows.append {a b t u : List Char} (ha : Shows a t) (hb : Shows b u) :
    Shows (a ++ b) (t ++ u) := by
  obtain ⟨x, hx, hs⟩ := ha
  obtain ⟨y, hy, ht⟩ := hb
  exact ⟨x ++ y, hx.append hy, by simp [hs, ht]⟩

theorem shows_blank {s : List Char} (h : ∀ c ∈ s, isBlank c = true) : Shows s [] := by
  refine ⟨s, spells_of_not_mem fun hm => absurd (h _ hm) (by decide), ?_⟩
  rw [squash_eq_nil.2 h]
  rfl

theorem shows_separator (b : Bool) : Shows (if b then container ' ' else []) [] := by
  split
  · exact ⟨[' '], spells_container (by decide), by decide⟩
  · exact ⟨[], .nil, rfl⟩

theorem shows_escapeText (s : List Char) : Shows (escapeText s) s :=
  ⟨spaced s, spells_containSpecial _, squash_spaced s⟩

theorem shows_mixedText (first last : Bool) (s : List Char) : Shows (mixedText first last s) s := by
  rw [mixedText]
  split
  · rename_i h
    obtain ⟨x, hx, hs⟩ := shows_separator (!first && !last && !s.contains '\n')
    exact ⟨x, hx, by rw [hs, squash_eq_nil.2 (isBlankText_iff.1 h)]; rfl⟩
  · have h := ((shows_separator (!first && s.head?.any isBlank)).append (shows_escapeText s)).append
      (shows_separator (!last && s.getLast?.any isBlank))
    simpa using h

theorem shows_indentation (level : Int) : Shows ('\n' :: indentation level) [] := by
  refine shows_blank fun c hc => ?_
  rcases List.mem_cons.1 hc with rfl | hc
  · decide
  · rw [mem_indentation hc]
    decide

theorem shows_line (level : Int) {content t : List Char} (h : Shows content t) :
    Shows ('\n' :: (indentation level ++ indentUnit ++ content)) t := by
  have hunit : Shows indentUnit [] := shows_blank (forall_mem_of_all (by decide))
  rw [← List.cons_append, ← List.cons_append]
  exact ((shows_indentation level).append hunit).append h

/-- Without comments, the text that is read back among children shows the text that was written. -/
theorem shows_rereadNodes (level : Int) (first : Bool) :
    ∀ {ns : List Node}, Node.allCommentsOf (fun _ => false) ns = true →
      Shows (directText (rereadNodes level first ns)) (directText ns)
  | [], _ => ⟨[], .nil, rfl⟩
  | .element tag attributes children :: ns, h => by
    simp only [Node.allCommentsOf, Bool.and_eq_true] at h
    have happ := (shows_indentation (level + 1)).append (shows_rereadNodes level false h.2)
    simpa [rereadNodes, rereadNode, directText] using happ
  | .comment body :: ns, h => by simp [Node.allCommentsOf, Node.allComments] at h
  | .text s :: ns, h => by
    simp only [Node.allCommentsOf, Bool.and_eq_true] at h
    have hs := shows_mixedText first ns.isEmpty s
    have hlater := shows_rereadNodes level false h.2
    rw [rereadNodes, rereadNode, directText_append, directText]
    refine Shows.append ?_ hlater
    cases hm : mixedText first ns.isEmpty s with
    | nil => rwa [hm] at hs
    | cons c content =>
      rw [hm] at hs
      simpa [directText] using shows_line level hs

theorem directText_eq_flatMap (ns : List Node) : ns.flatMap textContent = directText ns := by
  induction ns with
  | nil => rfl
  | cons n ns ih => cases n <;> simp [textContent, directText, ih]

theorem squash_blankNodes {ns : List Node} (h : ns.all isBlankNode = true) :
    squash (directText ns) = [] := by
  rw [← directText_eq_flatMap, squash_eq_nil]
  intro c hc
  obtain ⟨n, hn, hm⟩ := List.mem_flatMap.1 hc
  have hb := List.all_eq_true.1 h n hn
  cases n with
  | text s => exact isBlankText_iff.1 hb c hm
  | element | comment => cases hb

/-- **The text of an element is kept**, up to escapes and blanks. -/
theorem shows_rereadContent (level : Int) {children : List Node}
    (h : Node.allCommentsOf (fun _ => false) children = true) :
    Shows (directText (rereadContent level children (rereadNodes level true children)))
      (directText children) := by
  rw [rereadContent]
  split
  · rename_i hb
    exact ⟨[], .nil, (squash_blankNodes hb).symm⟩
  split
  · have hs := shows_escapeText (children.flatMap textContent)
    rw [directText_eq_flatMap] at hs ⊢
    simpa [directText] using hs
  · have hs := (shows_rereadNodes level true h).append (shows_indentation level)
    simpa [directText] using hs

/-! ## What is read back of the elements -/

theorem outlinesOf_textNodes {ns : List Node} (h : ns.all isTextNode = true) :
    Node.outlinesOf ns = [] := by
  induction ns with
  | nil => rfl
  | cons n ns ih =>
    simp only [List.all_cons, Bool.and_eq_true] at h
    cases n with
    | text s => exact ih h.2
    | element | comment => cases h.1

theorem isTextNode_of_isBlankNode {ns : List Node} (h : ns.all isBlankNode = true) :
    ns.all isTextNode = true := by
  rw [List.all_eq_true] at h ⊢
  intro n hn
  have hb := h n hn
  cases n with
  | text s => rfl
  | element | comment => cases hb

section
variable {text : List Char → List Char → Prop} {p : List Char → Bool}

/-- An element that is read back has the children it had, if they are read back so. -/
theorem allAlike_rereadContent {level : Int} {children : List Node}
    (h : Outline.AllAlike Eq text (Node.outlinesOf (rereadNodes level true children))
      (Node.outlinesOf children)) :
    Outline.AllAlike Eq text
      (Node.outlinesOf (rereadContent level children (rereadNodes level true children)))
      (Node.outlinesOf children) := by
  rw [rereadContent]
  split
  · rename_i hb
    rw [outlinesOf_textNodes (isTextNode_of_isBlankNode hb)]
    trivial
  split
  · rename_i hx
    rw [outlinesOf_textNodes hx]
    trivial
  · rw [outlinesOf_append]
    simpa [Node.outlinesOf, Node.outlines] using h

variable (ht : ∀ level children, Node.allCommentsOf p children = true →
  text (directText (rereadContent level children (rereadNodes level true children)))
    (directText children))
include ht

/-- **The elements that are read back are those that were written**, with the same attributes and
with text that is related. -/
theorem allAlike_rereadNodes (level : Int) (first : Bool) :
    ∀ {ns : List Node}, Node.allCommentsOf p ns = true →
      Outline.AllAlike Eq text (Node.outlinesOf (rereadNodes level first ns)) (Node.outlinesOf ns)
  | [], _ => trivial
  | .element tag attributes children :: ns, h => by
    simp only [Node.allCommentsOf, Bool.and_eq_true, Node.allComments] at h
    have hc := allAlike_rereadContent (allAlike_rereadNodes (level + 1) true h.1)
    exact ⟨⟨rfl, alikeAttributes_refl attributes, ht (level + 1) children h.1, hc⟩,
      allAlike_rereadNodes level false h.2⟩
  | .comment body :: ns, h => by
    simp only [Node.allCommentsOf, Bool.and_eq_true] at h
    exact allAlike_rereadNodes level false h.2
  | .text s :: ns, h => by
    simp only [Node.allCommentsOf, Bool.and_eq_true] at h
    have hn := allAlike_rereadNodes level false h.2
    rw [rereadNodes, rereadNode, outlinesOf_append]
    cases mixedText first ns.isEmpty s <;> exact hn

/-- The tree that is read back is the one that was written, with the extra parts of the root's start
tag as attributes. -/
theorem alike_rereadRoot (level : Int) (extra : List (List Char)) {e : Element}
    (h : e.node.allComments p = true) :
    (rereadRoot level extra e).Alike Eq text
      { e with attributes := firsts (e.attributes ++ bareAttributes extra) } :=
  ⟨rfl, alikeAttributes_refl _, ht level e.children h,
    allAlike_rereadContent (allAlike_rereadNodes ht level true h)⟩

end

/-! ## The round trip -/

theorem allCommentsOf_mono {p q : List Char → Bool} (hpq : ∀ s, p s = true → q s = true) :
    ∀ {ns : List Node}, Node.allCommentsOf p ns = true → Node.allCommentsOf q ns = true
  | [], _ => rfl
  | .element tag attributes children :: ns, h => by
    simp only [Node.allCommentsOf, Node.allComments, Bool.and_eq_true] at h ⊢
    exact ⟨allCommentsOf_mono hpq h.1, allCommentsOf_mono hpq h.2⟩
  | .comment body :: ns, h => by
    simp only [Node.allCommentsOf, Node.allComments, Bool.and_eq_true] at h ⊢
    exact ⟨hpq _ h.1, allCommentsOf_mono hpq h.2⟩
  | .text s :: ns, h => by
    simp only [Node.allCommentsOf, Node.allComments, Bool.true_and] at h ⊢
    exact allCommentsOf_mono hpq h

/-- **Reading the JSX of a tree that was read gives the tree again.** Elements, tags, attribute
names, their order and their values are the same, to the letter. If there are no comments then the text
right below each element is the same up to blanks, once the containers that the writer put into it are
undone; in `root` itself braces are text like any other. -/
theorem parse_lines {s : List Char} {root : Element} (h : parse s = .ok root)
    (hc : root.node.allComments (!·.contains '<') = true) (quote : Quote) :
    ∃ back, parse (joinLines (lines quote 0 [] root)) = .ok back ∧
      back.outline.Alike Eq (fun _ _ => True) root.outline ∧
      (root.node.allComments (fun _ => false) = true →
        back.outline.Alike Eq (fun a b => squash (decode a) = squash b) root.outline) := by
  obtain ⟨hroot, hs⟩ := parse_sound h
  have hread := outlineAfter_root quote 0 hroot hs hc (by simp : ∀ x ∈ [], _) []
  obtain ⟨back, hb, ho⟩ := exists_parse_of_outlineAfter hread
  have hd : firsts (root.attributes ++ bareAttributes []) = root.attributes := by
    simp only [Element.node, isSound_element, properAttributes_iff] at hs
    rw [show bareAttributes [] = [] from rfl, List.append_nil, firsts_of_distinct hs.2.1.2]
  refine ⟨back, ?_, ?_, fun hn => ?_⟩
  · rw [lines_eq_framed, joinLines_framed]
    simpa [indentation] using hb
  · have halike : Element.Alike Eq (fun _ _ => True) _ _ :=
      alike_rereadRoot (p := fun _ => true) (fun _ _ _ => trivial) 0 []
        (allCommentsOf_mono (fun _ _ => rfl) hc)
    rw [hd] at halike
    rw [ho]
    exact halike
  · have halike := alike_rereadRoot (fun level _ => shows_rereadContent level) 0 [] hn
    rw [hd] at halike
    rw [ho]
    exact halike.mono (fun _ _ e => e) fun _ _ hshow => hshow.eq

/-- Void elements, both quotation marks, a line break and `>` inside values, an inner root element,
and text that looks like a tag and like a container. -/
theorem parse_lines_hard :
    ∃ root back,
      parse "<svg a='\"' b=\"'>/&lt;\n\"><image x=1><svg/> <b/><![CDATA[<g>]]> \x7b\"c\"\x7d </svg>".toList =
        .ok root ∧
      parse (joinLines (lines .double 0 [] root)) = .ok back ∧
      back.outline.Alike Eq (fun _ _ => True) root.outline ∧
      back.outline.Alike Eq (fun a b => squash (decode a) = squash b) root.outline := by
  obtain ⟨root, hp, hn⟩ := exists_parse_of_any
    (s := "<svg a='\"' b=\"'>/&lt;\n\"><image x=1><svg/> <b/><![CDATA[<g>]]> \x7b\"c\"\x7d </svg>".toList)
    (p := fun root => root.node.allComments fun _ => false) (by decide +kernel)
  obtain ⟨back, hb, hshape, htext⟩ := parse_lines hp (allCommentsOf_mono (by simp) hn) .double
  exact ⟨root, back, hp, hb, hshape, htext hn⟩

end SvgComponent.Jsx
