import SvgComponent.Proofs.JsxReading
import SvgComponent.Proofs.Squeezing

/-!
# Blanks in mixed content

Text among other nodes is written on lines of its own, and JSX drops blanks around line breaks, so the
blanks that separate it are written as containers. Here what the lines show is compared with what the
document shows: where they have a blank between two characters or elements, the document has one too,
except in two cases (`Parts`).

* `contentOf`, `items`, `AddsNoBlank`: what nodes show, and what it means that no blank is added.
* `Edge`: how what stands before a node ends, as far as it matters for the node.
* `Parts`, `admits_iff`: the nodes between which a blank is added.
* `addsNoBlank_lines`: blanks are added there and nowhere else.
-/

namespace SvgComponent.Jsx

open Text Markup

/-! ## Content and its items -/

/-- What nodes show: their text and their elements. Comments show nothing. -/
def contentOf : List Node → List Content
  | [] => []
  | .element tag _ _ :: ns => .element tag :: contentOf ns
  | .comment _ :: ns => contentOf ns
  | .text s :: ns => s.map .char ++ contentOf ns

/-- Whether content is a blank. -/
def Content.isBlank : Content → Bool
  | .char c => Text.isBlank c
  | .element _ => false

/-- The content that is no blank, each with whether blanks stand right before it; `blank` says so of what
comes first. -/
def items (blank : Bool) : List Content → List (Bool × Content)
  | [] => []
  | x :: xs => if x.isBlank then items true xs else (blank, x) :: items false xs

/-- The same items in the same order, none of them with new blanks before it. -/
def Keeps (new old : List (Bool × Content)) : Prop :=
  List.Forall₂ (fun x y => x.2 = y.2 ∧ (x.1 = true → y.1 = true)) new old

/-- What is shown has no blank between two items that have none between them in the source. Blanks
before the first item do not count. -/
def AddsNoBlank (source shown : List Content) : Prop := Keeps (items false shown) (items true source)

theorem contentOf_append (ns ms : List Node) : contentOf (ns ++ ms) = contentOf ns ++ contentOf ms := by
  induction ns with
  | nil => rfl
  | cons n ns ih => cases n <;> simp [contentOf, ih]

theorem keeps_cons {x y : Bool × Content} {new old : List (Bool × Content)} :
    Keeps (x :: new) (y :: old) ↔ (x.2 = y.2 ∧ (x.1 = true → y.1 = true)) ∧ Keeps new old :=
  List.forall₂_cons

theorem items_of_blank {c : Char} (hc : isBlank c = true) (blank : Bool) (xs : List Content) :
    items blank (.char c :: xs) = items true xs := by
  rw [items, if_pos (by simpa [Content.isBlank] using hc)]

theorem items_of_not_blank {c : Char} (hc : isBlank c = false) (blank : Bool) (xs : List Content) :
    items blank (.char c :: xs) = (blank, .char c) :: items false xs := by
  rw [items, if_neg (by simp [Content.isBlank, hc])]

theorem items_element (tag : List Char) (blank : Bool) (xs : List Content) :
    items blank (.element tag :: xs) = (blank, .element tag) :: items false xs := by
  rw [items, if_neg (by simp [Content.isBlank])]

theorem items_blanks {s : List Char} (h : isBlankText s = true) (blank : Bool) (xs : List Content) :
    items blank (s.map .char ++ xs) = items (blank || !s.isEmpty) xs := by
  induction s generalizing blank with
  | nil => simp
  | cons c s ih =>
    obtain ⟨hc, hs⟩ : isBlank c = true ∧ isBlankText s = true := by simpa [isBlankText] using h
    rw [List.map_cons, List.cons_append, items_of_blank hc, ih hs]
    simp

/-- A space shows as a blank. -/
theorem items_gap (gap blank : Bool) (xs : List Content) :
    items blank ((if gap then [.char ' '] else []) ++ xs) = items (blank || gap) xs := by
  cases gap with
  | true => simpa using items_of_blank (by decide) blank xs
  | false => simp

theorem any_getLast?_of_blank {s : List Char} (h : isBlankText s = true) :
    s.getLast?.any isBlank = !s.isEmpty := by
  rcases List.eq_nil_or_concat s with rfl | ⟨s, c, rfl⟩
  · rfl
  · have hc : isBlank c = true := List.all_eq_true.1 h c (by simp)
    simp [hc]

theorem getLast?_cons_of_words {s : List Char} (hs : isBlankText s = false) (c : Char) :
    (c :: s).getLast? = s.getLast? := by
  cases s with
  | nil => cases hs
  | cons d s => rw [List.getLast?_cons_cons]

/-- The words of a text have the items of the text, with blanks between them where the text has some. -/
theorem keeps_spaced {s : List Char} (hs : isBlankText s = false) (new old : Bool)
    (shown source : List Content) :
    Keeps (items new ((spaced s).map .char ++ shown)) (items old (s.map .char ++ source)) ↔
      (new = true → (old || s.head?.any isBlank) = true) ∧
        Keeps (items false shown) (items (s.getLast?.any isBlank) source) := by
  induction s generalizing new old with
  | nil => cases hs
  | cons c s ih =>
    rw [List.map_cons, List.cons_append, List.head?_cons, Option.any_some]
    cases hc : isBlank c with
    | true =>
      have hrest : isBlankText s = false := by simpa [isBlankText, hc] using hs
      rw [spaced_of_blank hc, items_of_blank hc, ih hrest, getLast?_cons_of_words hrest]
      simp
    | false =>
      rw [spaced_of_not_blank hc, List.map_cons, List.cons_append, items_of_not_blank hc,
        items_of_not_blank hc, keeps_cons, Bool.or_false]
      simp only [true_and]
      refine and_congr_right fun _ => ?_
      cases hrest : isBlankText s with
      | true =>
        -- nothing but blanks is left, which no space stands for
        have hlast : (c :: s).getLast?.any isBlank = !s.isEmpty := by
          cases s with
          | nil => simp [hc]
          | cons d s => rw [List.getLast?_cons_cons, any_getLast?_of_blank hrest]
        rw [spaced_eq_nil.2 hrest, items_blanks hrest, hlast]
        simp
      | false =>
        rw [getLast?_cons_of_words hrest]
        cases hhead : s.head?.any isBlank with
        | true =>
          simp only [Bool.not_false, Bool.and_true, if_true, List.map_cons, List.cons_append]
          rw [items_of_blank (by decide), ih hrest, hhead]
          simp
        | false =>
          simp only [Bool.false_and, Bool.false_eq_true, if_false]
          rw [ih hrest]
          simp

/-! ## What lines show -/

/-- A line break and blanks in text show nothing by themselves. -/
theorem render_margin {pad : List Char} (h : ∀ c ∈ pad, c = ' ') (before : Bool) (ps : List Piece) :
    ∃ blanks, blanks.any isBreak = true ∧ render before [] (margin pad ++ ps) = render before blanks ps := by
  have hpad : ∀ (pad blanks : List Char), (∀ c ∈ pad, c = ' ') → ∀ ps,
      render before blanks (pad.map .char ++ ps) = render before (blanks ++ pad) ps := by
    intro pad
    induction pad with
    | nil => simp
    | cons c pad ih =>
      intro blanks hc ps
      obtain rfl := hc c (by simp)
      rw [List.map_cons, List.cons_append, render, if_pos (by decide),
        ih _ (fun d hd => hc d (by simp [hd]))]
      simp
  refine ⟨'\n' :: pad, rfl, ?_⟩
  rw [margin, List.cons_append, render, if_pos (by decide)]
  exact hpad pad _ h ps

theorem spacing_of_break {blanks : List Char} (h : blanks.any isBreak = true) (before behind : Bool) :
    spacing before behind blanks = if before && behind then [.char ' '] else [] := by
  rw [spacing, if_pos h]

theorem spacing_of_no_break {blanks : List Char} (h : blanks.any isBreak = false)
    (before behind : Bool) : spacing before behind blanks = blanks.map .char := by
  rw [spacing, if_neg (by simp [h])]

/-- A character that is no blank shows itself; text goes on behind it unless it is in a container. -/
theorem render_textPiece {c : Char} (hc : isBlank c = false) (before : Bool) (blanks : List Char)
    (ps : List Piece) :
    render before blanks (textPiece c :: ps) =
      spacing before (!isSpecial c) blanks ++ .char c :: render (!isSpecial c) [] ps := by
  cases hspecial : isSpecial c with
  | true => simp [textPiece, hspecial, render]
  | false => simp [textPiece, hspecial, render, hc]

/-- Text on one line shows itself. -/
theorem render_text {d : Char} (hd : isBlank d = false) (s : List Char) (before : Bool)
    (blanks : List Char) (hblanks : blanks.any isBreak = false) (hs : s.any isBreak = false)
    (ps : List Piece) :
    render before blanks ((s ++ [d]).map textPiece ++ ps) =
      blanks.map .char ++ ((s ++ [d]).map .char ++ render (!isSpecial d) [] ps) := by
  induction s generalizing before blanks with
  | nil =>
    rw [List.nil_append, List.map_singleton, List.singleton_append, render_textPiece hd,
      spacing_of_no_break hblanks]
    rfl
  | cons c s ih =>
    obtain ⟨hc, hrest⟩ : isBreak c = false ∧ s.any isBreak = false := by simpa using hs
    rw [List.cons_append, List.map_cons, List.cons_append]
    cases hb : isBlank c with
    | true =>
      have hspecial : isSpecial c = false := by
        refine Bool.eq_false_iff.2 fun h => ?_
        simp only [isSpecial, Bool.or_eq_true, beq_iff_eq] at h
        rcases h with ((rfl | rfl) | rfl) | rfl <;> cases hb
      have hmore : (blanks ++ [c]).any isBreak = false := by simp [hblanks, hc]
      simp only [textPiece, hspecial, Bool.false_eq_true, if_false]
      rw [render, if_pos hb, ih before _ hmore hrest]
      simp
    | false =>
      rw [render_textPiece hb, spacing_of_no_break hblanks, ih _ [] rfl hrest]
      simp

/-- Text at the start of a line shows itself, behind a space if there is text before the line break. -/
theorem render_line {blanks : List Char} (hblanks : blanks.any isBreak = true) {s : List Char}
    (hs : s.any isBreak = false) {c d : Char} (hhead : s.head? = some c) (hc : isBlank c = false)
    (hlast : s.getLast? = some d) (hd : isBlank d = false) (before : Bool) (ps : List Piece) :
    render before blanks (s.map textPiece ++ ps) =
      (if before && !isSpecial c then [.char ' '] else []) ++
        (s.map .char ++ render (!isSpecial d) [] ps) := by
  obtain ⟨t, rfl⟩ := List.head?_eq_some_iff.1 hhead
  rw [List.map_cons, List.cons_append, render_textPiece hc, spacing_of_break hblanks]
  congr 1
  rcases List.eq_nil_or_concat t with rfl | ⟨u, e, rfl⟩
  · obtain rfl : c = d := by simpa using hlast
    rfl
  · rw [List.concat_eq_append] at hs hlast ⊢
    obtain rfl : e = d := by simpa [List.getLast?_cons] using hlast
    have hu : u.any isBreak = false := by
      simp only [List.any_cons, List.any_append, Bool.or_eq_false_iff] at hs
      exact hs.2.1
    rw [render_text hd u _ [] rfl hu]
    rfl

theorem getLast?_spaced_of_not_blank {s : List Char} {d : Char} (h : s.getLast? = some d)
    (hd : isBlank d = false) : (spaced s).getLast? = some d := by
  induction s with
  | nil => cases h
  | cons c s ih =>
    cases s with
    | nil =>
      obtain rfl : c = d := by simpa using h
      rw [spaced_of_not_blank hd]
      rfl
    | cons e s =>
      rw [List.getLast?_cons_cons] at h
      have hrest := ih h
      cases hc : isBlank c with
      | true =>
        rw [spaced_of_blank hc]
        exact hrest
      | false =>
        obtain ⟨x, t, ht⟩ : ∃ x t, spaced (e :: s) = x :: t :=
          List.exists_cons_of_ne_nil fun hn => by simp [hn] at hrest
        rw [spaced_of_not_blank hc]
        rw [ht] at hrest ⊢
        split
        · rw [List.getLast?_cons_cons, List.getLast?_cons_cons, hrest]
        · rw [List.getLast?_cons_cons, hrest]

theorem any_isBreak_spaced (s : List Char) : (spaced s).any isBreak = false := by
  rw [List.any_eq_false]
  intro c hm hb
  rcases not_blank_of_mem_spaced hm with rfl | hblank
  · cases hb
  · rw [not_isBreak_of_not_blank hblank] at hb
    cases hb

/-- A separating space shows itself, and no text goes on behind it. -/
theorem render_space (space before : Bool) (ps : List Piece) :
    render before [] ((if space then [.contained ' '] else []) ++ ps) =
      (if space then [.char ' '] else []) ++ render (before && !space) [] ps := by
  cases space with
  | true => simp [render, spacing]
  | false => simp

/-- What text among other nodes shows: its words, with the separating spaces around them. -/
theorem render_mixed {s : List Char} (hs : isBlankText s = false) {pad : List Char}
    (hpad : ∀ c ∈ pad, c = ' ') (first last before : Bool) (ps : List Piece) :
    ∃ c d, (spaced s).head? = some c ∧ (spaced s).getLast? = some d ∧
      render before [] (margin pad ++ mixedPieces first last s ++ ps) =
        (if leads first last s || (before && !isSpecial c) then [.char ' '] else []) ++
          ((spaced s).map .char ++ ((if trails last s then [.char ' '] else []) ++
            render (!isSpecial d && !trails last s) [] ps)) := by
  have hne : spaced s ≠ [] := fun hn => by simp [spaced_eq_nil.1 hn] at hs
  have hhead := List.head?_eq_some_head hne
  have hlast := List.getLast?_eq_getLast_of_ne_nil hne
  have hc := clear_spaced s _ hhead
  have hd := getLast?_spaced hlast
  have hbreak := any_isBreak_spaced s
  generalize (spaced s).head hne = c at hhead hc
  generalize (spaced s).getLast hne = d at hlast hd
  refine ⟨c, d, hhead, hlast, ?_⟩
  obtain ⟨blanks, hblanks, hmargin⟩ := render_margin hpad before
    (mixedPieces first last s ++ ps)
  rw [List.append_assoc, hmargin, mixedPieces, List.append_assoc, List.append_assoc]
  cases leads first last s with
  | true =>
    obtain ⟨t, ht⟩ : ∃ t, spaced s = t ++ [d] := List.getLast?_eq_some_iff.1 hlast
    have hline : render false [] ((spaced s).map textPiece ++
        ((if trails last s then [.contained ' '] else []) ++ ps)) =
        (spaced s).map .char ++ render (!isSpecial d) []
          ((if trails last s then [.contained ' '] else []) ++ ps) := by
      rw [ht] at hbreak ⊢
      have hbreak' : t.any isBreak = false := by
        simp only [List.any_append, Bool.or_eq_false_iff] at hbreak
        exact hbreak.1
      exact render_text hd t false [] rfl hbreak' _
    simp only [if_true, List.singleton_append, render, Bool.true_or]
    rw [spacing_of_break hblanks, hline, render_space]
    simp
  | false =>
    simp only [Bool.false_eq_true, if_false, List.nil_append, Bool.false_or]
    rw [render_line hblanks hbreak hhead hc hlast hd, render_space]

/-! ## The edge before a node -/

/-- Whether a character shows as text, with nothing around it. -/
def isPlain (c : Char) : Bool := !isBlank c && !isSpecial c

/-- How what stands before a node ends. -/
inductive Edge where
  /-- With blanks, or nothing is there. -/
  | loose
  /-- With text that shows as it is. -/
  | text
  /-- With an element, a container or a comment. -/
  | firm
  /-- As the last two, but with a separating space that is not in the source. -/
  | parted
  deriving DecidableEq, Repr

/-- The edge behind a node. -/
def Edge.step : Edge → Node → Edge
  | _, .element _ _ _ => .firm
  | .text, .comment _ => .firm
  | edge, .comment _ => edge
  | edge, .text s =>
    match s.getLast? with
    | none => if edge = .loose then .loose else .parted
    | some c => if isBlank c then .loose else if isSpecial c then .firm else .text

@[simp] theorem Edge.step_element (edge : Edge) (tag : List Char) (attributes : List Attribute)
    (children : List Node) : edge.step (.element tag attributes children) = .firm := by
  cases edge <;> rfl

theorem Edge.step_text (edge : Edge) {s : List Char} {c : Char} (h : s.getLast? = some c) :
    edge.step (.text s) = if isBlank c then .loose else if isSpecial c then .firm else .text := by
  cases edge <;> simp [Edge.step, h]

theorem Edge.step_empty (edge : Edge) :
    edge.step (.text []) = if edge = .loose then .loose else .parted := by
  cases edge <;> rfl

/-- Whether a blank shows before a node that is not in the source. -/
def Edge.rejects : Edge → Node → Bool
  | .parted, .element _ _ _ => true
  | .parted, .text s => s.head?.any (!isBlank ·)
  | .text, .text s => s.head?.any isPlain
  | _, _ => false

/-- Whether no blank shows before nodes that is not in the source. -/
def Edge.admits (edge : Edge) : List Node → Bool
  | [] => true
  | n :: ns => !edge.rejects n && (edge.step n).admits ns

/-- What an edge says about text before a node, and about blanks before it in what is shown and in the
source. -/
def Edge.Fits : Edge → Bool → Bool → Bool → Prop
  | .loose, _, _, old => old = true
  | .text, before, new, old => before = true ∧ new = false ∧ old = false
  | .firm, before, new, old => before = false ∧ new = false ∧ old = false
  | .parted, _, new, old => new = true ∧ old = false

section
variable {edge : Edge} {before new old : Bool}

/-- A node that shows something right away is rejected if there are new blanks before it. -/
theorem Edge.Fits.rejects_element (h : edge.Fits before new old) (tag : List Char)
    (attributes : List Attribute) (children : List Node) :
    (new = true → old = true) ↔ edge.rejects (.element tag attributes children) = false := by
  cases edge <;> simp_all [Edge.Fits, Edge.rejects]

theorem Edge.Fits.rejects_text (h : edge.Fits before new old) {c : Char} {s : List Char}
    (hc : isBlank c = false) :
    ((new || (before && !isSpecial c)) = true → old = true) ↔ edge.rejects (.text (c :: s)) = false := by
  cases edge <;> simp_all [Edge.Fits, Edge.rejects, isPlain]

/-- The same of text with words in it, with the separating space and the blanks of the text counted. -/
theorem Edge.Fits.rejects_words (h : edge.Fits before new old) {s : List Char}
    (hs : isBlankText s = false) {c : Char} (hhead : (spaced s).head? = some c) {first last : Bool} :
    ((new || (leads first last s || (before && !isSpecial c))) = true →
        (old || s.head?.any isBlank) = true) ↔ edge.rejects (.text s) = false := by
  cases s with
  | nil => cases hs
  | cons a s =>
    cases ha : isBlank a with
    | true => cases edge <;> simp [Edge.rejects, isPlain, ha]
    | false =>
      have hleads : leads first last (a :: s) = false := by simp [leads, hs, ha]
      obtain rfl : a = c := by
        rw [spaced_of_not_blank ha] at hhead
        exact Option.some.inj hhead
      rw [← h.rejects_text ha, hleads]
      simp [ha]

/-! ## One node after the other -/

theorem keeps_element (h : edge.Fits before new old) (level : Int) (first last : Bool)
    (tag : List Char) (attributes : List Attribute) (children ns : List Node) (ps : List Piece) :
    Keeps (items new (render before []
        (nodePieces level first last (.element tag attributes children) ++ ps)))
      (items old (contentOf (.element tag attributes children :: ns))) ↔
      edge.rejects (.element tag attributes children) = false ∧
        Keeps (items false (render false [] ps)) (items false (contentOf ns)) := by
  have hpad : ∀ c ∈ indentation (level + 1), c = ' ' := fun c => mem_indentation
  obtain ⟨blanks, hblanks, hmargin⟩ := render_margin hpad before ([.element tag] ++ ps)
  rw [nodePieces, List.append_assoc, hmargin, List.singleton_append, render,
    spacing_of_break hblanks, contentOf, items_element]
  simp only [Bool.and_false, Bool.false_eq_true, if_false, List.nil_append]
  rw [items_element, keeps_cons, ← h.rejects_element]
  simp

theorem render_comment (level : Int) (first last : Bool) (body : List Char) (ps : List Piece) :
    render before [] (nodePieces level first last (.comment body) ++ ps) = render false [] ps := by
  obtain ⟨blanks, hblanks, hmargin⟩ := render_margin (mem_indentation_unit level) before
    ([.comment] ++ ps)
  rw [nodePieces, List.append_assoc, hmargin, List.singleton_append, render,
    spacing_of_break hblanks]
  simp

/-- Text that is blank: what is shown of it, and the edge behind it. -/
theorem exists_step_blank {s : List Char} (hs : isBlankText s = true) (h : edge.Fits before new old)
    {first : Bool} (hfirst : first = true → edge = .loose) (level : Int) (last : Bool) :
    ∃ before' new', (last = false →
        (edge.step (.text s)).Fits before' new' (old || !s.isEmpty)) ∧
      ∀ ps, items new (render before [] (nodePieces level first last (.text s) ++ ps)) =
        items new' (render before' [] ps) := by
  have hstep : s ≠ [] → edge.step (.text s) = .loose := by
    intro hne
    obtain ⟨c, hlast⟩ : ∃ c, s.getLast? = some c := ⟨_, List.getLast?_eq_getLast_of_ne_nil hne⟩
    have hc : isBlank c = true := List.all_eq_true.1 hs c (List.mem_of_getLast? hlast)
    rw [edge.step_text hlast, if_pos hc]
  have htrails : trails last s = false := by simp [trails, hs]
  have hmixed : mixedText first last s = if leads first last s then container ' ' else [] := by
    rw [mixedText_eq, escapeText_eq_nil.2 hs, htrails]
    simp
  have hpieces : mixedPieces first last s = if leads first last s then [.contained ' '] else [] := by
    rw [mixedPieces, spaced_eq_nil.2 hs, htrails]
    simp
  cases hl : leads first last s with
  | true =>
    refine ⟨false, true, fun _ => ?_, fun ps => ?_⟩
    · by_cases hne : s = []
      · subst hne
        rw [edge.step_empty]
        cases edge <;> simp_all [Edge.Fits]
      · rw [hstep hne]
        simp [Edge.Fits, hne]
    · obtain ⟨blanks, hblanks, hmargin⟩ := render_margin (mem_indentation_unit level) before
        ([.contained ' '] ++ ps)
      rw [nodePieces, hmixed, hpieces, hl, if_pos rfl, if_pos rfl, if_neg (by simp [container]),
        List.append_assoc, hmargin, List.singleton_append, render, spacing_of_break hblanks]
      simp only [Bool.and_false, Bool.false_eq_true, if_false, List.nil_append]
      rw [items_of_blank (by decide)]
  | false =>
    refine ⟨before, new, fun hlast => ?_, fun ps => ?_⟩
    · by_cases hne : s = []
      · -- an empty text between other nodes has its space, so it comes first
        subst hne
        have hloose : edge = .loose := hfirst (by simpa [leads, hlast, isBlankText] using hl)
        subst hloose
        rw [Edge.step_empty]
        simpa using h
      · rw [hstep hne]
        simp [Edge.Fits, hne]
    · have hempty : mixedText first last s = [] := by
        rw [hmixed, hl]
        rfl
      rw [nodePieces, if_pos hempty, List.nil_append]

/-- Text with words in it: where it adds a blank, and the edge behind it. -/
theorem exists_step_words {s : List Char} (hs : isBlankText s = false) (h : edge.Fits before new old)
    (first : Bool) (level : Int) (last : Bool) :
    ∃ before' new', (last = false →
        (edge.step (.text s)).Fits before' new' (s.getLast?.any isBlank)) ∧
      ∀ ps ns, Keeps (items new (render before [] (nodePieces level first last (.text s) ++ ps)))
          (items old (contentOf (.text s :: ns))) ↔
        edge.rejects (.text s) = false ∧
          Keeps (items new' (render before' [] ps)) (items (s.getLast?.any isBlank) (contentOf ns)) := by
  have hne : s ≠ [] := by
    rintro rfl
    cases hs
  have hmixed : mixedText first last s ≠ [] := by
    rw [mixedText_eq]
    intro hnil
    have hescaped : escapeText s = [] := by
      simp only [List.append_eq_nil_iff] at hnil
      exact hnil.1.2
    rw [escapeText_eq_nil.1 hescaped] at hs
    cases hs
  obtain ⟨c, d, hhead, hlast, -⟩ := render_mixed hs (mem_indentation_unit level) first last before []
  refine ⟨!isSpecial d && !trails last s, trails last s, fun hlast' => ?_, fun ps ns => ?_⟩
  · obtain ⟨z, hz⟩ : ∃ z, s.getLast? = some z := ⟨_, List.getLast?_eq_getLast_of_ne_nil hne⟩
    rw [edge.step_text hz]
    cases hblank : isBlank z with
    | true => simp [Edge.Fits, hz, hblank]
    | false =>
      obtain rfl : d = z := by
        rw [getLast?_spaced_of_not_blank hz hblank] at hlast
        exact (Option.some.inj hlast).symm
      cases hspecial : isSpecial d <;> simp [Edge.Fits, hz, hblank, trails]
  · obtain ⟨c', d', hhead', hlast', hrender⟩ :=
      render_mixed hs (mem_indentation_unit level) first last before ps
    obtain rfl : c = c' := Option.some.inj (hhead.symm.trans hhead')
    obtain rfl : d = d' := Option.some.inj (hlast.symm.trans hlast')
    rw [nodePieces, if_neg hmixed, hrender, contentOf, items_gap, keeps_spaced hs, items_gap,
      h.rejects_words hs hhead]
    simp

/-- **One node**: it adds a blank where the edge before it rejects it, and leaves the edge behind it. -/
theorem exists_step (h : edge.Fits before new old) {first : Bool}
    (hfirst : first = true → edge = .loose) (level : Int) (last : Bool) (n : Node) :
    ∃ before' new' old', (last = false → (edge.step n).Fits before' new' old') ∧
      ∀ ps ns, Keeps (items new (render before [] (nodePieces level first last n ++ ps)))
          (items old (contentOf (n :: ns))) ↔
        edge.rejects n = false ∧
          Keeps (items new' (render before' [] ps)) (items old' (contentOf ns)) := by
  cases n with
  | element tag attributes children =>
    refine ⟨false, false, false, fun _ => ?_, fun ps ns =>
      keeps_element h level first last tag attributes children ns ps⟩
    rw [edge.step_element]
    exact ⟨rfl, rfl, rfl⟩
  | comment body =>
    refine ⟨false, new, old, fun _ => ?_, fun ps ns => ?_⟩
    · cases edge <;> simp_all [Edge.Fits, Edge.step]
    · have hrejects : edge.rejects (.comment body) = false := by cases edge <;> rfl
      rw [render_comment, contentOf, hrejects]
      simp
  | text s =>
    cases hs : isBlankText s with
    | true =>
      obtain ⟨before', new', hfits, hitems⟩ := exists_step_blank hs h hfirst level last
      refine ⟨before', new', _, hfits, fun ps ns => ?_⟩
      have hrejects : edge.rejects (.text s) = false := by
        cases s with
        | nil => cases edge <;> rfl
        | cons c s =>
          have hc : isBlank c = true := List.all_eq_true.1 hs c (by simp)
          cases edge <;> simp [Edge.rejects, isPlain, hc]
      rw [hitems, contentOf, items_blanks hs, hrejects]
      simp
    | false =>
      obtain ⟨before', new', hfits, hkeeps⟩ := exists_step_words hs h first level last
      exact ⟨before', new', _, hfits, hkeeps⟩

/-- **All nodes**: blanks are added where an edge rejects a node. -/
theorem keeps_iff_admits {pad : List Char} (hpad : ∀ c ∈ pad, c = ' ') (level : Int) {first : Bool}
    (ns : List Node) (h : edge.Fits before new old) (hfirst : first = true → edge = .loose) :
    Keeps (items new (render before [] (childPieces level first ns ++ margin pad)))
      (items old (contentOf ns)) ↔ edge.admits ns = true := by
  -- what follows the last node shows nothing
  have hend : ∀ before, render before [] (margin pad) = [] := by
    intro before
    obtain ⟨blanks, hblanks, hmargin⟩ := render_margin hpad before []
    rw [List.append_nil] at hmargin
    rw [hmargin, render, spacing_of_break hblanks]
    simp
  induction ns generalizing first edge before new old with
  | nil =>
    rw [childPieces, List.nil_append, hend]
    exact iff_of_true .nil rfl
  | cons n ns ih =>
    obtain ⟨before', new', old', hfits, hstep⟩ := exists_step h hfirst level ns.isEmpty n
    rw [childPieces, List.append_assoc, hstep, Edge.admits, Bool.and_eq_true, Bool.not_eq_true']
    refine and_congr_right fun _ => ?_
    cases ns with
    | nil =>
      rw [childPieces, List.nil_append, hend]
      exact iff_of_true .nil rfl
    | cons m ns => exact ih (hfits rfl) (by simp)

end

/-! ## Where blanks are added -/

/-- Nodes between which a blank is added: two texts side by side that show as one word, and an empty
text with content right before and right behind it. -/
inductive Parts : List Node → Prop
  | texts {s t : List Char} (pre post : List Node) (hs : s.getLast?.any isPlain = true)
    (ht : t.head?.any isPlain = true) : Parts (pre ++ .text s :: .text t :: post)
  | empty (pre post : List Node) (hpre : (contentOf pre).getLast?.any (!·.isBlank) = true)
    (hpost : (contentOf post).head?.any (!·.isBlank) = true) : Parts (pre ++ .text [] :: post)

theorem not_admits_iff {edge : Edge} {ns : List Node} :
    edge.admits ns = false ↔
      ∃ pre n post, ns = pre ++ n :: post ∧ (pre.foldl Edge.step edge).rejects n = true := by
  induction ns generalizing edge with
  | nil => simp [Edge.admits]
  | cons m ns ih =>
    rw [Edge.admits, Bool.and_eq_false_iff, ih, Bool.not_eq_false']
    constructor
    · rintro (h | ⟨pre, n, post, rfl, h⟩)
      · exact ⟨[], m, ns, rfl, h⟩
      · exact ⟨m :: pre, n, post, rfl, h⟩
    · rintro ⟨pre, n, post, he, h⟩
      cases pre with
      | nil =>
        cases he
        exact .inl h
      | cons k pre =>
        obtain ⟨rfl, rfl⟩ := List.cons.inj he
        exact .inr ⟨pre, n, post, rfl, h⟩

/-- The edge behind nodes. -/
def edgeBehind (ns : List Node) : Edge := ns.foldl Edge.step .loose

theorem edgeBehind_concat (ns : List Node) (n : Node) :
    edgeBehind (ns ++ [n]) = (edgeBehind ns).step n := by
  rw [edgeBehind, List.foldl_append]
  rfl

/-- Nodes end with content that is no blank unless the edge behind them is loose. -/
theorem edgeBehind_ne_loose {ns : List Node} :
    edgeBehind ns ≠ .loose ↔ (contentOf ns).getLast?.any (!·.isBlank) = true := by
  induction ns using List.reverseRecOn with
  | nil => simp [edgeBehind, contentOf]
  | append_singleton ns n ih =>
    rw [edgeBehind_concat, contentOf_append]
    cases n with
    | element tag attributes children => simp [contentOf, Content.isBlank]
    | comment body =>
      have hstep : (edgeBehind ns).step (.comment body) ≠ .loose ↔ edgeBehind ns ≠ .loose := by
        cases edgeBehind ns <;> simp [Edge.step]
      rw [hstep, ih]
      simp [contentOf]
    | text s =>
      rcases List.eq_nil_or_concat s with rfl | ⟨s, c, rfl⟩
      · rw [Edge.step_empty]
        simpa [contentOf] using ih
      · rw [Edge.step_text _ (show (s.concat c).getLast? = some c by simp)]
        cases hc : isBlank c <;> cases hspecial : isSpecial c <;> simp [contentOf, Content.isBlank, hc]

theorem edgeBehind_eq_text {ns : List Node} :
    edgeBehind ns = .text ↔ ∃ pre s, ns = pre ++ [.text s] ∧ s.getLast?.any isPlain = true := by
  constructor
  · intro h
    rcases List.eq_nil_or_concat ns with rfl | ⟨pre, n, rfl⟩
    · cases h
    rw [List.concat_eq_append, edgeBehind_concat] at h
    cases n with
    | element tag attributes children => simp at h
    | comment body => cases hpre : edgeBehind pre <;> simp [hpre, Edge.step] at h
    | text s =>
      refine ⟨pre, s, List.concat_eq_append, ?_⟩
      rcases List.eq_nil_or_concat s with rfl | ⟨s, c, rfl⟩
      · rw [Edge.step_empty] at h
        split at h <;> cases h
      · rw [Edge.step_text _ (show (s.concat c).getLast? = some c by simp)] at h
        cases hc : isBlank c <;> cases hspecial : isSpecial c <;> simp [hc, hspecial, isPlain] at h ⊢
  · rintro ⟨pre, s, rfl, hs⟩
    obtain ⟨c, hlast, hc⟩ := (Option.any_eq_true _ _).1 hs
    obtain ⟨hblank, hspecial⟩ : isBlank c = false ∧ isSpecial c = false := by simpa [isPlain] using hc
    rw [edgeBehind_concat, Edge.step_text _ hlast, hblank, hspecial]
    rfl

theorem foldl_step_parted {ns : List Node} (h : contentOf ns = []) :
    ns.foldl Edge.step .parted = .parted := by
  induction ns with
  | nil => rfl
  | cons n ns ih =>
    cases n with
    | element tag attributes children => cases h
    | comment body => exact ih h
    | text s =>
      obtain ⟨hs, hns⟩ : s = [] ∧ contentOf ns = [] := by simpa [contentOf] using h
      subst hs
      exact ih hns

theorem edgeBehind_eq_parted {ns : List Node} :
    edgeBehind ns = .parted ↔
      ∃ pre post, ns = pre ++ .text [] :: post ∧ edgeBehind pre ≠ .loose ∧ contentOf post = [] := by
  constructor
  · intro h
    induction ns using List.reverseRecOn with
    | nil => cases h
    | append_singleton ns n ih =>
      rw [edgeBehind_concat] at h
      cases n with
      | element tag attributes children => simp at h
      | comment body =>
        have hns : edgeBehind ns = .parted := by
          cases hns : edgeBehind ns <;> simp [hns, Edge.step] at h ⊢
        obtain ⟨pre, post, rfl, hpre, hpost⟩ := ih hns
        refine ⟨pre, post ++ [.comment body], by simp, hpre, ?_⟩
        rw [contentOf_append, hpost]
        rfl
      | text s =>
        rcases List.eq_nil_or_concat s with rfl | ⟨s, c, rfl⟩
        · refine ⟨ns, [], rfl, fun hloose => ?_, rfl⟩
          rw [Edge.step_empty, if_pos hloose] at h
          cases h
        · rw [Edge.step_text _ (show (s.concat c).getLast? = some c by simp)] at h
          split at h
          · cases h
          split at h <;> cases h
  · rintro ⟨pre, post, rfl, hpre, hpost⟩
    have hempty : (edgeBehind pre).step (.text []) = .parted := by rw [Edge.step_empty, if_neg hpre]
    have hfold : edgeBehind (pre ++ .text [] :: post) =
        post.foldl Edge.step ((edgeBehind pre).step (.text [])) := by
      rw [edgeBehind, List.foldl_append]
      rfl
    rw [hfold, hempty, foldl_step_parted hpost]

/-- The first content of nodes is that of a node with nothing but empty nodes before it. -/
theorem exists_head_contentOf {ns : List Node} (h : (contentOf ns).head?.any (!·.isBlank) = true) :
    ∃ pre n post, ns = pre ++ n :: post ∧ contentOf pre = [] ∧ Edge.parted.rejects n = true := by
  induction ns with
  | nil => cases h
  | cons n ns ih =>
    have hskip : contentOf [n] = [] → contentOf (n :: ns) = contentOf ns := by
      intro hn
      rw [← List.singleton_append, contentOf_append, hn, List.nil_append]
    by_cases hn : contentOf [n] = []
    · rw [hskip hn] at h
      obtain ⟨pre, m, post, rfl, hpre, hm⟩ := ih h
      refine ⟨n :: pre, m, post, rfl, ?_, hm⟩
      rw [← List.singleton_append, contentOf_append, hn, hpre]
      rfl
    · refine ⟨[], n, ns, rfl, rfl, ?_⟩
      cases n with
      | element tag attributes children => rfl
      | comment body => exact absurd rfl hn
      | text s =>
        cases s with
        | nil => exact absurd rfl hn
        | cons c s => simpa [contentOf, Content.isBlank, Edge.rejects] using h

theorem head?_contentOf {n : Node} (h : Edge.parted.rejects n = true) (ns : List Node) :
    (contentOf (n :: ns)).head?.any (!·.isBlank) = true := by
  cases n with
  | element tag attributes children => rfl
  | comment body => cases h
  | text s =>
    cases s with
    | nil => cases h
    | cons c s => simpa [contentOf, Content.isBlank, Edge.rejects] using h

/-- **Where blanks are added**: an edge rejects a node exactly where nodes are parted. -/
theorem not_admits_iff_parts {ns : List Node} : Edge.loose.admits ns = false ↔ Parts ns := by
  rw [not_admits_iff]
  constructor
  · rintro ⟨pre, n, post, rfl, h⟩
    change (edgeBehind pre).rejects n = true at h
    cases hpre : edgeBehind pre with
    | loose =>
      rw [hpre] at h
      cases n <;> cases h
    | firm =>
      rw [hpre] at h
      cases n <;> cases h
    | text =>
      rw [hpre] at h
      obtain ⟨pre, s, rfl, hs⟩ := edgeBehind_eq_text.1 hpre
      cases n with
      | element tag attributes children => cases h
      | comment body => cases h
      | text t =>
        rw [List.append_assoc]
        exact .texts pre post hs h
    | parted =>
      rw [hpre] at h
      obtain ⟨first, silent, rfl, hfirst, hsilent⟩ := edgeBehind_eq_parted.1 hpre
      rw [List.append_assoc, List.cons_append]
      refine .empty first _ (edgeBehind_ne_loose.1 hfirst) ?_
      rw [contentOf_append, hsilent]
      exact head?_contentOf h post
  · rintro (⟨pre, post, hs, ht⟩ | ⟨pre, post, hpre, hpost⟩)
    · rename_i s t
      refine ⟨pre ++ [.text s], .text t, post, by simp, ?_⟩
      change (edgeBehind (pre ++ [.text s])).rejects (.text t) = true
      rw [edgeBehind_eq_text.2 ⟨pre, s, rfl, hs⟩]
      exact ht
    · obtain ⟨silent, n, rest, rfl, hsilent, hn⟩ := exists_head_contentOf hpost
      refine ⟨pre ++ .text [] :: silent, n, rest, by simp, ?_⟩
      change (edgeBehind (pre ++ .text [] :: silent)).rejects n = true
      rw [edgeBehind_eq_parted.2 ⟨pre, silent, rfl, edgeBehind_ne_loose.2 hpre, hsilent⟩]
      exact hn

/-! ## The elements of a tree -/

theorem elementsOf_textNodes {ns : List Node} (h : ns.all isTextNode = true) :
    Node.elementsOf ns = [] := by
  induction ns with
  | nil => rfl
  | cons n ns ih =>
    rw [List.all_cons, Bool.and_eq_true] at h
    cases n with
    | element tag attributes children => cases h.1
    | comment body => cases h.1
    | text s => rw [Node.elementsOf, Node.elements, ih h.2, List.append_nil]

/-- The lines of the children stand among those of an element that has elements in it. -/
theorem infix_framed (quote : Quote) (level : Int) {e e' : Element}
    (he : e' ∈ Node.elementsOf e.children) (inner : List (List Char)) :
    inner <:+: framed quote level [] e inner := by
  have htext : e.children.all isTextNode = false := by
    refine Bool.eq_false_iff.2 fun h => ?_
    rw [elementsOf_textNodes h] at he
    cases he
  have hblank : e.children.all isBlankNode = false := by
    refine Bool.eq_false_iff.2 fun h => ?_
    rw [isTextNode_of_isBlankNode h] at htext
    cases htext
  simp only [framed, htext, hblank, Bool.false_eq_true, if_false]
  exact ⟨[_], [_], rfl⟩

theorem lines_infix_childLines (quote : Quote) {e : Element} :
    ∀ (level : Int) (first : Bool) (ns : List Node), e ∈ Node.elementsOf ns →
      ∃ level', lines quote level' [] e <:+: childLines quote level first ns
  | level, first, [], he => by cases he
  | level, first, .element tag attributes children :: ns, he => by
    rw [childLines, nodeLines]
    simp only [Node.elementsOf, Node.elements, List.cons_append, List.mem_cons, List.mem_append] at he
    rcases he with rfl | he | he
    · refine ⟨level + 1, ?_⟩
      rw [lines_eq_framed]
      exact (List.prefix_append _ _).isInfix
    · obtain ⟨level', h⟩ := lines_infix_childLines quote (level + 1) true children he
      have hframed := infix_framed quote (level + 1) (e := ⟨tag, attributes, children⟩) he
        (childLines quote (level + 1) true children)
      exact ⟨level', (h.trans hframed).trans (List.prefix_append _ _).isInfix⟩
    · obtain ⟨level', h⟩ := lines_infix_childLines quote level false ns he
      exact ⟨level', h.trans (List.suffix_append _ _).isInfix⟩
  | level, first, .comment body :: ns, he => by
    obtain ⟨level', h⟩ := lines_infix_childLines quote level false ns
      (by simpa [Node.elementsOf, Node.elements] using he)
    exact ⟨level', h.trans (List.suffix_append _ _).isInfix⟩
  | level, first, .text s :: ns, he => by
    obtain ⟨level', h⟩ := lines_infix_childLines quote level false ns
      (by simpa [Node.elementsOf, Node.elements] using he)
    exact ⟨level', h.trans (List.suffix_append _ _).isInfix⟩

/-- The lines of an element of a tree stand among those of the tree. -/
theorem lines_infix (quote : Quote) (level : Int) {e root : Element} (he : e ∈ root.elements) :
    ∃ level', lines quote level' [] e <:+: lines quote level [] root := by
  rcases List.mem_cons.1 (show e ∈ root :: Node.elementsOf root.children from he) with rfl | he
  · exact ⟨level, List.infix_rfl⟩
  · obtain ⟨level', h⟩ := lines_infix_childLines quote level true root.children he
    rw [lines_eq_framed quote level [] root]
    exact ⟨level', h.trans (infix_framed quote level he _)⟩

/-- What the lines of an element show has a blank that the document does not have exactly if they part
its children. -/
theorem addsNoBlank_reading_iff (quote : Quote) (level : Int) {e : Element}
    (h : ∀ e' ∈ e.elements, e'.WellFormed) (hmixed : isMixed e = true) :
    AddsNoBlank (contentOf e.children) (reading (joinLines (lines quote level [] e))) ↔
      Edge.loose.admits e.children = true := by
  rw [AddsNoBlank, reading_lines quote level h (by simp) hmixed]
  exact keeps_iff_admits (fun c => mem_indentation) level e.children rfl fun _ => rfl

/-- **Blanks in mixed content.** For every element of a document that does not hold text only, what its
lines among those of the document show has a blank between two items with none between them in the
document exactly if there are two texts side by side that show as one word, or an empty text with
content right before and right behind it. -/
theorem addsNoBlank_lines {s : List Char} {root : Element} (hp : parse s = .ok root) (quote : Quote)
    (level : Int) {e : Element} (he : e ∈ root.elements) (hmixed : isMixed e = true) :
    ∃ level', lines quote level' [] e <:+: lines quote level [] root ∧
      (AddsNoBlank (contentOf e.children) (reading (joinLines (lines quote level' [] e))) ↔
        ¬Parts e.children) := by
  obtain ⟨-, hsound⟩ := parse_sound hp
  obtain ⟨level', hinfix⟩ := lines_infix quote level he
  refine ⟨level', hinfix, ?_⟩
  have hwell : ∀ e' ∈ e.elements, e'.WellFormed := fun e' he' =>
    wellFormed_of_mem_elements (isSound_of_mem_elements root.node hsound e he) he'
  rw [addsNoBlank_reading_iff quote level' hwell hmixed, ← not_admits_iff_parts, Bool.not_eq_false]

theorem addsNoBlank_lines_separated :
    ∃ root level,
      parse "<svg>a <b>c</b>\x7b<![CDATA[x ]]><!-- d --> y<?z?>></svg>".toList = .ok root ∧
      lines .single level [] root <:+: lines .single 1 [] root ∧
      AddsNoBlank (contentOf root.children) (reading (joinLines (lines .single level [] root))) := by
  obtain ⟨root, hp, hroot⟩ := exists_parse_of_any
    (s := "<svg>a <b>c</b>\x7b<![CDATA[x ]]><!-- d --> y<?z?>></svg>".toList)
    (p := fun root => isMixed root && Edge.loose.admits root.children) (by decide +kernel)
  rw [Bool.and_eq_true] at hroot
  have hself : root ∈ root.elements := by simp [Element.elements, Element.node, Node.elements]
  obtain ⟨level, hinfix, hiff⟩ := addsNoBlank_lines hp .single 1 hself hroot.1
  refine ⟨root, level, hp, hinfix, hiff.2 fun hparts => ?_⟩
  rw [← not_admits_iff_parts, hroot.2] at hparts
  cases hparts

/-- Two texts side by side are shown with a space between them. -/
theorem not_addsNoBlank_texts :
    ∃ root, parse "<svg>a<![CDATA[b]]><g/></svg>".toList = .ok root ∧ isMixed root = true ∧
      ¬AddsNoBlank (contentOf root.children) (reading (joinLines (lines .double 0 [] root))) := by
  obtain ⟨root, hp, hroot⟩ := exists_parse_of_any (s := "<svg>a<![CDATA[b]]><g/></svg>".toList)
    (p := fun root => isMixed root && !Edge.loose.admits root.children) (by decide +kernel)
  rw [Bool.and_eq_true, Bool.not_eq_true'] at hroot
  obtain ⟨-, hsound⟩ := parse_sound hp
  refine ⟨root, hp, hroot.1, ?_⟩
  rw [addsNoBlank_reading_iff .double 0 (fun e he => wellFormed_of_mem_elements hsound he) hroot.1,
    hroot.2]
  decide

end SvgComponent.Jsx
