import SvgComponent.Proofs.Surroundings
import SvgComponent.Proofs.WritableTree
import SvgComponent.Proofs.WrittenText

/-!
# How JSX is read

JSX is made of tags, containers and text. Blanks in text stay where they are, but those around a line
break are dropped at the ends of the text, and are one space between two lines of it. Here that is
written down as a reader, and it is said what the reader makes of the lines of an element.

* `Symbol`, `symbols`: the tags, containers and characters of a text.
* `Piece`, `pieces`: the content of an element; an element in it is one piece, whatever it holds.
* `Content`, `render`: what the pieces show.
* `reading`: what the content of the first element of a text shows.
* `Pieced`, `pieced_childLines`: the pieces that the lines of nodes are read as.
-/

namespace SvgComponent.Jsx

open Text Markup

/-! ## Symbols -/

/-- What JSX is made of. -/
inductive Symbol where
  | char (c : Char)
  /-- A container with a string of one character. -/
  | contained (c : Char)
  /-- A container with a comment. -/
  | comment
  | startTag (name : List Char) (closed : Bool)
  | endTag (name : List Char)
  deriving DecidableEq, Repr

/-- Whether a start tag closes itself, and what stands behind it. `quote` is the mark that ends the value
that is being read, and `slash` says that a slash stands right before. -/
def behindTag (quote : Option Char) (slash : Bool) : List Char → Bool × List Char
  | [] => (slash, [])
  | c :: s =>
    match quote with
    | some q => behindTag (if c = q then none else some q) false s
    | none =>
      if c = '>' then (slash, s)
      else if c = '"' ∨ c = '\'' then behindTag (some c) false s
      else behindTag none (c == '/') s

/-- What stands behind a comment and the brace that ends its container. -/
def behindComment (s : List Char) : List Char :=
  match before? "*/".toList s with
  | some body => s.drop (body.length + 3)
  | none => []

/-- The symbol that a character starts, and what stands behind it. -/
def symbolAt (c : Char) (s : List Char) : Symbol × List Char :=
  if c = '\x7b' then
    match s with
    | '"' :: d :: '"' :: '\x7d' :: rest => (.contained d, rest)
    | '/' :: '*' :: rest => (.comment, behindComment rest)
    | _ => (.char c, s)
  else if c = '<' then
    match s with
    | '/' :: rest => (.endTag (rest.takeWhile isNameChar), (rest.dropWhile (· != '>')).drop 1)
    | _ =>
      (.startTag (s.takeWhile isNameChar) (behindTag none false s).1, (behindTag none false s).2)
  else (.char c, s)

theorem length_behindTag_le (s : List Char) (quote : Option Char) (slash : Bool) :
    (behindTag quote slash s).2.length ≤ s.length := by
  induction s generalizing quote slash with
  | nil => simp [behindTag]
  | cons c s ih =>
    unfold behindTag
    split
    · exact (ih _ _).trans (by simp)
    · split
      · simp
      split
      · exact (ih _ _).trans (by simp)
      · exact (ih _ _).trans (by simp)

theorem length_symbolAt_le (c : Char) (s : List Char) : (symbolAt c s).2.length ≤ s.length := by
  unfold symbolAt
  split
  · split
    · simp only [List.length_cons]
      omega
    · rename_i rest
      unfold behindComment
      split <;> simp only [List.length_drop, List.length_cons, List.length_nil] <;> omega
    · exact le_rfl
  split
  · split
    · rename_i rest
      have hle := (List.dropWhile_sublist (· != '>') (l := rest)).length_le
      simp only [List.length_drop, List.length_cons]
      omega
    · exact length_behindTag_le _ _ _
  · exact le_rfl

/-- The symbols of a text. -/
def symbols : List Char → List Symbol
  | [] => []
  | c :: s => (symbolAt c s).1 :: symbols (symbolAt c s).2
termination_by s => s.length
decreasing_by exact Nat.lt_succ_of_le (length_symbolAt_le c s)

/-! ## The content of an element -/

/-- A part of the content of an element. -/
inductive Piece where
  | char (c : Char)
  | contained (c : Char)
  | comment
  | element (tag : List Char)
  deriving DecidableEq, Repr

/-- The pieces of the content of an element, up to its end tag, from a place that lies `depth` elements
further inside. -/
def pieces : Nat → List Symbol → List Piece
  | _, [] => []
  | 0, .char c :: xs => .char c :: pieces 0 xs
  | 0, .contained c :: xs => .contained c :: pieces 0 xs
  | 0, .comment :: xs => .comment :: pieces 0 xs
  | 0, .startTag name closed :: xs => .element name :: pieces (if closed then 0 else 1) xs
  | 0, .endTag _ :: _ => []
  | depth + 1, .startTag _ closed :: xs => pieces (if closed then depth + 1 else depth + 2) xs
  | depth + 1, .endTag _ :: xs => pieces depth xs
  | depth + 1, _ :: xs => pieces (depth + 1) xs

/-- What an element shows: characters and elements. -/
inductive Content where
  | char (c : Char)
  | element (tag : List Char)
  deriving DecidableEq, Repr

/-- What blanks in text show; `before` and `behind` say that there is more of the same text on that
side. -/
def spacing (before behind : Bool) (blanks : List Char) : List Content :=
  if blanks.any isBreak then if before && behind then [.char ' '] else [] else blanks.map .char

/-- What pieces show, with `blanks` in text before them; `before` says that there is more of that text
before the blanks. -/
def render (before : Bool) (blanks : List Char) : List Piece → List Content
  | [] => spacing before false blanks
  | .char c :: ps =>
    if isBlank c then render before (blanks ++ [c]) ps
    else spacing before true blanks ++ .char c :: render true [] ps
  | .contained c :: ps => spacing before false blanks ++ .char c :: render false [] ps
  | .comment :: ps => spacing before false blanks ++ render false [] ps
  | .element tag :: ps => spacing before false blanks ++ .element tag :: render false [] ps

/-- Whether a symbol is a character. -/
def Symbol.isChar : Symbol → Bool
  | .char _ => true
  | _ => false

/-- What the content of the first element of a text shows. -/
def reading (s : List Char) : List Content :=
  match (symbols s).dropWhile Symbol.isChar with
  | .startTag _ false :: xs => render false [] (pieces 0 xs)
  | _ => []

/-! ## Text and containers as symbols -/

theorem symbols_cons (c : Char) (s : List Char) :
    symbols (c :: s) = (symbolAt c s).1 :: symbols (symbolAt c s).2 := by
  rw [symbols]

theorem symbols_char {c : Char} (hbrace : c ≠ '\x7b') (hangle : c ≠ '<') (s : List Char) :
    symbols (c :: s) = .char c :: symbols s := by
  rw [symbols_cons]
  unfold symbolAt
  rw [if_neg hbrace, if_neg hangle]

theorem symbols_container (c : Char) (s : List Char) :
    symbols (container c ++ s) = .contained c :: symbols s := by
  rw [container, List.cons_append, symbols_cons]
  rfl

theorem head?_guardClose (s : List Char) : (guardClose s).head? = s.head? := by
  cases s with
  | nil => rfl
  | cons c s =>
    rw [guardClose]
    split
    · rename_i h
      simp [h.1]
    · rfl

/-- Nothing in a guarded comment ends it. -/
theorem not_close_guardClose (s : List Char) : ¬['*', '/'] <:+: guardClose s := by
  induction s with
  | nil => simp [guardClose]
  | cons c s ih =>
    rw [guardClose]
    split
    · intro h
      rw [List.infix_cons_iff, List.infix_cons_iff] at h
      rcases h with h | h | h
      · exact absurd (List.cons_prefix_cons.1 (List.cons_prefix_cons.1 h).2).1 (by decide)
      · exact absurd (List.cons_prefix_cons.1 h).1 (by decide)
      · exact ih h
    · rename_i hne
      intro h
      rcases List.infix_cons_iff.1 h with h | h
      · obtain ⟨rfl, t, ht⟩ := List.cons_prefix_cons.1 h
        refine hne ⟨rfl, ?_⟩
        rw [← head?_guardClose, ← ht]
        rfl
      · exact ih h

theorem symbols_closed (body : List Char) (h : ¬['*', '/'] <:+: body) (s : List Char) :
    symbols ("\x7b/*".toList ++ (body ++ ("*/\x7d".toList ++ s))) = .comment :: symbols s := by
  have hnone : before? ['*', '/'] body = none := by
    cases hb : before? ['*', '/'] body with
    | none => rfl
    | some b =>
      obtain ⟨rest, hrest⟩ := eq_of_before?_eq_some hb
      exact absurd ⟨b, rest, hrest.symm⟩ h
  have hbehind : behindComment (body ++ ("*/\x7d".toList ++ s)) = s := by
    have hfound := before?_append_pair (by decide) hnone ('\x7d' :: s)
    unfold behindComment
    change (match before? ['*', '/'] (body ++ '*' :: '/' :: '\x7d' :: s) with
      | some body' => (body ++ '*' :: '/' :: '\x7d' :: s).drop (body'.length + 3)
      | none => []) = s
    rw [hfound]
    simp
  change symbols ('\x7b' :: '/' :: '*' :: (body ++ ("*/\x7d".toList ++ s))) = _
  rw [symbols_cons]
  change Symbol.comment :: symbols (behindComment (body ++ ("*/\x7d".toList ++ s))) = _
  rw [hbehind]

/-- What stands between the delimiters of a comment. -/
def commentInside (body : List Char) : List Char :=
  match guardClose (strip body) with
  | [] => [' ']
  | body => ' ' :: (body ++ [' '])

theorem formatComment_eq (body : List Char) :
    formatComment body = "\x7b/*".toList ++ (commentInside body ++ "*/\x7d".toList) := by
  unfold formatComment commentInside
  cases guardClose (strip body) <;> simp

/-- Nothing inside a comment ends it. -/
theorem not_close_commentInside (body : List Char) : ¬['*', '/'] <:+: commentInside body := by
  unfold commentInside
  split
  · exact not_pair_of_not_mem (by decide)
  · rw [List.infix_cons_iff, not_or]
    refine ⟨fun h => absurd (List.cons_prefix_cons.1 h).1 (by decide), ?_⟩
    exact not_pair_append (not_close_guardClose _) (not_pair_of_not_mem (by decide)) (.inr (by decide))

/-- A comment is read as one, whatever stands in it. -/
theorem symbols_comment (body s : List Char) :
    symbols (formatComment body ++ s) = .comment :: symbols s := by
  have hclosed := symbols_closed _ (not_close_commentInside body) s
  rwa [formatComment_eq, List.append_assoc, List.append_assoc]

/-! ## Tags as symbols -/

/-- Text of a tag that is passed over on the way to the end of the tag. -/
def Passed (a : List Char) : Prop :=
  ∀ slash s, behindTag none slash (a ++ s) = behindTag none false s

theorem Passed.append {a b : List Char} (ha : Passed a) (hb : Passed b) : Passed (a ++ b) := by
  intro slash s
  rw [List.append_assoc, ha, hb]

theorem Passed.flatMap {a : List Char} (ha : Passed a) {parts : List (List Char)}
    (h : ∀ p ∈ parts, Passed (' ' :: p)) : Passed (a ++ parts.flatMap (' ' :: ·)) := by
  induction parts generalizing a with
  | nil => simpa using ha
  | cons p parts ih =>
    rw [List.flatMap_cons, ← List.append_assoc]
    exact ih (ha.append (h p (by simp))) fun q hq => h q (by simp [hq])

theorem passed_plain {a : List Char} (hne : a ≠ []) (h : ∀ c ∈ a, c ∉ ['>', '"', '\'', '/']) :
    Passed a := by
  induction a with
  | nil => exact absurd rfl hne
  | cons c a ih =>
    intro slash s
    have hc := h c (by simp)
    simp only [List.mem_cons, List.not_mem_nil, or_false, not_or] at hc
    have hslash : (c == '/') = false := by simpa using hc.2.2.2
    rw [List.cons_append, behindTag]
    simp only [hc.1, hc.2.1, hc.2.2.1, or_self, if_false, hslash]
    cases a with
    | nil => rfl
    | cons d a => exact ih (by simp) (fun x hx => h x (by simp [hx])) false s

theorem behindTag_value {q : Char} {value : List Char} (h : q ∉ value) (slash : Bool)
    (s : List Char) : behindTag (some q) slash (value ++ q :: s) = behindTag none false s := by
  induction value generalizing slash with
  | nil => simp [behindTag]
  | cons c value ih =>
    simp only [List.mem_cons, not_or] at h
    rw [List.cons_append, behindTag]
    simp only [Ne.symm h.1, if_false]
    exact ih h.2 false

theorem passed_attribute (quote : Quote) {e : Element} (hw : e.WellFormed) {a : Attribute}
    (ha : a ∈ e.attributes) : Passed (' ' :: formatAttribute quote a) := by
  obtain ⟨q, hq, henclose⟩ := quoteAttribute_enclose quote (hw.values a ha)
  have hname : Passed (' ' :: a.name ++ ['=']) := by
    refine passed_plain (by simp) fun c hc => ?_
    simp only [List.cons_append, List.mem_cons, List.mem_append, List.not_mem_nil, or_false] at hc
    rcases hc with rfl | hc | rfl
    · decide
    · have := ((hw.names a ha).2 c hc).2
      simp only [List.mem_cons, List.not_mem_nil, or_false, not_or] at this ⊢
      exact ⟨this.2.2.1, this.2.2.2.1, this.2.2.2.2.1, this.2.1⟩
    · decide
  intro slash s
  have hsplit : ' ' :: formatAttribute quote a ++ s =
      (' ' :: a.name ++ ['=']) ++ q.char :: (a.value ++ q.char :: s) := by
    simp [formatAttribute, henclose, Quote.enclose]
  rw [hsplit, hname, behindTag]
  have hmark : q.char ≠ '>' ∧ (q.char = '"' ∨ q.char = '\'') := by cases q <;> decide
  simp only [hmark.1, hmark.2, if_false, if_true]
  exact behindTag_value hq _ s

theorem passed_extra {x : List Char} (h : isAttributeName x = true) : Passed (' ' :: x) := by
  simp only [isAttributeName, Bool.and_eq_true, List.all_eq_true] at h
  refine passed_plain (by simp) fun c hc => ?_
  rcases List.mem_cons.1 hc with rfl | hc
  · decide
  · have hne := (isAttributeChar_iff.1 (h.2 c hc)).2
    simp only [List.mem_cons, List.not_mem_nil, or_false, not_or]
    simp only [ne_eq] at hne
    tauto

section
variable (quote : Quote) {e : Element} {extra : List (List Char)} (hw : e.WellFormed)
  (hx : ∀ x ∈ extra, isAttributeName x = true)
include hw

theorem tag_facts : e.tag ≠ [] ∧ ∀ c ∈ e.tag, isNameChar c = true := by
  obtain ⟨c, s, htag, hc, hs⟩ := hw.tag
  rw [htag]
  exact ⟨by simp, fun d hd => (List.mem_cons.1 hd).elim (fun h => h ▸ isNameChar_of_isNameStart hc) (hs d)⟩

include hx

/-- The text of a start tag behind its first character is passed over. -/
theorem passed_startTag :
    Passed (e.tag ++ (e.attributes.map (formatAttribute quote) ++ extra).flatMap (' ' :: ·)) := by
  obtain ⟨hne, hname⟩ := tag_facts hw
  refine (passed_plain hne fun c hc => ?_).flatMap fun p hp => ?_
  · have hc := hname c hc
    simp only [List.mem_cons, List.not_mem_nil, or_false, not_or]
    refine ⟨?_, ?_, ?_, ?_⟩ <;>
    · rintro rfl
      cases hc
  · rcases List.mem_append.1 hp with hp | hp
    · obtain ⟨a, ha, rfl⟩ := List.mem_map.1 hp
      exact passed_attribute quote hw ha
    · exact passed_extra (hx p hp)

/-- A start tag is read as one, whatever stands in its attributes. -/
theorem symbols_startTag (ending : List Char) {s : List Char} {closed : Bool} {d : Char}
    (hd : (ending ++ s).head? = some d) (hname : isNameChar d = false)
    (hbehind : behindTag none false (ending ++ s) = (closed, s)) :
    symbols (startTag quote e extra ++ (ending ++ s)) = .startTag e.tag closed :: symbols s := by
  obtain ⟨hne, htag⟩ := tag_facts hw
  obtain ⟨c, t, hct⟩ := List.exists_cons_of_ne_nil hne
  have hslash : c ≠ '/' := by
    rintro rfl
    cases htag '/' (by simp [hct])
  have hpassed := passed_startTag quote hw hx false (ending ++ s)
  rw [hbehind] at hpassed
  have htake : (e.tag ++ ((e.attributes.map (formatAttribute quote) ++ extra).flatMap (' ' :: ·) ++
      (ending ++ s))).takeWhile isNameChar = e.tag := by
    rw [List.takeWhile_append_of_pos htag]
    cases e.attributes.map (formatAttribute quote) ++ extra with
    | nil =>
      obtain ⟨u, hu⟩ := List.head?_eq_some_iff.1 hd
      simp [hu, hname]
    | cons part parts =>
      have hspace : isNameChar ' ' = false := by decide
      simp [hspace]
  rw [startTag, List.cons_append, List.cons_append, symbols_cons]
  rw [List.append_assoc] at hpassed ⊢
  generalize (e.attributes.map (formatAttribute quote) ++ extra).flatMap (' ' :: ·) ++ (ending ++ s) =
    rest at hpassed htake ⊢
  rw [hct, List.cons_append] at hpassed htake ⊢
  have hat : symbolAt '<' (c :: (t ++ rest)) =
      (.startTag ((c :: (t ++ rest)).takeWhile isNameChar) (behindTag none false (c :: (t ++ rest))).1,
        (behindTag none false (c :: (t ++ rest))).2) := by
    unfold symbolAt
    rw [if_neg (by decide), if_pos rfl]
    split
    · rename_i h
      exact absurd (List.cons.inj h).1 hslash
    · rfl
  rw [hat, hpassed, htake]

omit hx in
theorem symbols_endTag (s : List Char) : symbols (endTag e.tag ++ s) = .endTag e.tag :: symbols s := by
  obtain ⟨-, htag⟩ := tag_facts hw
  have hangle : ∀ c ∈ e.tag, (c != '>') = true := by
    intro c hc
    rw [bne_iff_ne]
    rintro rfl
    cases htag '>' hc
  have htake : (e.tag ++ '>' :: s).takeWhile isNameChar = e.tag := by
    have hstop : isNameChar '>' = false := by decide
    rw [List.takeWhile_append_of_pos htag]
    simp [hstop]
  have hdrop : ((e.tag ++ '>' :: s).dropWhile (· != '>')).drop 1 = s := by
    rw [List.dropWhile_append_of_pos hangle]
    simp
  have hat : symbolAt '<' ('/' :: (e.tag ++ '>' :: s)) =
      (.endTag ((e.tag ++ '>' :: s).takeWhile isNameChar),
        ((e.tag ++ '>' :: s).dropWhile (· != '>')).drop 1) := by
    unfold symbolAt
    rw [if_neg (by decide), if_pos rfl]
    rfl
  have htext : endTag e.tag ++ s = '<' :: '/' :: (e.tag ++ '>' :: s) := by simp [endTag]
  rw [htext, symbols_cons, hat, htake, hdrop]

end

/-! ## The pieces of nodes -/

/-- Text that is read as these pieces, and as nothing inside of another element. -/
structure Pieced (a : List Char) (ps : List Piece) : Prop where
  outside : ∀ s, pieces 0 (symbols (a ++ s)) = ps ++ pieces 0 (symbols s)
  inside : ∀ depth s, pieces (depth + 1) (symbols (a ++ s)) = pieces (depth + 1) (symbols s)

theorem pieced_nil : Pieced [] [] := ⟨fun _ => rfl, fun _ _ => rfl⟩

theorem Pieced.append {a b : List Char} {ps qs : List Piece} (ha : Pieced a ps) (hb : Pieced b qs) :
    Pieced (a ++ b) (ps ++ qs) := by
  refine ⟨fun s => ?_, fun depth s => ?_⟩
  · rw [List.append_assoc, ha.outside, hb.outside, List.append_assoc]
  · rw [List.append_assoc, ha.inside, hb.inside]

theorem pieced_container (c : Char) : Pieced (container c) [.contained c] := by
  refine ⟨fun s => ?_, fun depth s => ?_⟩
  · rw [symbols_container, pieces]
    rfl
  · rw [symbols_container, pieces]
    all_goals simp

theorem pieced_comment (body : List Char) : Pieced (formatComment body) [.comment] := by
  refine ⟨fun s => ?_, fun depth s => ?_⟩
  · rw [symbols_comment, pieces]
    rfl
  · rw [symbols_comment, pieces]
    all_goals simp

theorem pieced_char {c : Char} (hbrace : c ≠ '\x7b') (hangle : c ≠ '<') : Pieced [c] [.char c] := by
  refine ⟨fun s => ?_, fun depth s => ?_⟩
  · rw [List.singleton_append, symbols_char hbrace hangle, pieces]
    rfl
  · rw [List.singleton_append, symbols_char hbrace hangle, pieces]
    all_goals simp

theorem pieced_text {a : List Char} (h : ∀ c ∈ a, c ≠ '\x7b' ∧ c ≠ '<') : Pieced a (a.map .char) := by
  induction a with
  | nil => exact pieced_nil
  | cons c a ih =>
    obtain ⟨hbrace, hangle⟩ := h c (by simp)
    exact (pieced_char hbrace hangle).append (ih fun d hd => h d (by simp [hd]))

/-- A character of text as a piece. -/
def textPiece (c : Char) : Piece := if isSpecial c then .contained c else .char c

theorem pieced_containSpecial (s : List Char) : Pieced (containSpecial s) (s.map textPiece) := by
  induction s with
  | nil => exact pieced_nil
  | cons c s ih =>
    rw [containSpecial_cons, List.map_cons, textPiece, ← List.singleton_append (l := s.map textPiece)]
    refine Pieced.append ?_ ih
    cases hc : isSpecial c with
    | true => exact pieced_container c
    | false =>
      refine pieced_char ?_ ?_ <;>
      · rintro rfl
        cases hc

/-- Whether text among other nodes has a separating space before it. -/
def leads (first last : Bool) (s : List Char) : Bool :=
  !first && if isBlankText s then !last && !s.contains '\n' else s.head?.any isBlank

/-- Whether text among other nodes has a separating space behind it. -/
def trails (last : Bool) (s : List Char) : Bool :=
  !last && !isBlankText s && s.getLast?.any isBlank

theorem mixedText_eq (first last : Bool) (s : List Char) :
    mixedText first last s =
      (if leads first last s then container ' ' else []) ++ escapeText s ++
        (if trails last s then container ' ' else []) := by
  unfold mixedText leads trails
  cases hs : isBlankText s with
  | true =>
    rw [escapeText_eq_nil.2 hs]
    simp [and_assoc]
  | false => simp

/-- The pieces of text among other nodes. -/
def mixedPieces (first last : Bool) (s : List Char) : List Piece :=
  (if leads first last s then [.contained ' '] else []) ++ (spaced s).map textPiece ++
    (if trails last s then [.contained ' '] else [])

theorem pieced_mixedText (first last : Bool) (s : List Char) :
    Pieced (mixedText first last s) (mixedPieces first last s) := by
  have hsep : ∀ b : Bool, Pieced (if b then container ' ' else []) (if b then [.contained ' '] else []) := by
    intro b
    cases b with
    | true => exact pieced_container ' '
    | false => exact pieced_nil
  rw [mixedText_eq, mixedPieces]
  exact ((hsep _).append (pieced_containSpecial _)).append (hsep _)

/-- The pieces of a line break and the indentation behind it. -/
def margin (pad : List Char) : List Piece := .char '\n' :: pad.map .char

/-- The pieces of a child of an element at `level`. -/
def nodePieces (level : Int) (first last : Bool) : Node → List Piece
  | .element tag _ _ => margin (indentation (level + 1)) ++ [.element tag]
  | .comment _ => margin (indentation level ++ indentUnit) ++ [.comment]
  | .text s =>
    if mixedText first last s = [] then []
    else margin (indentation level ++ indentUnit) ++ mixedPieces first last s

/-- The pieces of the children of an element at `level`. -/
def childPieces (level : Int) (first : Bool) : List Node → List Piece
  | [] => []
  | n :: ns => nodePieces level first ns.isEmpty n ++ childPieces level false ns

theorem pieced_margin {pad : List Char} (h : ∀ c ∈ pad, c = ' ') : Pieced ('\n' :: pad) (margin pad) := by
  refine pieced_text (a := '\n' :: pad) fun c hc => ?_
  rcases List.mem_cons.1 hc with rfl | hc
  · decide
  · rw [h c hc]
    decide

theorem mem_indentation_unit (level : Int) : ∀ c ∈ indentation level ++ indentUnit, c = ' ' :=
  fun _ h => (List.mem_append.1 h).elim mem_indentation fun hc => List.eq_of_mem_replicate (n := 2) hc

section
variable (quote : Quote) {level : Int} {e : Element} (hw : e.WellFormed) {inner : List Char}
include hw

theorem symbols_opened {extra : List (List Char)} (hx : ∀ x ∈ extra, isAttributeName x = true)
    (s : List Char) :
    symbols (startTag quote e extra ++ '>' :: s) = .startTag e.tag false :: symbols s :=
  symbols_startTag quote hw hx ['>'] rfl (by decide) rfl

/-- An element is one piece, whatever it holds. -/
theorem pieced_elementText (hinner : isMixed e = true → ∃ ps, Pieced inner ps) :
    Pieced (elementText quote level [] e inner) [.element e.tag] := by
  have hx : ∀ x ∈ ([] : List (List Char)), isAttributeName x = true := by simp
  -- an element around text that is read as nothing inside of it
  have haround : ∀ {a : List Char} {ps : List Piece}, Pieced a ps →
      Pieced (startTag quote e [] ++ '>' :: (a ++ endTag e.tag)) [.element e.tag] := by
    intro a ps ha
    have hsplit : ∀ s, startTag quote e [] ++ '>' :: (a ++ endTag e.tag) ++ s =
        startTag quote e [] ++ '>' :: (a ++ (endTag e.tag ++ s)) := by simp
    refine ⟨fun s => ?_, fun depth s => ?_⟩
    · rw [hsplit, symbols_opened quote hw hx, pieces]
      simp only [Bool.false_eq_true, if_false]
      rw [ha.inside, symbols_endTag hw, pieces]
      rfl
    · rw [hsplit, symbols_opened quote hw hx, pieces]
      simp only [Bool.false_eq_true, if_false]
      rw [ha.inside, symbols_endTag hw, pieces]
  unfold elementText
  split
  · refine ⟨fun s => ?_, fun depth s => ?_⟩
    · rw [List.append_assoc, symbols_startTag quote hw hx " />".toList rfl (by decide) rfl,
        pieces]
      rfl
    · rw [List.append_assoc, symbols_startTag quote hw hx " />".toList rfl (by decide) rfl,
        pieces]
      rfl
  split
  · exact haround (pieced_containSpecial _)
  · rename_i hmixed
    obtain ⟨ps, hps⟩ := hinner (by simpa [isMixed] using hmixed)
    have hpad : ∀ c ∈ indentation level, c = ' ' := fun c => mem_indentation
    have hall := haround (hps.append (pieced_margin hpad))
    simpa using hall

end

/-- **The pieces that the lines of nodes are read as.** -/
theorem pieced_childLines (quote : Quote) :
    ∀ (level : Int) (first : Bool) (ns : List Node), (∀ e ∈ Node.elementsOf ns, e.WellFormed) →
      Pieced (block (childLines quote level first ns)) (childPieces level first ns)
  | level, first, [], _ => pieced_nil
  | level, first, .element tag attributes children :: ns, he => by
    have hw := he ⟨tag, attributes, children⟩ (by simp [Node.elementsOf, Node.elements])
    have hinner := pieced_childLines quote (level + 1) true children
      (fun e hm => he e (by simp [Node.elementsOf, Node.elements, hm]))
    have hrest := pieced_childLines quote level false ns fun e hm => he e (by simp [Node.elementsOf, hm])
    rw [childLines, nodeLines, block_append, block_framed, childPieces, nodePieces]
    refine Pieced.append ?_ hrest
    exact (pieced_margin fun c => mem_indentation).append
      (pieced_elementText quote hw fun _ => ⟨_, hinner⟩)
  | level, first, .comment body :: ns, he => by
    have hrest := pieced_childLines quote level false ns
      fun e hm => he e (by simpa [Node.elementsOf, Node.elements] using hm)
    rw [childLines, nodeLines, block_append, childPieces, nodePieces]
    refine Pieced.append ?_ hrest
    have hline := (pieced_margin (mem_indentation_unit level)).append (pieced_comment body)
    simpa [block] using hline
  | level, first, .text s :: ns, he => by
    have hrest := pieced_childLines quote level false ns
      fun e hm => he e (by simpa [Node.elementsOf, Node.elements] using hm)
    rw [childLines, nodeLines, block_append, childPieces, nodePieces]
    refine Pieced.append ?_ hrest
    split
    · rename_i hnil
      rw [if_pos hnil]
      exact pieced_nil
    · rename_i hne
      rw [if_neg hne]
      have hline := (pieced_margin (mem_indentation_unit level)).append
        (pieced_mixedText first ns.isEmpty s)
      simpa [block] using hline

theorem symbols_spaces {pad : List Char} (h : ∀ c ∈ pad, c = ' ') (s : List Char) :
    symbols (pad ++ s) = pad.map .char ++ symbols s := by
  induction pad with
  | nil => rfl
  | cons c pad ih =>
    obtain rfl := h c (by simp)
    rw [List.cons_append, symbols_char (by decide) (by decide), ih fun d hd => h d (by simp [hd])]
    rfl

/-- **What the lines of an element with mixed content show**: what the pieces of its children do. -/
theorem reading_lines (quote : Quote) (level : Int) {e : Element}
    (he : ∀ e' ∈ e.elements, e'.WellFormed) {extra : List (List Char)}
    (hx : ∀ x ∈ extra, isAttributeName x = true) (hmixed : isMixed e = true) :
    reading (joinLines (lines quote level extra e)) =
      render false [] (childPieces level true e.children ++ margin (indentation level)) := by
  have hw : e.WellFormed := he e (by simp [Element.elements, Element.node, Node.elements])
  have hchildren := pieced_childLines quote level true e.children fun e' hm =>
    he e' (by simp [Element.elements, Element.node, Node.elements, hm])
  have htext : e.children.all isTextNode = false := by simpa [isMixed] using hmixed
  have hblank : e.children.all isBlankNode = false := by
    refine Bool.eq_false_iff.2 fun h => ?_
    rw [isTextNode_of_isBlankNode h] at htext
    cases htext
  have hpad : ∀ c ∈ indentation level, c = ' ' := fun c => mem_indentation
  have hend : pieces 0 (symbols ('\n' :: indentation level ++ endTag e.tag)) =
      margin (indentation level) := by
    have hread := (pieced_margin hpad).outside (endTag e.tag ++ [])
    rw [symbols_endTag hw, pieces, List.append_nil, List.append_nil] at hread
    exact hread
  rw [lines_eq_framed, joinLines_framed]
  simp only [elementText, htext, hblank, Bool.false_eq_true, if_false]
  unfold reading
  rw [symbols_spaces hpad, symbols_opened quote hw hx, List.dropWhile_append_of_pos (by simp [Symbol.isChar])]
  simp only [Symbol.isChar, List.dropWhile_cons, Bool.false_eq_true, if_false]
  rw [hchildren.outside, hend]

end SvgComponent.Jsx
