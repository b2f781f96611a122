import SvgComponent.Proofs.Outline
import SvgComponent.Proofs.ParsedTree
import SvgComponent.Proofs.TokenGrammar

/-!
# Nothing is lost, doubled or moved

Read in document order, a tree is the list of what its text says: one row for each start tag, text run
and comment between the start tag of the root and the lexeme that closes it, whatever is missing or too
much there.

* `Row.ofLexemes`: the rows that lexemes stand for, each lexeme by itself.
* `Nesting`, `rootSection`: which lexemes belong to the root. Only the tags of open elements are kept to
  tell which one closes it.
* `openRows`: the rows of a tree under construction, along the path of its open elements. Closing
  elements does not change them (`openRows_closeThrough`), and everything else adds rows at their end.
* `rows_parse`: the rows of a tree are those of the lexemes of its root.
-/

namespace SvgComponent.Markup

open Text

/-! ## Rows of a tree -/

mutual

/-- The rows of a node and of all below it, parents before children. -/
def Node.listing : Node → List Row
  | .element tag attributes children => .element tag attributes :: Node.listingOf children
  | .text content => [.text content]
  | .comment body => [.comment body]

/-- The rows of siblings. -/
def Node.listingOf : List Node → List Row
  | [] => []
  | n :: ns => n.listing ++ Node.listingOf ns

end

mutual

theorem Node.map_rows (depth : Nat) : ∀ n : Node, (n.rows depth).map Prod.snd = n.listing
  | .element tag attributes children => by
    simp only [Node.rows, Node.listing, List.map_cons, Node.map_rowsOf (depth + 1) children]
  | .text _ => rfl
  | .comment _ => rfl

theorem Node.map_rowsOf (depth : Nat) :
    ∀ ns : List Node, (Node.rowsOf depth ns).map Prod.snd = Node.listingOf ns
  | [] => rfl
  | n :: ns => by
    simp only [Node.rowsOf, Node.listingOf, List.map_append, Node.map_rows depth n,
      Node.map_rowsOf depth ns]

end

theorem listingOf_append (ns ms : List Node) :
    Node.listingOf (ns ++ ms) = Node.listingOf ns ++ Node.listingOf ms := by
  induction ns with
  | nil => rfl
  | cons n ns ih => simp [Node.listingOf, ih]

/-- The rows of open elements, innermost first, and of their finished children. -/
def openRows : List Element → List Row
  | [] => []
  | e :: es => openRows es ++ .element e.tag e.attributes :: Node.listingOf e.children

theorem openRows_append (e : Element) (n : Node) (es : List Element) :
    openRows (e.append n :: es) = openRows (e :: es) ++ n.listing := by
  simp [openRows, Element.append, listingOf_append, Node.listingOf]

theorem addChild_ne_nil {es : List Element} (h : es ≠ []) (n : Node) : addChild n es ≠ [] := by
  cases es with
  | nil => exact absurd rfl h
  | cons e es => exact List.cons_ne_nil _ _

theorem openRows_addChild {es : List Element} (h : es ≠ []) (n : Node) :
    openRows (addChild n es) = openRows es ++ n.listing := by
  cases es with
  | nil => exact absurd rfl h
  | cons e es => exact openRows_append e n es

theorem openRows_close (e p : Element) (ps : List Element) :
    openRows (p.append e.node :: ps) = openRows (e :: p :: ps) := by
  rw [openRows_append]
  simp [openRows, Element.node, Node.listing]

/-- The innermost element of a name is closed with all inside it, and no row changes. -/
theorem closeThrough_eq_some {name : List Char} {e : Element} {ps : List Element} {e' : Element}
    {rest : List Element} (h : closeThrough name e ps = some (e', rest)) :
    ((e :: ps).map Element.tag).dropWhile (· ≠ name) = name :: rest.map Element.tag ∧
      openRows (e' :: rest) = openRows (e :: ps) := by
  induction ps generalizing e with
  | nil =>
    rw [closeThrough] at h
    split at h
    · rename_i ht
      cases h
      exact ⟨by simp [ht], rfl⟩
    · cases h
  | cons p ps ih =>
    rw [closeThrough] at h
    split at h
    · rename_i ht
      cases h
      exact ⟨by simp [ht], rfl⟩
    · rename_i ht
      obtain ⟨hd, hr⟩ := ih h
      refine ⟨?_, hr.trans (openRows_close e p ps)⟩
      rw [List.map_cons, List.dropWhile_cons_of_pos (by simpa using ht)]
      exact hd

theorem closeThrough_eq_none {name : List Char} {e : Element} {ps : List Element}
    (h : closeThrough name e ps = none) : name ∉ (e :: ps).map Element.tag := by
  induction ps generalizing e with
  | nil =>
    rw [closeThrough] at h
    split at h
    · cases h
    · rename_i ht
      simpa using Ne.symm ht
  | cons p ps ih =>
    rw [closeThrough] at h
    split at h
    · cases h
    · rename_i ht
      rw [List.map_cons, List.mem_cons, not_or]
      have hp : name ∉ (p.append e.node :: ps).map Element.tag := ih h
      exact ⟨Ne.symm ht, hp⟩

/-! ## Rows of lexemes -/

/-- The attributes that lexemes start with. -/
def leadingAttributes : List Lexeme → List Attribute
  | .attribute name value :: ls => ⟨name, value⟩ :: leadingAttributes ls
  | _ => []

/-- The attributes without those whose name an earlier one has. -/
def keepFirst : List Attribute → List Attribute
  | [] => []
  | a :: as => a :: (keepFirst as).filter (·.name != a.name)

/-- The rows that lexemes stand for: a start tag with the attributes behind it, a text run or a comment
each make one, and nothing else makes any. -/
def Row.ofLexemes : List Lexeme → List Row
  | [] => []
  | .openTag name :: ls => .element name (keepFirst (leadingAttributes ls)) :: Row.ofLexemes ls
  | .text content :: ls => .text content :: Row.ofLexemes ls
  | .cdata content :: ls => .text content :: Row.ofLexemes ls
  | .comment body :: ls => .comment body :: Row.ofLexemes ls
  | _ :: ls => Row.ofLexemes ls

theorem ofLexemes_ending {l : Lexeme} (h : l.isEnding = true) : Row.ofLexemes [l] = [] := by
  cases l <;> first | rfl | cases h

theorem foldl_addAttribute_eq (acc as : List Attribute) :
    as.foldl addAttribute acc = acc ++ (keepFirst as).filter (!hasAttribute ·.name acc) := by
  induction as generalizing acc with
  | nil => simp [keepFirst]
  | cons a as ih =>
    rw [List.foldl_cons, ih, addAttribute, keepFirst]
    split
    · rename_i ha
      -- a name that is there already hides all later ones
      rw [List.filter_cons_of_neg (by simp [ha]), List.filter_filter]
      congr 1
      refine List.filter_congr fun b _ => ?_
      by_cases hb : b.name = a.name
      · simp [hb, ha]
      · simp [hb]
    · rename_i ha
      rw [List.filter_cons_of_pos (by simpa using ha), List.filter_filter, List.append_assoc,
        List.singleton_append]
      congr 2
      refine List.filter_congr fun b _ => ?_
      simp [hasAttribute, bne, Bool.and_comm, Bool.beq_comm]

theorem firsts_eq_keepFirst (as : List Attribute) : firsts as = keepFirst as := by
  rw [firsts, foldl_addAttribute_eq]
  simp [hasAttribute]

/-! ## The lexemes of the root -/

/-- The tags of the open elements, innermost first, and the tag of the last start tag. -/
structure Nesting where
  opened : List (List Char) := []
  current : List Char := []

/-- The effect of a lexeme: a complete start tag opens an element unless it is void or closes itself, and
a close tag closes the innermost element of its name with all inside it, if there is one. -/
def Nesting.next (n : Nesting) : Lexeme → Nesting
  | .openTag name => { n with current := name }
  | .tagEnd => if isVoid n.current then n else { n with opened := n.current :: n.opened }
  | .closeTag name =>
    if name ∈ n.opened then { n with opened := (n.opened.dropWhile (· ≠ name)).tail } else n
  | _ => n

/-- Whether the lexeme ends something and leaves no element open. -/
def Nesting.closesAt (n : Nesting) (l : Lexeme) : Bool := l.isEnding && (n.next l).opened.isEmpty

/-- The lexemes up to the one that leaves no element open, this one included. -/
def Nesting.upToClose (n : Nesting) : List Lexeme → Option (List Lexeme)
  | [] => none
  | l :: ls => if n.closesAt l then some [l] else ((n.next l).upToClose ls).map (l :: ·)

/-- The lexemes of the root, from the first start tag of that name up to the lexeme that closes it. That
start tag is completed if anything but attributes follows it: one that is not is the last in its text. -/
def rootSection (ls : List Lexeme) : Option (List Lexeme) :=
  Nesting.upToClose {} (ls.dropWhile (· ≠ .openTag rootTag))

theorem upToClose_cons {n : Nesting} {l : Lexeme} (h : n.closesAt l = false) (ls : List Lexeme) :
    n.upToClose (l :: ls) = ((n.next l).upToClose ls).map (l :: ·) := by
  rw [Nesting.upToClose, if_neg (by simp [h])]

/-- The section has all attributes of the start tag it starts in. -/
theorem leadingAttributes_of_upToClose {n : Nesting} {ls inside : List Lexeme}
    (h : n.upToClose ls = some inside) : leadingAttributes inside = leadingAttributes ls := by
  induction ls generalizing n inside with
  | nil => cases h
  | cons l ls ih =>
    rw [Nesting.upToClose] at h
    split at h
    · rename_i hc
      cases h
      cases l <;> first | rfl | cases hc
    · obtain ⟨rest, hr, rfl⟩ := Option.map_eq_some_iff.1 h
      cases l with
      | «attribute» name value => rw [leadingAttributes, leadingAttributes, ih hr]
      | _ => rfl

/-! ## Building the root -/

/-- The row of the start tag being read, given the lexemes behind it. -/
def Builder.pendingRow (b : Builder) (ls : List Lexeme) : List Row :=
  match b.pending with
  | none => []
  | some e => [.element e.tag ((leadingAttributes ls).foldl addAttribute e.attributes)]

/-- The builder has the elements open that the nesting says. In content at least the root is open; inside
a start tag that tag is pending, and it is the root's own if nothing is open. -/
structure Nesting.Tracks (n : Nesting) (mode : Mode) (b : Builder) : Prop where
  opened : b.opened.map Element.tag = n.opened
  content : mode = .content → b.pending = none ∧ b.opened ≠ []
  tag : mode = .tag → ∃ e, b.pending = some e ∧ e.tag = n.current ∧ e.children = [] ∧
    (b.opened = [] → e.tag = rootTag)

theorem start_open {b : Builder} {e : Element} (h : b.opened = [] → e.tag = rootTag) :
    b.start e true = .more { opened := e :: b.opened } := by
  obtain ⟨opened, pending⟩ := b
  cases opened with
  | nil => simp [Builder.start, h rfl]
  | cons p ps => rfl

theorem start_root {b : Builder} {e : Element} (hb : b.opened = []) (he : e.tag = rootTag) :
    b.start e false = .done e := by
  simp [Builder.start, hb, he]

theorem start_leaf {b : Builder} (h : b.opened ≠ []) (e : Element) :
    b.start e false = .more { opened := addChild e.node b.opened } := by
  obtain ⟨opened, pending⟩ := b
  cases opened with
  | nil => exact absurd rfl h
  | cons p ps => rfl

theorem listing_leaf {e : Element} (h : e.children = []) :
    e.node.listing = [.element e.tag e.attributes] := by
  simp [Element.node, Node.listing, h, Node.listingOf]

/-- What one lexeme does to a builder: it finishes the root exactly where the nesting says, with all rows
in it, or the builder goes on with the row of the lexeme added. -/
def Nesting.Effect (n : Nesting) (b : Builder) (l : Lexeme) (mode : Mode) : Prop :=
  (n.closesAt l = true ∧ ∃ root, b.feed l = .done root ∧
    ∀ ls, root.node.listing = openRows b.opened ++ b.pendingRow (l :: ls)) ∨
  (n.closesAt l = false ∧ ∃ b', b.feed l = .more b' ∧ (n.next l).Tracks mode b' ∧
    ∀ ls inside, leadingAttributes inside = leadingAttributes ls →
      openRows b'.opened ++ b'.pendingRow ls ++ Row.ofLexemes inside =
        openRows b.opened ++ b.pendingRow (l :: ls) ++ Row.ofLexemes (l :: inside))

section
variable {n : Nesting} {b : Builder}

/-- Text and comments become children of the innermost open element. -/
theorem Nesting.Tracks.child (h : n.Tracks .content b) {l : Lexeme} {child : Node} {row : Row}
    (hf : b.feed l = .more { b with opened := addChild child b.opened }) (hn : n.next l = n)
    (hl : l.isEnding = false) (hrow : child.listing = [row])
    (hls : ∀ ls, Row.ofLexemes (l :: ls) = row :: Row.ofLexemes ls) : n.Effect b l .content := by
  obtain ⟨hp, hne⟩ := h.content rfl
  refine .inr ⟨by simp [Nesting.closesAt, hl], _, hf, ?_, fun ls inside _ => ?_⟩
  · rw [hn]
    exact ⟨(addChild_tags _ _).trans h.opened, fun _ => ⟨hp, addChild_ne_nil hne _⟩, by simp⟩
  · simp [Builder.pendingRow, hp, openRows_addChild hne, hrow, hls]

theorem Nesting.Tracks.openTag (h : n.Tracks .content b) (name : List Char) :
    n.Effect b (.openTag name) .tag := by
  obtain ⟨hp, hne⟩ := h.content rfl
  refine .inr ⟨rfl, _, rfl, ⟨h.opened, by simp, fun _ => ⟨_, rfl, rfl, rfl, ?_⟩⟩, ?_⟩
  · exact fun ho => absurd ho hne
  · intro ls inside hi
    simp only [Builder.pendingRow, hp, Row.ofLexemes, hi, ← firsts_eq_keepFirst]
    simp [firsts]

theorem Nesting.Tracks.attribute (h : n.Tracks .tag b) (name value : List Char) :
    n.Effect b (.attribute name value) .tag := by
  obtain ⟨e, hp, ht, hc, hr⟩ := h.tag rfl
  have hf : b.feed (.attribute name value) = .more ⟨b.opened,
      some ⟨e.tag, addAttribute e.attributes ⟨name, value⟩, e.children⟩⟩ := by
    simp [Builder.feed, hp]
  refine .inr ⟨rfl, _, hf, ⟨h.opened, by simp, fun _ => ⟨_, rfl, ht, hc, hr⟩⟩, fun ls inside _ => ?_⟩
  simp [Builder.pendingRow, hp, leadingAttributes, Row.ofLexemes]

/-- A start tag that opens an element. -/
theorem Nesting.Tracks.tagOpen (h : n.Tracks .tag b) (hv : isVoid n.current = false) :
    n.Effect b .tagEnd .content := by
  obtain ⟨e, hp, ht, hc, hr⟩ := h.tag rfl
  have hf : b.feed .tagEnd = .more { opened := e :: b.opened } := by
    simp only [Builder.feed, hp, ht, hv, Bool.not_false]
    exact start_open hr
  have hn : n.next .tagEnd = { n with opened := n.current :: n.opened } := by
    simp [Nesting.next, hv]
  refine .inr ⟨by simp [Nesting.closesAt, hn], _, hf, ?_, fun ls inside _ => ?_⟩
  · rw [hn]
    exact ⟨by simp [ht, h.opened], by simp, by simp⟩
  · simp [Builder.pendingRow, hp, openRows, hc, Node.listingOf, leadingAttributes, Row.ofLexemes]

/-- A start tag of an element that has no children. -/
theorem Nesting.Tracks.tagLeaf (h : n.Tracks .tag b) {l : Lexeme} {e : Element}
    (hp : b.pending = some e) (hf : b.feed l = b.start e false) (hn : n.next l = n)
    (hl : l.isEnding = true) (hls : ∀ ls, Row.ofLexemes (l :: ls) = Row.ofLexemes ls)
    (hlead : ∀ ls, leadingAttributes (l :: ls) = []) : n.Effect b l .content := by
  obtain ⟨e', hp', ht, hc, hr⟩ := h.tag rfl
  obtain rfl : e = e' := by simpa [hp] using hp'
  have hrow : ∀ ls, b.pendingRow (l :: ls) = e.node.listing := fun ls => by
    simp [Builder.pendingRow, hp, hlead, listing_leaf hc]
  by_cases ho : b.opened = []
  · refine .inl ⟨?_, e, hf.trans (start_root ho (hr ho)), fun ls => ?_⟩
    · simp [Nesting.closesAt, hl, hn, ← h.opened, ho]
    · rw [ho, hrow]
      rfl
  · refine .inr ⟨?_, _, hf.trans (start_leaf ho e), ?_, fun ls inside _ => ?_⟩
    · simp [Nesting.closesAt, hn, ← h.opened, ho]
    · rw [hn]
      exact ⟨(addChild_tags _ _).trans h.opened, fun _ => ⟨rfl, addChild_ne_nil ho _⟩, by simp⟩
    · rw [hrow, hls, openRows_addChild ho]
      simp [Builder.pendingRow]

theorem Nesting.Tracks.closeTag (h : n.Tracks .content b) (name : List Char) :
    n.Effect b (.closeTag name) .content := by
  obtain ⟨hp, hne⟩ := h.content rfl
  obtain ⟨e, ps, hb⟩ := List.exists_cons_of_ne_nil hne
  have ho := h.opened
  rw [hb] at ho
  have hrow : ∀ ls, b.pendingRow ls = [] := by simp [Builder.pendingRow, hp]
  cases hc : closeThrough name e ps with
  | none =>
    have hn : n.next (.closeTag name) = n := by
      rw [Nesting.next, if_neg]
      rw [← ho]
      exact closeThrough_eq_none hc
    refine .inr ⟨?_, b, ?_, ?_, fun ls inside _ => ?_⟩
    · simp [Nesting.closesAt, hn, ← ho]
    · simp [Builder.feed, Builder.close, hb, hc]
    · rwa [hn]
    · simp [hrow, Row.ofLexemes]
  | some r =>
    obtain ⟨closed, rest⟩ := r
    obtain ⟨hd, hr⟩ := closeThrough_eq_some hc
    have hn : n.next (.closeTag name) = { n with opened := rest.map Element.tag } := by
      have hmem : name ∈ n.opened := by
        rw [← ho]
        exact (List.dropWhile_sublist _).subset (hd ▸ List.mem_cons_self)
      rw [Nesting.next, if_pos hmem, ← ho, hd, List.tail_cons]
    cases rest with
    | nil =>
      refine .inl ⟨by simp [Nesting.closesAt, hn, Lexeme.isEnding], closed, ?_, fun ls => ?_⟩
      · simp [Builder.feed, Builder.close, hb, hc]
      · rw [hrow, hb, ← hr]
        simp [openRows, Element.node, Node.listing]
    | cons p ps =>
      have hf : b.feed (.closeTag name) =
          .more { b with opened := addChild closed.node (p :: ps) } := by
        simp [Builder.feed, Builder.close, hb, hc]
      refine .inr ⟨by simp [Nesting.closesAt, hn], _, hf, ?_, fun ls inside _ => ?_⟩
      · rw [hn]
        exact ⟨addChild_tags closed.node (p :: ps), fun _ => ⟨hp, by simp [addChild]⟩, by simp⟩
      · rw [hrow, hb, ← hr]
        simp [Builder.pendingRow, hp, addChild, openRows_close, Row.ofLexemes]

/-- **One lexeme.** -/
theorem Nesting.Tracks.feed {mode mode' : Mode} {l : Lexeme} (h : n.Tracks mode b)
    (hl : l.Leads mode mode') : n.Effect b l mode' := by
  cases hl with
  | text => exact h.child rfl rfl rfl rfl fun _ => rfl
  | comment => exact h.child rfl rfl rfl rfl fun _ => rfl
  | cdata => exact h.child rfl rfl rfl rfl fun _ => rfl
  | closeTag => exact h.closeTag _
  | openTag => exact h.openTag _
  | «attribute» => exact h.attribute _ _
  | tagEnd =>
    obtain ⟨e, hp, ht, -⟩ := h.tag rfl
    by_cases hv : isVoid n.current = true
    · refine h.tagLeaf hp ?_ (by simp [Nesting.next, hv]) rfl (fun _ => rfl) fun _ => rfl
      simp [Builder.feed, hp, ht, hv]
    · exact h.tagOpen (by simpa using hv)
  | selfClose =>
    obtain ⟨e, hp, -⟩ := h.tag rfl
    exact h.tagLeaf hp (by simp [Builder.feed, hp]) rfl rfl (fun _ => rfl) fun _ => rfl

/-- **All lexemes of the root.** What a builder comes to is what the nesting says, with the rows of the
lexemes behind those it has. -/
theorem Nesting.Tracks.run {mode : Mode} {ls : List Lexeme} (h : n.Tracks mode b)
    (hls : Phrase mode ls) :
    (b.run ls).toOption.map (·.node.listing) =
      (n.upToClose ls).map (openRows b.opened ++ b.pendingRow ls ++ Row.ofLexemes ·) := by
  induction hls generalizing n b with
  | nil => rfl
  | @cons mode mode' l ls hl hls ih =>
    rw [run_cons]
    rcases h.feed hl with ⟨hc, root, hf, hrows⟩ | ⟨hc, b', hf, ht, hrows⟩
    · rw [Nesting.closesAt, Bool.and_eq_true] at hc
      rw [hf, Nesting.upToClose, if_pos (by simpa [Nesting.closesAt] using hc), Option.map_some,
        ofLexemes_ending hc.1, List.append_nil, ← hrows]
      rfl
    · rw [hf, upToClose_cons hc, Progress.finish, ih ht]
      cases hi : (n.next l).upToClose ls with
      | none => rfl
      | some inside => exact congrArg some (hrows ls inside (leadingAttributes_of_upToClose hi))

end

/-! ## Before the root -/

theorem rootSection_cons {l : Lexeme} (h : l ≠ .openTag rootTag) (ls : List Lexeme) :
    rootSection (l :: ls) = rootSection ls := by
  rw [rootSection, rootSection, List.dropWhile_cons_of_pos (by simpa using h)]

/-- From the start tag of a root on, the lexemes are those of the root. -/
theorem listing_root {ls : List Lexeme} (hls : Phrase .tag ls) :
    (Builder.run ⟨[], some { tag := rootTag }⟩ ls).toOption.map (·.node.listing) =
      (rootSection (.openTag rootTag :: ls)).map Row.ofLexemes := by
  have htracks : Nesting.Tracks { current := rootTag } .tag ⟨[], some { tag := rootTag }⟩ :=
    ⟨rfl, by simp, fun _ => ⟨_, rfl, rfl, rfl, fun _ => rfl⟩⟩
  have hsection : rootSection (.openTag rootTag :: ls) =
      (Nesting.upToClose { current := rootTag } ls).map (.openTag rootTag :: ·) := by
    rw [rootSection, List.dropWhile_cons_of_neg (by simp), upToClose_cons rfl]
    rfl
  rw [htracks.run hls, hsection]
  cases hi : Nesting.upToClose { current := rootTag } ls with
  | none => rfl
  | some inside =>
    simp only [Option.map_some, Row.ofLexemes, leadingAttributes_of_upToClose hi,
      ← firsts_eq_keepFirst]
    rfl

/-- With nothing open, all is dropped up to the start tag of a root, also a start tag that is being read
when it is not a root's. -/
theorem listing_run {mode : Mode} {ls : List Lexeme} (hls : Phrase mode ls)
    {pending : Option Element} (hp : ∀ e, pending = some e → e.tag ≠ rootTag) :
    (Builder.run ⟨[], pending⟩ ls).toOption.map (·.node.listing) =
      (rootSection ls).map Row.ofLexemes := by
  induction hls generalizing pending with
  | nil => rfl
  | @cons mode mode' l ls hl hls ih =>
    have hend : ∀ e : Element, e.tag ≠ rootTag → Builder.feed ⟨[], some e⟩ .tagEnd = .more {} ∧
        Builder.feed ⟨[], some e⟩ .selfClose = .more {} := by
      intro e he
      simp [Builder.feed, Builder.start, he]
    rw [run_cons]
    cases hl with
    | text => exact ih hp
    | comment => exact ih hp
    | cdata => exact ih hp
    | closeTag => exact ih hp
    | @openTag name =>
      by_cases hname : name = rootTag
      · subst hname
        exact listing_root hls
      · rw [rootSection_cons (by simpa using hname)]
        exact ih fun e he => by cases he; exact hname
    | @«attribute» name value =>
      refine ih fun e he => ?_
      obtain ⟨e', he', rfl⟩ := Option.map_eq_some_iff.1 he
      exact hp e' he'
    | tagEnd =>
      cases pending with
      | none => exact ih hp
      | some e =>
        rw [(hend e (hp e rfl)).1]
        exact ih (by simp)
    | selfClose =>
      cases pending with
      | none => exact ih hp
      | some e =>
        rw [(hend e (hp e rfl)).2]
        exact ih (by simp)

/-- **The rows of a tree are those of the lexemes of its root**, in the order of the text, each once. A
text has a tree exactly if it has a root that is closed. -/
theorem rows_parse (s : List Char) :
    (parse s).toOption.map (·.rows.map Prod.snd) =
      (rootSection ((tokenize s).map Token.lexeme)).map Row.ofLexemes := by
  have hrows : ∀ root : Element, root.rows.map Prod.snd = root.node.listing := fun root =>
    Node.map_rows 0 root.node
  simp only [hrows]
  exact listing_run (phrase_lexemes .content s) (by simp)

-- an element that is never closed, a repeated attribute, a void element without a slash, a stray close tag
example : (rootSection ((tokenize "a<svg x=1 x=2><g>t<path></b></svg>u".toList).map Token.lexeme)).map
    Row.ofLexemes =
      some [.element "svg".toList [⟨['x'], ['1']⟩], .element ['g'] [], .text ['t'],
        .element "path".toList []] := by
  decide +kernel

end SvgComponent.Markup
