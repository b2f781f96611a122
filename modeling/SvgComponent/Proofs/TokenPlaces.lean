import SvgComponent.Proofs.ParsedTree

/-!
# Where tokens stand

Each step of the reader takes a stretch of the text. The lexeme it yields is spelled out at the start of the
stretch, and the value of an attribute stands in what the stretch holds behind the name. Stretches follow
each other, so tokens are slices of the text, in its order, that do not overlap.

* `Lexeme.spelling`: the characters that stand at the place of a lexeme.
* `Lexeme.ReadFrom`: a lexeme and the stretch it is read from; `Step.at_reads` is one step.
* `Placed`: tokens that are read from stretches of a text, one behind the other; `placed_scan` is the run,
  `Placed.exists_stretch` the stretch of each token.
* `Plain`: the text holds no `<` that starts markup, which is so exactly if all of it is read as text.
-/

namespace SvgComponent.Markup

open Text

/-! ## Lexemes and stretches -/

/-- What stands in a text at the place of a lexeme: delimiters that end it and the value of an attribute are
left out. -/
def Lexeme.spelling : Lexeme → List Char
  | .text content => content
  | .comment body => "<!--".toList ++ body
  | .cdata content => "<![CDATA[".toList ++ content
  | .openTag name => '<' :: name
  | .attribute name _ => name
  | .tagEnd => ['>']
  | .selfClose => ['/', '>']
  | .closeTag name => '<' :: '/' :: name

/-- The value of an attribute; other lexemes have none. -/
def Lexeme.value : Lexeme → List Char
  | .attribute _ value => value
  | _ => []

/-- The lexeme is read from a stretch of text: its spelling is the first thing there, and its value stands
behind it. -/
def Lexeme.ReadFrom (l : Lexeme) (stretch : List Char) : Prop :=
  ∃ behind, stretch = l.spelling ++ behind ∧ l.value <:+: behind

theorem Lexeme.readFrom_of_isPrefix {l : Lexeme} {stretch : List Char} (hv : l.value = [])
    (h : l.spelling <+: stretch) : l.ReadFrom stretch := by
  obtain ⟨behind, rfl⟩ := h
  exact ⟨behind, rfl, hv ▸ List.nil_infix⟩

theorem Lexeme.ReadFrom.append {l : Lexeme} {stretch : List Char} (h : l.ReadFrom stretch)
    (more : List Char) : l.ReadFrom (stretch ++ more) := by
  obtain ⟨behind, rfl, hv⟩ := h
  exact ⟨behind ++ more, List.append_assoc .., hv.trans (List.infix_append_left ..)⟩

/-- The lexeme that a step at the character `c` yields, if any, is read from the characters it takes. -/
def Step.Reads (step : Step) (c : Char) (s : List Char) : Prop :=
  ∀ l, step.lexeme = some l → l.ReadFrom (c :: s.take step.extra)

/-! ## Steps in content -/

/-- A construct is read from its opening and all up to its end, if its lexeme is from the body. -/
theorem Step.delimited_reads {lexeme unclosed : List Char → Option Lexeme} (opening : List Char)
    {closing s : List Char}
    (hl : ∀ body l, lexeme body = some l → l.ReadFrom ('<' :: (opening ++ body)))
    (hu : ∀ body l, unclosed body = some l → l.ReadFrom ('<' :: (opening ++ body)))
    (h : opening.isPrefixOf s = true) :
    (Step.delimited lexeme unclosed opening.length closing s).Reads '<' s := by
  obtain ⟨t, rfl⟩ := List.isPrefixOf_iff_prefix.1 h
  rw [Step.delimited, List.drop_left]
  cases hb : before? closing t with
  | none =>
    intro l h
    show l.ReadFrom ('<' :: (opening ++ t).take (opening ++ t).length)
    rw [List.take_length]
    exact hu t l h
  | some body =>
    intro l h
    obtain ⟨rest, rfl⟩ := eq_of_before?_eq_some hb
    have htake : (opening ++ (body ++ closing ++ rest)).take
        (opening.length + body.length + closing.length) = opening ++ body ++ closing := by
      rw [← List.append_assoc, ← List.append_assoc]
      exact List.take_left' (by simp [Nat.add_assoc])
    show l.ReadFrom ('<' :: (opening ++ (body ++ closing ++ rest)).take
      (opening.length + body.length + closing.length))
    rw [htake]
    exact (hl body l h).append closing

theorem closeLexeme_readFrom {body : List Char} {l : Lexeme} (h : closeLexeme body = some l) :
    l.ReadFrom ('<' :: '/' :: body) := by
  rw [closeLexeme] at h
  split at h
  · cases h
  · cases h
    refine Lexeme.readFrom_of_isPrefix rfl ?_
    exact List.cons_prefix_cons.2 ⟨rfl, List.cons_prefix_cons.2 ⟨rfl, tagName_prefix body⟩⟩

theorem Step.markup_reads (s : List Char) : (Step.markup s).Reads '<' s := by
  -- a comment and a CDATA section say all that stands behind their opening
  have hcomment : ∀ body l, some (Lexeme.comment body) = some l →
      l.ReadFrom ('<' :: ("!--".toList ++ body)) := by
    rintro body _ ⟨⟩
    exact Lexeme.readFrom_of_isPrefix rfl (List.prefix_refl _)
  have hcdata : ∀ body l, some (Lexeme.cdata body) = some l →
      l.ReadFrom ('<' :: ("![CDATA[".toList ++ body)) := by
    rintro body _ ⟨⟩
    exact Lexeme.readFrom_of_isPrefix rfl (List.prefix_refl _)
  unfold Step.markup
  split
  · exact Step.delimited_reads "!--".toList hcomment hcomment ‹_›
  split
  · exact Step.delimited_reads "![CDATA[".toList hcdata hcdata ‹_›
  split
  · exact Step.delimited_reads ['?'] (by simp) (by simp) ‹_›
  split
  · rintro l ⟨⟩
  split
  · exact Step.delimited_reads ['/'] (fun _ _ => closeLexeme_readFrom) (by simp) ‹_›
  split
  · rintro l ⟨⟩
    exact Lexeme.readFrom_of_isPrefix rfl (List.prefix_refl _)
  · rintro l ⟨⟩
    have hname := tagName_prefix s
    refine Lexeme.readFrom_of_isPrefix rfl (List.cons_prefix_cons.2 ⟨rfl, ?_⟩)
    exact List.prefix_take_iff.2 ⟨hname, Nat.le_refl _⟩

theorem Step.content_reads (c : Char) (s : List Char) : (Step.content c s).Reads c s := by
  unfold Step.content
  split
  · rename_i hc
    exact hc ▸ Step.markup_reads s
  · rintro l ⟨⟩
    have htext := List.takeWhile_prefix (l := s) (· ≠ '<')
    refine Lexeme.readFrom_of_isPrefix rfl (List.cons_prefix_cons.2 ⟨rfl, ?_⟩)
    exact List.prefix_take_iff.2 ⟨htext, Nat.le_refl _⟩

/-! ## Steps inside a start tag -/

theorem isPrefix_bareValue (s : List Char) : bareValue s <+: s := by
  induction s with
  | nil => exact List.nil_prefix
  | cons c s ih =>
    rw [bareValue]
    split
    · exact List.nil_prefix
    · exact List.cons_prefix_cons.2 ⟨rfl, ih⟩

/-- The first characters of a text that reach beyond a run it starts with. -/
theorem take_length_takeWhile_add (p : Char → Bool) (s : List Char) (n : Nat) :
    s.take ((s.takeWhile p).length + n) = s.takeWhile p ++ (s.dropWhile p).take n := by
  have hrun : s.takeWhile p = s.take (s.takeWhile p).length :=
    List.prefix_iff_eq_take.1 <| List.takeWhile_prefix p
  rw [List.take_add, drop_length_takeWhile, ← hrun]

/-- The value behind a `=` stands in the characters that are taken for it. -/
theorem isInfix_valueAfterEquals (s : List Char) :
    (valueAfterEquals s).1 <:+: s.take (valueAfterEquals s).2 := by
  rw [valueAfterEquals]
  split
  · exact List.nil_infix
  rename_i q body hbody
  split
  · split
    · rename_i value hv
      obtain ⟨rest, rfl⟩ := eq_of_before?_eq_some hv
      refine ⟨s.takeWhile isBlank ++ [q], [q], ?_⟩
      rw [Nat.add_assoc, take_length_takeWhile_add, hbody, List.take_succ_cons, List.append_assoc value,
        List.take_length_add_append]
      simp
    · have hsuffix : body <:+ s := by
        refine (List.suffix_cons q body).trans ?_
        rw [← hbody]
        exact List.dropWhile_suffix isBlank
      simpa using hsuffix.isInfix
  · have hbare := List.prefix_take_iff.2 ⟨isPrefix_bareValue (q :: body), Nat.le_refl _⟩
    show bareValue (q :: body) <:+: s.take ((s.takeWhile isBlank).length + _)
    rw [take_length_takeWhile_add, hbody]
    exact hbare.isInfix.trans (List.suffix_append _ _).isInfix

/-- The value of an attribute stands in the characters that are taken behind the name. -/
theorem isInfix_attributeValue (s : List Char) :
    (attributeValue s).1 <:+: s.take (attributeValue s).2 := by
  rw [attributeValue]
  split
  · rename_i rest hrest
    show (valueAfterEquals rest).1 <:+:
      s.take ((s.takeWhile isBlank).length + 1 + (valueAfterEquals rest).2)
    rw [Nat.add_assoc, take_length_takeWhile_add, hrest, Nat.add_comm 1, List.take_succ_cons]
    refine (isInfix_valueAfterEquals rest).trans (List.IsSuffix.isInfix ?_)
    exact (List.suffix_cons '=' _).trans (List.suffix_append _ _)
  · exact List.nil_infix

theorem Step.tag_reads (c : Char) (s : List Char) : (Step.tag c s).Reads c s := by
  by_cases hc : isAttributeChar c = true
  · rw [Step.tag_attribute hc]
    rintro l ⟨⟩
    refine ⟨(s.dropWhile isAttributeChar).take (attributeValue (s.dropWhile isAttributeChar)).2, ?_,
      isInfix_attributeValue _⟩
    exact congrArg (c :: ·) (take_length_takeWhile_add isAttributeChar s _)
  · simp only [Step.tag, hc, if_false, Bool.false_eq_true]
    split
    · rintro l ⟨⟩
    split
    · rename_i h
      obtain ⟨rfl, hgt⟩ := h
      obtain ⟨t, rfl⟩ := List.head?_eq_some_iff.1 hgt
      rintro l ⟨⟩
      exact Lexeme.readFrom_of_isPrefix rfl (List.prefix_refl _)
    split
    · rename_i hgt
      rintro l ⟨⟩
      exact Lexeme.readFrom_of_isPrefix rfl (hgt ▸ List.prefix_refl _)
    · rintro l ⟨⟩

/-- **One step of the reader** reads its lexeme from the characters it takes. -/
theorem Step.at_reads (mode : Mode) (c : Char) (s : List Char) : (Step.at mode c s).Reads c s := by
  cases mode with
  | content => exact Step.content_reads c s
  | tag => exact Step.tag_reads c s

/-! ## The run of the reader -/

/-- The tokens are read from stretches of a text, one behind the other, `pos` characters standing before the
text. What is between the stretches is skipped. -/
inductive Placed : Nat → List Char → List Token → Prop
  | nil {pos : Nat} {s : List Char} : Placed pos s []
  | skip {pos : Nat} {skipped s : List Char} {ts : List Token} :
      Placed (pos + skipped.length) s ts → Placed pos (skipped ++ s) ts
  | token {pos : Nat} {l : Lexeme} {stretch s : List Char} {ts : List Token} : stretch ≠ [] →
      l.ReadFrom stretch → Placed (pos + stretch.length) s ts → Placed pos (stretch ++ s) (⟨l, pos⟩ :: ts)

/-- **The tokens of a text are placed in it.** -/
theorem placed_scan (mode : Mode) (pos : Nat) (s : List Char) : Placed pos s (scan mode pos s) := by
  induction mode, s using steps_induction generalizing pos with
  | nil mode =>
    rw [scan]
    exact .nil
  | cons mode c s ih =>
    have hreads := Step.at_reads mode c s
    rw [scan_cons]
    generalize Step.at mode c s = step at *
    have hrest : Placed (pos + (c :: s.take step.extra).length) (s.drop step.extra)
        (scan step.mode (pos + step.extra + 1) (s.drop step.extra)) := by
      -- behind the end of the text there are no tokens, so it need not be known that no step goes beyond
      by_cases hle : step.extra ≤ s.length
      · simpa [Nat.min_eq_left hle, Nat.add_assoc] using ih (pos + step.extra + 1)
      · rw [List.drop_eq_nil_of_le (by omega), scan]
        exact .nil
    have hs : c :: s = (c :: s.take step.extra) ++ s.drop step.extra := by simp
    rw [hs]
    cases hl : step.lexeme with
    | none => exact .skip hrest
    | some l => exact .token (by simp) (hreads l hl) hrest

theorem Placed.le_pos {pos : Nat} {s : List Char} {ts : List Token} (h : Placed pos s ts) :
    ∀ t ∈ ts, pos ≤ t.pos := by
  induction h with
  | nil => simp
  | skip _ ih =>
    intro t ht
    exact Nat.le_trans (Nat.le_add_right ..) (ih t ht)
  | token _ _ _ ih =>
    intro t ht
    rcases List.mem_cons.1 ht with rfl | ht
    · exact Nat.le_refl _
    · exact Nat.le_trans (Nat.le_add_right ..) (ih t ht)

/-- Each token has its stretch, and the tokens behind it are placed in what follows the stretch. -/
theorem Placed.exists_stretch {pos : Nat} {s : List Char} {before after : List Token} {t : Token}
    (h : Placed pos s (before ++ t :: after)) :
    ∃ a stretch b, s = a ++ stretch ++ b ∧ t.pos = pos + a.length ∧ stretch ≠ [] ∧
      t.lexeme.ReadFrom stretch ∧ Placed (t.pos + stretch.length) b after := by
  generalize hts : before ++ t :: after = ts at h
  induction h generalizing before with
  | nil => simp at hts
  | @skip pos skipped s ts _ ih =>
    obtain ⟨a, stretch, b, rfl, hpos, hrest⟩ := ih hts
    refine ⟨skipped ++ a, stretch, b, by simp, ?_, hrest⟩
    rw [hpos, List.length_append, Nat.add_assoc]
  | @token pos l stretch s ts hne hread hs ih =>
    cases before with
    | nil =>
      obtain ⟨rfl, rfl⟩ := List.cons.inj hts
      exact ⟨[], stretch, s, rfl, rfl, hne, hread, hs⟩
    | cons u before =>
      obtain ⟨a, stretch', b, rfl, hpos, hrest⟩ := ih (List.cons.inj hts).2
      refine ⟨stretch ++ a, stretch', b, by simp, ?_, hrest⟩
      rw [hpos, List.length_append, Nat.add_assoc]

theorem Placed.pairwise_pos {pos : Nat} {s : List Char} {ts : List Token} (h : Placed pos s ts) :
    (ts.map Token.pos).Pairwise (· < ·) := by
  induction h with
  | nil => exact .nil
  | skip _ ih => exact ih
  | token hne _ hs ih =>
    refine List.pairwise_cons.2 ⟨?_, ih⟩
    intro n hn
    obtain ⟨u, hu, rfl⟩ := List.mem_map.1 hn
    exact Nat.lt_of_lt_of_le (Nat.lt_add_of_pos_right (List.length_pos_iff.2 hne)) (hs.le_pos u hu)

/-- What the tokens spell is found in the text in this order. -/
theorem Placed.sublist {pos : Nat} {s : List Char} {ts : List Token} (h : Placed pos s ts) :
    ((ts.map Token.lexeme).flatMap Lexeme.spelling).Sublist s := by
  induction h with
  | nil => exact List.nil_sublist _
  | skip _ ih => exact ih.trans (List.sublist_append_right ..)
  | token _ hread _ ih =>
    obtain ⟨behind, rfl, -⟩ := hread
    exact (List.sublist_append_left ..).append ih

/-! ## Plain text -/

/-- The characters that make a `<` in front of them the start of markup. -/
def startsMarkup (c : Char) : Bool :=
  isAsciiLetter c || c == '_' || c == '!' || c == '?' || c == '/'

/-- No `<` of the text starts markup. -/
def Plain (s : List Char) : Prop := ∀ c, ['<', c] <:+: s → startsMarkup c = false

theorem plain_nil : Plain [] := by
  intro c hc
  simp at hc

theorem plain_cons {c : Char} {s : List Char} :
    Plain (c :: s) ↔ (c = '<' → Clear startsMarkup s) ∧ Plain s := by
  constructor
  · intro h
    refine ⟨?_, fun d hd => h d (hd.trans (List.suffix_cons c s).isInfix)⟩
    rintro rfl d hd
    obtain ⟨t, rfl⟩ := List.head?_eq_some_iff.1 hd
    exact h d ⟨[], t, rfl⟩
  · rintro ⟨hc, hs⟩ d hd
    rcases List.infix_cons_iff.1 hd with hp | hd
    · obtain ⟨rfl, t, rfl⟩ := List.cons_prefix_cons.1 hp
      exact hc rfl d rfl
    · exact hs d hd

theorem plain_append {a s : List Char} (ha : '<' ∉ a) : Plain (a ++ s) ↔ Plain s := by
  induction a with
  | nil => rfl
  | cons c a ih =>
    simp only [List.mem_cons, not_or] at ha
    rw [List.cons_append, plain_cons, ih ha.2, and_iff_right fun h => absurd h (Ne.symm ha.1)]

/-- A `<` is read as text only in front of a character that starts no markup. -/
theorem clear_of_markup_text {s content : List Char} (h : (Step.markup s).lexeme = some (.text content)) :
    Clear startsMarkup s := by
  unfold Step.markup at h
  split at h
  · rcases delimited_lexeme h with ⟨body, -, hl⟩ | ⟨-, hl⟩ <;> cases hl
  split at h
  · rcases delimited_lexeme h with ⟨body, -, hl⟩ | ⟨-, hl⟩ <;> cases hl
  split at h
  · rcases delimited_lexeme h with ⟨body, -, hl⟩ | ⟨-, hl⟩ <;> cases hl
  rename_i hquery
  split at h
  · cases h
  rename_i hbang
  split at h
  · rcases delimited_lexeme h with ⟨body, -, hl⟩ | ⟨-, hl⟩
    · unfold closeLexeme at hl
      split at hl <;> cases hl
    · cases hl
  rename_i hslash
  split at h
  · rename_i hname
    intro d hd
    obtain ⟨t, rfl⟩ := List.head?_eq_some_iff.1 hd
    have hstart : isNameStart d = false := by
      cases hn : isNameStart d with
      | false => rfl
      | true => simp [tagName, hn] at hname
    simp only [isNameStart, Bool.or_eq_false_iff] at hstart
    simp only [List.isPrefixOf, Bool.and_true, beq_iff_eq] at hquery hbang hslash
    simp [startsMarkup, hstart, Ne.symm hquery, Ne.symm hbang, Ne.symm hslash]
  · cases h

theorem lexemes_angle {s : List Char} (h : Clear startsMarkup s) :
    lexemes .content ('<' :: s) = .text ['<'] :: lexemes .content s := by
  have hclear : ∀ p : Char → Bool, (∀ d, startsMarkup d = false → p d = false) → Clear p s :=
    fun p hp d hd => hp d (h d hd)
  refine lexemes_lone (hclear _ ?_) (hclear _ ?_) (hclear _ ?_) (hclear _ ?_)
  all_goals simp +contextual [startsMarkup, isNameStart]

/-- The reader in content takes text, and what is left is as plain as before, or it takes something else, and
the text is not plain. -/
theorem lexemes_text_or (c : Char) (s : List Char) :
    (∃ content rest, content ++ rest = c :: s ∧ rest.length ≤ s.length ∧
        lexemes .content (c :: s) = .text content :: lexemes .content rest ∧
        (Plain (c :: s) ↔ Plain rest)) ∨
      ((∀ content, (Step.content c s).lexeme ≠ some (.text content)) ∧ ¬Plain (c :: s)) := by
  by_cases hc : c = '<'
  · subst hc
    by_cases hs : Clear startsMarkup s
    · refine .inl ⟨['<'], s, rfl, Nat.le_refl _, lexemes_angle hs, ?_⟩
      rw [plain_cons, and_iff_right fun _ => hs]
    · refine .inr ⟨fun content h => hs ?_, fun h => hs ((plain_cons.1 h).1 rfl)⟩
      rw [Step.content, if_pos rfl] at h
      exact clear_of_markup_text h
  · have hsplit : (c :: s.takeWhile isTextChar) ++ s.dropWhile isTextChar = c :: s := by simp
    have htext : '<' ∉ c :: s.takeWhile isTextChar := by
      rw [List.mem_cons, not_or]
      refine ⟨Ne.symm hc, fun h => ?_⟩
      have hlt := List.all_eq_true.1 List.all_takeWhile _ h
      simp at hlt
    refine .inl ⟨c :: s.takeWhile isTextChar, s.dropWhile isTextChar, hsplit,
      (List.dropWhile_suffix _).length_le, ?_, ?_⟩
    · rw [← hsplit, lexemes_text (by simp) htext (clear_dropWhile _ s)]
    · rw [← hsplit, plain_append htext]

/-- Lexemes that are texts and make up all of a text have one from the first step on. -/
theorem exists_text_of_flatten {c : Char} {s : List Char} {parts : List (List Char)}
    (hparts : lexemes .content (c :: s) = parts.map .text) (hflat : parts.flatten = c :: s) :
    ∃ content, (Step.content c s).lexeme = some (.text content) := by
  rw [lexemes_cons, Step.at] at hparts
  cases hl : (Step.content c s).lexeme with
  | some l =>
    rw [hl] at hparts
    cases parts with
    | nil => cases hparts
    | cons part parts => exact ⟨part, congrArg some (List.cons.inj hparts).1⟩
  | none =>
    -- then `c` is skipped, and what is left is too short
    rw [hl] at hparts
    have hsub : ((parts.map Lexeme.text).flatMap Lexeme.spelling).Sublist
        (s.drop (Step.content c s).extra) := by
      rw [← hparts]
      exact (placed_scan _ 0 _).sublist
    have hspelled : (parts.map Lexeme.text).flatMap Lexeme.spelling = c :: s := by
      rw [List.flatMap_map, ← hflat]
      exact List.flatMap_id
    have hle := hsub.length_le
    rw [hspelled, List.length_cons, List.length_drop] at hle
    omega

/-- One more text in front of lexemes that are texts and make up the rest. -/
theorem exists_parts_cons {content rest : List Char} {ls : List Lexeme} :
    (∃ parts : List (List Char), .text content :: ls = parts.map .text ∧ parts.flatten = content ++ rest) ↔
      ∃ parts : List (List Char), ls = parts.map .text ∧ parts.flatten = rest := by
  constructor
  · rintro ⟨parts, hparts, hflat⟩
    cases parts with
    | nil => cases hparts
    | cons part parts =>
      obtain ⟨hpart, hls⟩ := List.cons.inj hparts
      obtain rfl := Lexeme.text.inj hpart
      exact ⟨parts, hls, List.append_cancel_left hflat⟩
  · rintro ⟨parts, rfl, rfl⟩
    exact ⟨content :: parts, rfl, rfl⟩

/-- **All of a text is read as text** exactly if it is plain. -/
theorem lexemes_plain_iff (s : List Char) :
    (∃ parts : List (List Char), lexemes .content s = parts.map .text ∧ parts.flatten = s) ↔ Plain s := by
  induction hn : s.length using Nat.strongRecOn generalizing s with
  | ind n ih =>
    cases s with
    | nil => exact iff_of_true ⟨[], lexemes_nil _, rfl⟩ plain_nil
    | cons c s =>
      rcases lexemes_text_or c s with ⟨content, rest, hsplit, hle, hlexemes, hplain⟩ | ⟨hstep, hplain⟩
      · have hlt : rest.length < n := by
          rw [List.length_cons] at hn
          omega
        rw [hplain, ← ih _ hlt rest rfl, hlexemes, ← hsplit]
        exact exists_parts_cons
      · refine iff_of_false ?_ hplain
        rintro ⟨parts, hparts, hflat⟩
        obtain ⟨content, hl⟩ := exists_text_of_flatten hparts hflat
        exact hstep content hl

/-! ## Tokens are slices -/

/-- `part` stands in a text from the place `i` on. -/
def StandsAt (s : List Char) (i : Nat) (part : List Char) : Prop := part <+: s.drop i

/-- Where the first of some tokens stands in a text, or where the text ends if there is none. -/
def nextPlace (s : List Char) : List Token → Nat
  | [] => s.length
  | t :: _ => t.pos

theorem standsAt_append (a part b : List Char) : StandsAt (a ++ part ++ b) a.length part := by
  rw [StandsAt, List.append_assoc, List.drop_left]
  exact List.prefix_append part b

/-- Tokens that are placed in the rest of a text stand in it. -/
theorem Placed.le_nextPlace {a b : List Char} {ts : List Token} (h : Placed a.length b ts) :
    a.length ≤ nextPlace (a ++ b) ts := by
  cases ts with
  | nil =>
    rw [nextPlace, List.length_append]
    exact Nat.le_add_right ..
  | cons t ts => exact h.le_pos t List.mem_cons_self

/-- **Tokens are slices of a text, in its order.** Their places increase and lie in the text. At the place of
each stands its spelling, and its value, if it has one, behind that; both end before the next token. The tokens
are texts that make up the whole exactly if no `<` starts markup. -/
theorem tokenize_slices (s : List Char) :
    ((tokenize s).map Token.pos).Pairwise (· < ·) ∧ (∀ t ∈ tokenize s, t.pos < s.length) ∧
      (∀ (before after : List Token) (t : Token), tokenize s = before ++ t :: after →
        StandsAt s t.pos t.lexeme.spelling ∧
          t.pos + t.lexeme.spelling.length ≤ nextPlace s after ∧
          ∃ i, t.pos + t.lexeme.spelling.length ≤ i ∧ StandsAt s i t.lexeme.value ∧
            i + t.lexeme.value.length ≤ nextPlace s after) ∧
      ((∃ parts : List (List Char), (tokenize s).map Token.lexeme = parts.map .text ∧ parts.flatten = s) ↔
        ∀ c, ['<', c] <:+: s → startsMarkup c = false) := by
  have hplaced : Placed 0 s (tokenize s) := placed_scan .content 0 s
  refine ⟨hplaced.pairwise_pos, ?_, ?_, lexemes_plain_iff s⟩
  · intro t ht
    obtain ⟨before, after, hts⟩ := List.append_of_mem ht
    rw [hts] at hplaced
    obtain ⟨a, stretch, b, rfl, hpos, hne, -⟩ := hplaced.exists_stretch
    have hlength := List.length_pos_iff.2 hne
    simp only [List.length_append]
    omega
  · intro before after t hts
    rw [hts] at hplaced
    obtain ⟨a, _, b, rfl, hpos, -, ⟨_, rfl, gap, behind, rfl⟩, hafter⟩ := hplaced.exists_stretch
    rw [Nat.zero_add] at hpos
    rw [hpos] at hafter ⊢
    rw [← List.length_append] at hafter
    have hnext := hafter.le_nextPlace
    have hspelling := standsAt_append a t.lexeme.spelling (gap ++ t.lexeme.value ++ behind ++ b)
    have hvalue := standsAt_append (a ++ t.lexeme.spelling ++ gap) t.lexeme.value (behind ++ b)
    simp only [List.append_assoc, List.length_append] at hnext hspelling hvalue ⊢
    refine ⟨hspelling, by omega, _, ?_, hvalue, ?_⟩
    · omega
    · omega

/-- A value in quotes stands between its name and the end of the tag, and a `<` between blanks is text. -/
theorem tokenize_slices_quoted :
    (StandsAt "<a b = 'c d'/>".toList 3 ['b'] ∧
      ∃ i, 4 ≤ i ∧ StandsAt "<a b = 'c d'/>".toList i "c d".toList ∧ i + 3 ≤ 12) ∧
    ∃ parts : List (List Char), (tokenize "a < b".toList).map Token.lexeme = parts.map .text ∧
      parts.flatten = "a < b".toList := by
  have htokens : tokenize "<a b = 'c d'/>".toList =
      [⟨.openTag ['a'], 0⟩] ++ ⟨.attribute ['b'] "c d".toList, 3⟩ :: [⟨.selfClose, 12⟩] := by
    decide +kernel
  have hplain : Plain "a < b".toList := by
    simp [plain_cons, plain_nil, show startsMarkup ' ' = false by decide]
  obtain ⟨hname, -, hvalue⟩ := (tokenize_slices _).2.2.1 _ _ _ htokens
  exact ⟨⟨hname, hvalue⟩, (tokenize_slices _).2.2.2.2 hplain⟩

end SvgComponent.Markup
