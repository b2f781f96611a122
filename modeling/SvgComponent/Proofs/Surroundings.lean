import Mathlib.Data.List.Infix
import SvgComponent.Proofs.Outline
import SvgComponent.Proofs.TokenGrammar

/-!
# What stands around the root

The reader searches ahead without bound, so text behind a document could change how the document
itself is read, and markup in front of it could swallow its start. Neither happens.

* `Step.at_append`: a step is the same with more text behind it, unless it takes all that is left, and
  then its lexeme closes nothing. So a tree that is read is read whatever follows (`run_append`).
* `Prologue`: the texts that may stand in front of a document. Each of their constructs is read as a
  whole and dropped as long as no element is open (`Prologue.run_skip`).
* `parse_surrounded`: the tree of a document does not depend on either.
-/

namespace SvgComponent.Text

/-! ## Searches in longer texts -/

theorem Clear.append_clear {p : Char → Bool} {s t : List Char} (hs : Clear p s) (ht : Clear p t) :
    Clear p (s ++ t) := by
  cases s with
  | nil => exact ht
  | cons c s => simpa using hs

theorem before?_append {pat s b : List Char} (h : before? pat s = some b) (u : List Char) :
    before? pat (s ++ u) = some b := by
  induction s generalizing b with
  | nil =>
    rw [before?] at h
    split at h
    · rename_i hp
      cases h
      rw [List.isEmpty_iff.1 hp]
      cases u <;> rfl
    · cases h
  | cons c s ih =>
    simp only [before?, List.cons_append, List.isPrefixOf_iff_prefix] at h ⊢
    split at h
    · rename_i hp
      have hpre : pat <+: c :: (s ++ u) := hp.trans (List.prefix_append (c :: s) u)
      rw [if_pos hpre, h]
    · rename_i hp
      obtain ⟨b', hb', rfl⟩ := Option.map_eq_some_iff.1 h
      obtain ⟨rest, rfl⟩ := eq_of_before?_eq_some hb'
      -- the pattern stands later in the text, so the text is long enough to tell that it is not here
      have hn : ¬ pat <+: c :: (b' ++ pat ++ rest ++ u) := fun hpre => hp <|
        List.prefix_of_prefix_length_le hpre (List.prefix_append (c :: (b' ++ pat ++ rest)) u)
          (by simp; omega)
      rw [if_neg hn, ih hb']
      rfl

/-- A closing mark of two different characters is found where it stands. -/
theorem before?_append_pair {x y : Char} (hxy : x ≠ y) {b : List Char}
    (hb : before? [x, y] b = none) (rest : List Char) :
    before? [x, y] (b ++ x :: y :: rest) = some b := by
  induction b with
  | nil => simp [before?]
  | cons c b ih =>
    obtain ⟨hp, hb'⟩ := before?_cons_eq_none hb
    have hn : ¬ [x, y] <+: c :: (b ++ x :: y :: rest) := by
      cases b with
      | nil => simp [Ne.symm hxy]
      | cons d b => simpa using hp
    simp [before?, hn, ih hb']

/-- A search for one character passes over a text that does not have it. -/
theorem before?_append_of_not_mem {q : Char} {a : List Char} (ha : q ∉ a) (s : List Char) :
    before? [q] (a ++ s) = (before? [q] s).map (a ++ ·) := by
  induction a with
  | nil => simp
  | cons c a ih =>
    simp only [List.mem_cons, not_or] at ha
    simp [before?, ha.1, ih ha.2, Function.comp_def]

/-- A run of a class is the whole text, or it ends inside the text, whatever stands behind. -/
theorem takeWhile_append_or (p : Char → Bool) (s u : List Char) :
    (s.takeWhile p = s ∧ s.dropWhile p = []) ∨
      ∃ d t, s.dropWhile p = d :: t ∧ (s ++ u).takeWhile p = s.takeWhile p ∧
        (s ++ u).dropWhile p = d :: (t ++ u) := by
  induction s with
  | nil => exact .inl ⟨rfl, rfl⟩
  | cons c s ih =>
    by_cases hc : p c = true
    · rcases ih with ⟨ht, hd⟩ | ⟨d, t, hs, ht, hd⟩
      · exact .inl (by simp [hc, ht, hd])
      · exact .inr ⟨d, t, by simp [hc, hs, ht, hd]⟩
    · exact .inr ⟨c, s, by simp [hc]⟩

end SvgComponent.Text

namespace SvgComponent.Markup

open Text

/-! ## Steps in longer texts -/

/-- The step takes all of `s`, the text behind its first character, and completes nothing. -/
def Step.Exhausts (step : Step) (s : List Char) : Prop :=
  s.length ≤ step.extra ∧ step.lexeme.all (!·.isEnding) = true
  deriving Decidable

theorem Step.delimited_append {lexeme unclosed : List Char → Option Lexeme} {opening : Nat}
    {closing s : List Char} (ho : opening ≤ s.length)
    (hu : ∀ body, (unclosed body).all (!·.isEnding) = true) (u : List Char) :
    Step.delimited lexeme unclosed opening closing (s ++ u) =
        Step.delimited lexeme unclosed opening closing s ∨
      (Step.delimited lexeme unclosed opening closing s).Exhausts s := by
  rw [Step.delimited, Step.delimited, List.drop_append_of_le_length ho]
  cases hb : before? closing (s.drop opening) with
  | some body => exact .inl (by rw [before?_append hb])
  | none => exact .inr ⟨Nat.le_refl _, hu _⟩

theorem declarationWidth_append (s u : List Char) :
    declarationWidth (s ++ u) = declarationWidth s ∨ s.length ≤ declarationWidth s := by
  simp only [declarationWidth]
  cases hhead : before? ['>'] s with
  | none => exact .inr (Nat.le_refl _)
  | some head =>
    rw [before?_append hhead]
    simp only
    split
    · rename_i hm
      rcases takeWhile_append_or (· ≠ '[') s u with ⟨hall, -⟩ | ⟨d, t, hs, ht, hd⟩
      · -- the subset starts inside `s`
        obtain ⟨rest, hrest⟩ := eq_of_before?_eq_some hhead
        have hmem : '[' ∈ s.takeWhile (· ≠ '[') := by
          rw [hall, hrest]
          simp [hm]
        simpa using List.all_eq_true.1 List.all_takeWhile _ hmem
      · simp only [← List.drop_drop, drop_length_takeWhile, hs, ht]
        have hdrop := drop_length_takeWhile (· ≠ '[') (s ++ u)
        rw [ht, hd, ← List.cons_append] at hdrop
        rw [hdrop]
        cases hin : before? [']'] (d :: t) with
        | none => exact .inr (Nat.le_refl _)
        | some inside =>
          obtain ⟨rest, hrest⟩ := eq_of_before?_eq_some hin
          have hle : inside.length ≤ (d :: t).length := by
            rw [hrest, List.append_assoc, List.length_append]
            omega
          simp only [before?_append hin, List.drop_append_of_le_length hle]
          cases htail : before? ['>'] ((d :: t).drop inside.length) with
          | none => exact .inr (Nat.le_refl _)
          | some tail => exact .inl (by rw [before?_append htail])
    · exact .inl rfl

theorem tagName_append_or (s u : List Char) :
    tagName (s ++ u) = tagName s ∨ tagName s = s := by
  cases s with
  | nil => exact .inr rfl
  | cons c s =>
    simp only [List.cons_append, tagName]
    split
    · rcases takeWhile_append_or isNameChar s u with ⟨h, -⟩ | ⟨_, _, -, h, -⟩
      · exact .inr (by rw [h])
      · exact .inl (by rw [h])
    · exact .inl rfl

theorem isPrefixOf_append_or (pat s u : List Char) :
    pat.isPrefixOf (s ++ u) = pat.isPrefixOf s ∨ s <+: pat := by
  by_cases h : pat <+: s ++ u
  · rcases List.prefix_or_prefix_of_prefix h (List.prefix_append s u) with hp | hs
    · refine .inl ?_
      rw [List.isPrefixOf_iff_prefix.2 h, List.isPrefixOf_iff_prefix.2 hp]
    · exact .inr hs
  · refine .inl ?_
    have hn : ¬ pat <+: s := fun hp => h (hp.trans (List.prefix_append s u))
    rw [← List.isPrefixOf_iff_prefix, Bool.not_eq_true] at h hn
    rw [h, hn]

theorem Step.exhausts_nil : (Step.markup []).Exhausts [] := by decide

/-- A text too short to tell whether it starts a comment or a CDATA section is used up. -/
theorem Step.markup_prefix_or {pat : List Char}
    (hp : pat = "!--".toList ∨ pat = "![CDATA[".toList) (s u : List Char) :
    pat.isPrefixOf (s ++ u) = pat.isPrefixOf s ∨ (Step.markup s).Exhausts s := by
  have hshort : ∀ t ∈ pat.inits, t = pat ∨ (Step.markup t).Exhausts t := by
    rcases hp with rfl | rfl <;> decide
  rcases isPrefixOf_append_or pat s u with h | h
  · exact .inl h
  · rcases hshort s ((List.mem_inits _ _).2 h) with rfl | he
    · refine .inl ?_
      rw [List.isPrefixOf_iff_prefix.2 (List.prefix_append s u),
        List.isPrefixOf_iff_prefix.2 (List.prefix_refl s)]
    · exact .inr he

theorem Step.markup_append (s u : List Char) :
    Step.markup (s ++ u) = Step.markup s ∨ (Step.markup s).Exhausts s := by
  rcases Step.markup_prefix_or (.inl rfl) s u with hcomment | he
  · rcases Step.markup_prefix_or (.inr rfl) s u with hcdata | he
    · cases s with
      | nil => exact .inr Step.exhausts_nil
      | cons c s =>
        have hchar : ∀ x, [x].isPrefixOf (c :: s ++ u) = [x].isPrefixOf (c :: s) := by
          simp [List.isPrefixOf]
        have hlength : ∀ {pat : List Char}, pat.isPrefixOf (c :: s) = true →
            pat.length ≤ (c :: s).length := fun h => (List.isPrefixOf_iff_prefix.1 h).length_le
        unfold Step.markup
        rw [hcomment, hcdata, hchar, hchar, hchar]
        split
        · rename_i h
          exact Step.delimited_append (hlength h) (fun _ => rfl) u
        split
        · rename_i h
          exact Step.delimited_append (hlength h) (fun _ => rfl) u
        split
        · rename_i h
          exact Step.delimited_append (hlength h) (fun _ => rfl) u
        split
        · rcases declarationWidth_append (c :: s) u with h | h
          · exact .inl (by rw [h])
          · exact .inr ⟨h, rfl⟩
        split
        · rename_i h
          exact Step.delimited_append (hlength h) (fun _ => rfl) u
        · rcases tagName_append_or (c :: s) u with h | h
          · exact .inl (by rw [h])
          · refine .inr ?_
            rw [h]
            exact ⟨Nat.le_refl _, rfl⟩
    · exact .inr he
  · exact .inr he

theorem Step.content_append (c : Char) (s u : List Char) :
    Step.content c (s ++ u) = Step.content c s ∨ (Step.content c s).Exhausts s := by
  unfold Step.content
  split
  · exact Step.markup_append s u
  · rcases takeWhile_append_or isTextChar s u with ⟨h, -⟩ | ⟨_, _, -, h, -⟩
    · refine .inr ⟨?_, rfl⟩
      show s.length ≤ (s.takeWhile isTextChar).length
      rw [h]
    · exact .inl (by rw [h])

theorem bareValue_append_or (s u : List Char) :
    bareValue (s ++ u) = bareValue s ∨ bareValue s = s := by
  induction s with
  | nil => exact .inr rfl
  | cons c s ih =>
    cases s with
    | nil =>
      -- whether a `/` ends the value shows only behind it
      by_cases hc : (isBlank c || isQuote c || c == '>') = true
      · exact .inl (by simp [bareValue, hc])
      · exact .inr (by simp [bareValue, hc])
    | cons d s =>
      have hcons : ∀ t, bareValue (c :: d :: t) =
          if (isBlank c || isQuote c || c == '>' || (c == '/' && d == '>')) = true then []
          else c :: bareValue (d :: t) := fun t => by simp [bareValue]
      rw [List.cons_append, List.cons_append, hcons, hcons]
      by_cases hc : (isBlank c || isQuote c || c == '>' || (c == '/' && d == '>')) = true
      · exact .inl (by rw [if_pos hc, if_pos hc])
      · rw [if_neg hc, if_neg hc]
        rcases ih with h | h
        · exact .inl (by rw [← h, List.cons_append])
        · exact .inr (by rw [h])

theorem length_takeWhile_add (p : Char → Bool) (s : List Char) :
    (s.takeWhile p).length + (s.dropWhile p).length = s.length := by
  rw [← List.length_append, List.takeWhile_append_dropWhile]

theorem valueAfterEquals_append (s u : List Char) :
    valueAfterEquals (s ++ u) = valueAfterEquals s ∨ s.length ≤ (valueAfterEquals s).2 := by
  unfold valueAfterEquals
  have hlen := length_takeWhile_add isBlank s
  rcases takeWhile_append_or isBlank s u with ⟨hall, hnil⟩ | ⟨q, body, hs, ht, hd⟩
  · rw [hnil, hall]
    exact .inr (Nat.le_refl _)
  · rw [hs] at hlen
    rw [ht, hd, hs]
    simp only
    split
    · cases hv : before? [q] body with
      | none => exact .inr (Nat.le_refl _)
      | some value => exact .inl (by rw [before?_append hv])
    · rcases bareValue_append_or (q :: body) u with h | h
      · exact .inl (by rw [← List.cons_append, h])
      · refine .inr ?_
        rw [h]
        exact Nat.le_of_eq hlen.symm

theorem attributeValue_append (s u : List Char) :
    attributeValue (s ++ u) = attributeValue s ∨ s.length ≤ (attributeValue s).2 := by
  unfold attributeValue
  have hlen := length_takeWhile_add isBlank s
  rcases takeWhile_append_or isBlank s u with ⟨hall, hnil⟩ | ⟨d, t, hs, ht, hd⟩
  · rw [hnil, hall]
    exact .inr (Nat.le_refl _)
  · rw [hs, List.length_cons] at hlen
    rw [ht, hd, hs]
    by_cases he : d = '='
    · subst he
      rcases valueAfterEquals_append t u with h | h
      · exact .inl (by simp only [h])
      · exact .inr (by simp only; omega)
    · exact .inl (by simp [he])

theorem Step.tag_append (c : Char) (s u : List Char) :
    Step.tag c (s ++ u) = Step.tag c s ∨ (Step.tag c s).Exhausts s := by
  by_cases hc : isAttributeChar c = true
  · rw [Step.tag_attribute hc, Step.tag_attribute hc]
    have hlen := length_takeWhile_add isAttributeChar s
    rcases takeWhile_append_or isAttributeChar s u with ⟨hall, hnil⟩ | ⟨d, t, hs, ht, hd⟩
    · refine .inr ⟨?_, rfl⟩
      rw [hall]
      exact Nat.le_add_right _ _
    · rw [ht, hd, hs, ← List.cons_append]
      rw [hs] at hlen
      rcases attributeValue_append (d :: t) u with h | h
      · exact .inl (by rw [h])
      · exact .inr ⟨by simp only; omega, rfl⟩
  · unfold Step.tag
    split
    · rcases takeWhile_append_or isBlank s u with ⟨h, -⟩ | ⟨_, _, -, h, -⟩
      · refine .inr ⟨?_, rfl⟩
        rw [h]
      · exact .inl (by rw [h])
    · cases s with
      | nil =>
        by_cases hgt : c = '>'
        · exact .inl (by simp [hgt])
        · exact .inr (by simp [hgt, Step.Exhausts])
      | cons d t => exact .inl (by simp)

/-- **A step is the same with more text behind it**, unless it takes all of the text. -/
theorem Step.at_append (mode : Mode) (c : Char) (s u : List Char) :
    Step.at mode c (s ++ u) = Step.at mode c s ∨ (Step.at mode c s).Exhausts s := by
  cases mode with
  | content => exact Step.content_append c s u
  | tag => exact Step.tag_append c s u

/-! ## Text behind the root -/

/-- The state after a step of the reader that yields this lexeme, or none. -/
def Builder.take (b : Builder) : Option Lexeme → Progress
  | none => .more b
  | some l => b.feed l

theorem run_take (b : Builder) (l : Option Lexeme) (ls : List Lexeme) :
    b.run (l.toList ++ ls) = (b.take l).finish ls := by
  cases l with
  | none => rfl
  | some l => exact run_cons b l ls

/-- Only a lexeme that ends something can finish the root. -/
theorem take_of_not_ending (b : Builder) {l : Option Lexeme} (h : l.all (!·.isEnding) = true) :
    ∃ b', b.take l = .more b' := by
  cases l with
  | none => exact ⟨b, rfl⟩
  | some l => cases l <;> first | exact ⟨_, rfl⟩ | cases h

/-- **A tree that is read is read whatever follows.** -/
theorem run_append {b : Builder} {mode : Mode} {s : List Char} {root : Element}
    (h : b.run (lexemes mode s) = .ok root) (u : List Char) :
    b.run (lexemes mode (s ++ u)) = .ok root := by
  induction mode, s using steps_induction generalizing b with
  | nil mode => simp [Builder.run] at h
  | cons mode c s ih =>
    rw [List.cons_append, lexemes_cons, run_take]
    rw [lexemes_cons, run_take] at h
    rcases Step.at_append mode c s u with hsame | ⟨hall, hquiet⟩
    · rw [hsame]
      cases hb : b.take (Step.at mode c s).lexeme with
      | done r => rwa [hb] at h
      | more b' =>
        rw [hb] at h
        have hle : (Step.at mode c s).extra ≤ s.length := by
          by_contra hgt
          rw [List.drop_eq_nil_of_le (by omega)] at h
          simp [Progress.finish, Builder.run] at h
        rw [List.drop_append_of_le_length hle]
        exact ih h
    · -- nothing is left, and the last lexeme does not finish the root
      obtain ⟨b', hb⟩ := take_of_not_ending b hquiet
      rw [hb, List.drop_eq_nil_of_le hall] at h
      simp [Progress.finish, Builder.run] at h

/-! ## Markup before the root -/

theorem lexemes_instruction {body : List Char} (hb : occursIn "?>".toList body = false)
    (rest : List Char) :
    lexemes .content ("<?".toList ++ body ++ "?>".toList ++ rest) = lexemes .content rest := by
  have hf : before? ['?', '>'] (body ++ '?' :: '>' :: rest) = some body :=
    before?_append_pair (by decide) (by simpa [occursIn] using hb) rest
  have hs : Step.markup ('?' :: (body ++ '?' :: '>' :: rest)) =
      ⟨none, 1 + body.length + 2, .content⟩ := by
    simp [Step.markup, Step.delimited, hf]
  have hd : ('?' :: (body ++ '?' :: '>' :: rest)).drop (1 + body.length + 2) = rest := by
    rw [show 1 + body.length + 2 = body.length + 2 + 1 by omega]
    simp [List.drop_append]
  simp only [String.reduceToList, List.cons_append, List.nil_append, List.append_assoc]
  rw [lexemes_markup, hs, hd]
  rfl

/-- A text behind `<!` that starts neither a comment nor a CDATA section. -/
def startsDeclaration : List Char → Bool
  | [] => false
  | c :: _ => c != '-' && c != '['

theorem Step.markup_declaration {s : List Char} (h : startsDeclaration s = true) :
    Step.markup ('!' :: s) = ⟨none, declarationWidth ('!' :: s), .content⟩ := by
  cases s with
  | nil => cases h
  | cons c s =>
    simp only [startsDeclaration, Bool.and_eq_true, bne_iff_ne] at h
    simp [Step.markup, Ne.symm h.1, Ne.symm h.2]

theorem startsDeclaration_append {s : List Char} (h : startsDeclaration s = true) (t : List Char) :
    startsDeclaration (s ++ t) = true := by
  cases s with
  | nil => cases h
  | cons c s => exact h

/-- A declaration whose width is known leaves the text behind it. -/
theorem lexemes_of_declarationWidth {s : List Char} (hs : startsDeclaration s = true)
    {rest : List Char} (hw : declarationWidth ('!' :: (s ++ rest)) = s.length + 1) :
    lexemes .content ("<!".toList ++ s ++ rest) = lexemes .content rest := by
  simp only [String.reduceToList, List.cons_append, List.nil_append]
  rw [lexemes_markup, Step.markup_declaration (startsDeclaration_append hs rest), hw]
  simp

theorem declarationWidth_plain {head : List Char} (hgt : '>' ∉ head) (hopen : '[' ∉ head)
    (rest : List Char) : declarationWidth (head ++ '>' :: rest) = head.length + 1 := by
  simp [declarationWidth, before?_append_char hgt rest, hopen]

/-- The first `>` behind the internal subset ends the declaration, whatever stands in the subset. -/
theorem declarationWidth_subset {head inside tail : List Char} (hgt : '>' ∉ head)
    (hopen : '[' ∉ head) (hclose : ']' ∉ inside) (htail : '>' ∉ tail) (rest : List Char) :
    declarationWidth (head ++ '[' :: (inside ++ ']' :: (tail ++ '>' :: rest))) =
      (head ++ '[' :: (inside ++ ']' :: (tail ++ ['>']))).length := by
  have hhead : ∃ x, before? ['>'] (head ++ '[' :: (inside ++ ']' :: (tail ++ '>' :: rest))) =
      some (head ++ '[' :: x) := by
    have hmem : '>' ∈ inside ++ ']' :: (tail ++ '>' :: rest) := by simp
    obtain ⟨x, hx⟩ := Option.ne_none_iff_exists'.1 (mt before?_char_eq_none.1 (not_not.2 hmem))
    exact ⟨x, by rw [before?_append_of_not_mem hgt]; simp [before?, hx]⟩
  obtain ⟨x, hx⟩ := hhead
  have hne : ∀ c ∈ head, decide (c ≠ '[') = true := by
    rintro c hc
    simp only [decide_eq_true_eq]
    rintro rfl
    exact hopen hc
  have htake : (head ++ '[' :: (inside ++ ']' :: (tail ++ '>' :: rest))).takeWhile (· ≠ '[') = head :=
    takeWhile_append_clear hne (by simp)
  have hin : before? [']'] ('[' :: (inside ++ ']' :: (tail ++ '>' :: rest))) =
      some ('[' :: inside) := by
    have hclose' : ']' ∉ '[' :: inside := by simpa using hclose
    exact before?_append_char hclose' _
  have hend : before? ['>'] (']' :: (tail ++ '>' :: rest)) = some (']' :: tail) := by
    have htail' : '>' ∉ ']' :: tail := by simpa using htail
    exact before?_append_char htail' _
  simp only [declarationWidth, hx, htake, List.drop_left, hin]
  rw [if_pos (by simp), List.drop_length_add_append]
  simp only [List.length_cons, List.drop_succ_cons, List.drop_left, hend]
  simp
  omega

theorem lexemes_declaration {body : List Char} (hs : startsDeclaration body = true)
    (hgt : '>' ∉ body) (hopen : '[' ∉ body) (rest : List Char) :
    lexemes .content ("<!".toList ++ body ++ '>' :: rest) = lexemes .content rest := by
  have hw : declarationWidth ('!' :: body ++ '>' :: rest) = ('!' :: body).length + 1 :=
    declarationWidth_plain (by simpa using hgt) (by simpa using hopen) rest
  have hskip : lexemes .content ("<!".toList ++ (body ++ ['>']) ++ rest) = lexemes .content rest :=
    lexemes_of_declarationWidth (startsDeclaration_append hs _) (by simpa using hw)
  simpa using hskip

theorem lexemes_subset {head inside tail : List Char} (hs : startsDeclaration head = true)
    (hgt : '>' ∉ head) (hopen : '[' ∉ head) (hclose : ']' ∉ inside) (htail : '>' ∉ tail)
    (rest : List Char) :
    lexemes .content ("<!".toList ++ head ++ '[' :: (inside ++ ']' :: (tail ++ '>' :: rest))) =
      lexemes .content rest := by
  have hw : declarationWidth ('!' :: head ++ '[' :: (inside ++ ']' :: (tail ++ '>' :: rest))) =
      ('!' :: head ++ '[' :: (inside ++ ']' :: (tail ++ ['>']))).length :=
    declarationWidth_subset (by simpa using hgt) (by simpa using hopen) hclose htail rest
  have hskip : lexemes .content
      ("<!".toList ++ (head ++ '[' :: (inside ++ ']' :: (tail ++ ['>']))) ++ rest) =
        lexemes .content rest :=
    lexemes_of_declarationWidth (startsDeclaration_append hs _) (by simpa using hw)
  simpa using hskip

/-- With no element open, a close tag is dropped, whatever it holds. -/
theorem run_skip_close {body : List Char} (hb : '>' ∉ body) (s : List Char) :
    Builder.run {} (lexemes .content ('<' :: '/' :: body ++ '>' :: s)) =
      Builder.run {} (lexemes .content s) := by
  have hstep : Step.markup ('/' :: (body ++ '>' :: s)) =
      ⟨closeLexeme body, 1 + body.length + 1, .content⟩ := by
    simp [Step.markup, Step.delimited, before?_append_char hb s]
  simp only [List.cons_append]
  rw [lexemes_markup, hstep, drop_close, closeLexeme]
  split <;> rfl

/-- The attributes of a start tag, all with quoted values. -/
inductive QuotedAttributes : List Char → Prop
  | nil : QuotedAttributes []
  | cons {gap name before after value s : List Char} {q : Char} (hg : isBlankText gap = true)
      (hn : isAttributeName name = true) (hb : isBlankText before = true)
      (ha : isBlankText after = true) (hq : isQuote q = true) (hv : q ∉ value)
      (hs : QuotedAttributes s) :
      QuotedAttributes (gap ++ (name ++ (before ++ '=' :: (after ++ q :: value ++ q :: s))))

theorem QuotedAttributes.lexemes {s : List Char} (h : QuotedAttributes s) (rest : List Char) :
    ∃ attributes : List Attribute,
      Markup.lexemes .tag (s ++ rest) = attributes.map Attribute.lexeme ++ Markup.lexemes .tag rest := by
  induction h with
  | nil => exact ⟨[], rfl⟩
  | @cons gap name before after value s q hg hn hb ha hq hv hs ih =>
    obtain ⟨attributes, ih⟩ := ih
    refine ⟨⟨name, value⟩ :: attributes, ?_⟩
    have hq := lexemes_quoted hn (isBlankText_iff.1 hb) (isBlankText_iff.1 ha) hq hv (s ++ rest)
    simp only [List.append_assoc, List.cons_append] at hq ⊢
    rw [lexemes_blanks (isBlankText_iff.1 hg), hq, ih]
    rfl

/-- **The texts that may stand before a document**: text, comments, CDATA sections, instructions,
declarations, close tags and complete start tags of other elements, in any order. -/
inductive Prologue : List Char → Prop
  | nil : Prologue []
  | text {text p : List Char} (ht : '<' ∉ text) (hp : Prologue p) : Prologue (text ++ p)
  | comment {body p : List Char} (hb : occursIn "-->".toList body = false) (hp : Prologue p) :
      Prologue ("<!--".toList ++ body ++ "-->".toList ++ p)
  | cdata {content p : List Char} (hc : occursIn "]]>".toList content = false) (hp : Prologue p) :
      Prologue ("<![CDATA[".toList ++ content ++ "]]>".toList ++ p)
  | instruction {body p : List Char} (hb : occursIn "?>".toList body = false) (hp : Prologue p) :
      Prologue ("<?".toList ++ body ++ "?>".toList ++ p)
  | declaration {body p : List Char} (hs : startsDeclaration body = true) (hgt : '>' ∉ body)
      (hopen : '[' ∉ body) (hp : Prologue p) : Prologue ("<!".toList ++ body ++ '>' :: p)
  | subset {head inside tail p : List Char} (hs : startsDeclaration head = true) (hgt : '>' ∉ head)
      (hopen : '[' ∉ head) (hclose : ']' ∉ inside) (htail : '>' ∉ tail) (hp : Prologue p) :
      Prologue ("<!".toList ++ head ++ '[' :: (inside ++ ']' :: (tail ++ '>' :: p)))
  | close {body p : List Char} (hb : '>' ∉ body) (hp : Prologue p) :
      Prologue ('<' :: '/' :: body ++ '>' :: p)
  | start {tag a gap closing p : List Char} (ht : isTagName tag = true) (hroot : tag ≠ rootTag)
      (ha : QuotedAttributes a) (hsep : Clear isNameChar (a ++ gap)) (hg : isBlankText gap = true)
      (hc : closing = ['>'] ∨ closing = ['/', '>']) (hp : Prologue p) :
      Prologue ('<' :: tag ++ (a ++ (gap ++ (closing ++ p))))

/-- With no element open, a complete start tag other than the root's is dropped. -/
theorem run_skip_start {tag a gap closing : List Char} (ht : isTagName tag = true)
    (hroot : tag ≠ rootTag) (ha : QuotedAttributes a) (hsep : Clear isNameChar (a ++ gap))
    (hg : isBlankText gap = true) (hc : closing = ['>'] ∨ closing = ['/', '>']) (s : List Char) :
    Builder.run {} (lexemes .content ('<' :: tag ++ (a ++ (gap ++ (closing ++ s))))) =
      Builder.run {} (lexemes .content s) := by
  have hclear : Clear isNameChar (a ++ (gap ++ (closing ++ s))) := by
    rw [← List.append_assoc]
    refine hsep.append_clear ?_
    rcases hc with rfl | rfl <;> exact (clear_cons _ _ _).2 (by decide)
  obtain ⟨attributes, hl⟩ := ha.lexemes (gap ++ (closing ++ s))
  rw [lexemes_open ht hclear, hl, run_startTag, lexemes_blanks (isBlankText_iff.1 hg)]
  rcases hc with rfl | rfl
  · rw [List.singleton_append, lexemes_tagEnd]
    simp [Builder.run, Builder.feed, Builder.start, hroot]
  · rw [List.cons_append, List.singleton_append, lexemes_selfClose]
    simp [Builder.run, Builder.feed, Builder.start, hroot]

/-- **What stands before a document is dropped.** -/
theorem Prologue.run_skip {p : List Char} (h : Prologue p) (s : List Char) :
    Builder.run {} (lexemes .content (p ++ s)) = Builder.run {} (lexemes .content s) := by
  induction h with
  | nil => rfl
  | text ht _ ih => rw [List.append_assoc, run_skip_text ht, ih]
  | comment hb _ ih =>
    rw [List.append_assoc, lexemes_comment hb]
    exact ih
  | cdata hc _ ih =>
    rw [List.append_assoc, lexemes_cdata hc]
    exact ih
  | instruction hb _ ih => rw [List.append_assoc, lexemes_instruction hb, ih]
  | declaration hs hgt hopen _ ih =>
    rw [List.append_assoc, List.cons_append, lexemes_declaration hs hgt hopen, ih]
  | @subset head inside tail p hs hgt hopen hclose htail _ ih =>
    have hskip := lexemes_subset hs hgt hopen hclose htail (p ++ s)
    simp only [List.append_assoc, List.cons_append] at hskip ⊢
    rw [hskip, ih]
  | @close body p hb _ ih =>
    have hskip := run_skip_close hb (p ++ s)
    simp only [List.append_assoc, List.cons_append] at hskip ⊢
    rw [hskip, ih]
  | @start tag a gap closing p ht hroot ha hsep hg hc _ ih =>
    have hskip := run_skip_start ht hroot ha hsep hg hc (p ++ s)
    simp only [List.append_assoc, List.cons_append] at hskip ⊢
    rw [hskip, ih]

/-- **What stands around a document does not matter.** Behind a prologue every text is read as it is
read alone, with the same tree or the same error, and a tree that can be read from a text is read from
it whatever follows. -/
theorem parse_surrounded {p : List Char} (hp : Prologue p) (s : List Char) :
    parse (p ++ s) = parse s ∧
      ∀ root, parse s = .ok root → ∀ u, parse (p ++ s ++ u) = .ok root := by
  have hskip : ∀ t, parse (p ++ t) = parse t := fun t => hp.run_skip t
  refine ⟨hskip s, fun root h u => ?_⟩
  rw [List.append_assoc, hskip]
  exact run_append h u

/-- An instruction, a declaration with a `>` in its subset, a comment and values that hold a root's start
tag, a close tag with blanks, attributes without a blank between them, and behind the document a close tag
and a comment that never ends. -/
theorem parse_surrounded_hard :
    ∃ root,
      Prologue ("<?xml version='1.0'?>\n<!DOCTYPE svg [<!ENTITY gt '>'>] ><!--<svg>--></g >" ++
        "<html lang=\"<svg>\"id='/>' />x").toList ∧
      parse "t<svg a='1'><g></svg>".toList = .ok root ∧
      parse ("<?xml version='1.0'?>\n<!DOCTYPE svg [<!ENTITY gt '>'>] ><!--<svg>--></g >" ++
        "<html lang=\"<svg>\"id='/>' />xt<svg a='1'><g></svg></svg><!--").toList = .ok root := by
  have hhtml : QuotedAttributes ([' '] ++ ("lang".toList ++ ([] ++ '=' :: ([] ++
      '"' :: "<svg>".toList ++ '"' ::
        ([] ++ ("id".toList ++ ([] ++ '=' :: ([] ++ '\'' :: "/>".toList ++ '\'' :: []))))))) ) :=
    .cons rfl (by decide) rfl rfl rfl (by decide)
      (.cons rfl (by decide) rfl rfl rfl (by decide) .nil)
  have hp : Prologue _ :=
    @Prologue.instruction "xml version='1.0'".toList _ (by decide) <|
    @Prologue.text ['\n'] _ (by decide) <|
    @Prologue.subset "DOCTYPE svg ".toList "<!ENTITY gt '>'>".toList [' '] _ rfl (by decide)
      (by decide) (by decide) (by decide) <|
    @Prologue.comment "<svg>".toList _ (by decide) <|
    @Prologue.close "g ".toList _ (by decide) <|
    @Prologue.start "html".toList _ [' '] _ _ (by decide +kernel) (by decide) hhtml
      ((clear_cons _ _ _).2 (by decide +kernel)) rfl (.inr rfl) <|
    @Prologue.text ['x'] _ (by decide) .nil
  obtain ⟨root, hroot, -⟩ := exists_parse_of_any (s := "t<svg a='1'><g></svg>".toList)
    (p := fun _ => true) (by decide +kernel)
  have h := (parse_surrounded hp _).2 root hroot "</svg><!--".toList
  refine ⟨root, ?_, hroot, ?_⟩
  · simpa using hp
  · simpa using h

end SvgComponent.Markup
