import SvgComponent.Proofs.JsxReading
import SvgComponent.Proofs.KeptCharacters

/-!
# Text that reads as itself

Attribute values, comments and character data are written so that nothing in them ends what they stand in,
and so that they can be told from what is written.

* `decodeMarks`, `quoteAttribute_enclosed`: a value between quotation marks, of which the entities of the
  marks are read.
* `unguardClose`, `formatComment_closed`: a comment, which is closed at its end and nowhere before.
* `Contained`, `escapeText_words`: character data, which starts no tag and no container but those of
  single characters, and which has the words it is written for.
-/

namespace SvgComponent.Jsx

open Text Markup Source

/-! ## Attribute values -/

/-- The text with each entity of a quotation mark replaced by the mark, from left to right. -/
def decodeMarks : List Char → List Char
  | '&' :: 'q' :: 'u' :: 'o' :: 't' :: ';' :: s => '"' :: decodeMarks s
  | '&' :: '#' :: '3' :: '9' :: ';' :: s => '\'' :: decodeMarks s
  | c :: s => c :: decodeMarks s
  | [] => []

/-- The text with each mark of this kind written as its entity. -/
def withEntities (q : Quote) (s : List Char) : List Char :=
  s.flatMap fun c => if c = q.char then q.entity else [c]

theorem withEntities_cons_of_ne {q : Quote} {c : Char} (hc : c ≠ q.char) (s : List Char) :
    withEntities q (c :: s) = c :: withEntities q s := by
  simp [withEntities, hc]

theorem withEntities_cons_self (q : Quote) (s : List Char) :
    withEntities q (q.char :: s) = q.entity ++ withEntities q s := by
  simp [withEntities]

theorem decodeMarks_entity (q : Quote) (s : List Char) :
    decodeMarks (q.entity ++ s) = q.char :: decodeMarks s := by
  cases q <;> rfl

theorem not_mem_withEntities (q : Quote) (s : List Char) : q.char ∉ withEntities q s := by
  intro hm
  obtain ⟨c, -, hc⟩ := List.mem_flatMap.1 hm
  split at hc
  · revert hc
    cases q <;> decide
  · rename_i hne
    exact hne (List.mem_singleton.1 hc).symm

/-- A text without an ampersand that stands at the start of what is written stood there before: an entity
that is put in starts with an ampersand. -/
theorem exists_of_withEntities {q : Quote} {a s t : List Char} (ha : '&' ∉ a)
    (h : withEntities q s = a ++ t) : ∃ s', s = a ++ s' := by
  induction a generalizing s with
  | nil => exact ⟨s, rfl⟩
  | cons x a ih =>
    simp only [List.mem_cons, not_or] at ha
    cases s with
    | nil => simp [withEntities] at h
    | cons c s =>
      by_cases hc : c = q.char
      · have hx : '&' = x := by
          rw [hc, withEntities_cons_self] at h
          cases q <;> simpa [Quote.entity] using congrArg List.head? h
        exact absurd hx ha.1
      · rw [withEntities_cons_of_ne hc, List.cons_append, List.cons.injEq] at h
        obtain ⟨s', rfl⟩ := ih ha.2 h.2
        exact ⟨s', by rw [h.1, List.cons_append]⟩

/-- **Entities that are put in change nothing for the reader**, whatever stands next to them. -/
theorem decodeMarks_withEntities (q : Quote) (s : List Char) :
    decodeMarks (withEntities q s) = decodeMarks s := by
  fun_induction decodeMarks s with
  | case1 s ih =>
    have hwritten : withEntities q ('&' :: 'q' :: 'u' :: 'o' :: 't' :: ';' :: s) =
        Quote.double.entity ++ withEntities q s := by
      cases q <;> simp [withEntities, Quote.char, Quote.entity]
    rw [hwritten, decodeMarks_entity, ih]
    rfl
  | case2 s ih =>
    have hwritten : withEntities q ('&' :: '#' :: '3' :: '9' :: ';' :: s) =
        Quote.single.entity ++ withEntities q s := by
      cases q <;> simp [withEntities, Quote.char, Quote.entity]
    rw [hwritten, decodeMarks_entity, ih]
    rfl
  | case3 c s hquot hnumber ih =>
    by_cases hc : c = q.char
    · rw [hc, withEntities_cons_self, decodeMarks_entity, ih]
    · -- no entity starts here, since none did in `s`
      rw [withEntities_cons_of_ne hc, decodeMarks, ih]
      · rintro t rfl hs
        obtain ⟨s', hs'⟩ := exists_of_withEntities (a := "quot;".toList) (by decide) hs
        exact hquot s' rfl hs'
      · rintro t rfl hs
        obtain ⟨s', hs'⟩ := exists_of_withEntities (a := "#39;".toList) (by decide) hs
        exact hnumber s' rfl hs'
  | case4 => rfl

/-- **A value stays between its marks and keeps its meaning.** The mark around it does not stand in it;
it is the preferred one unless only the other one can be used without an entity. -/
theorem quoteAttribute_enclosed (preferred : Quote) (value : List Char) :
    ∃ q inner, quoteAttribute preferred value = q.enclose inner ∧ q.char ∉ inner ∧
      (q = preferred ↔ ¬(preferred.char ∈ value ∧ preferred.other.char ∉ value)) ∧
      decodeMarks inner = decodeMarks value := by
  unfold quoteAttribute
  split
  · rename_i hfree
    exact ⟨preferred, value, rfl, hfree, by simp [hfree], rfl⟩
  split
  · rename_i hpreferred hfree
    refine ⟨preferred.other, value, rfl, hfree, ?_, rfl⟩
    have hne : preferred.other ≠ preferred := by cases preferred <;> decide
    exact iff_of_false hne fun hnot => hnot ⟨not_not.1 hpreferred, hfree⟩
  · rename_i hother
    refine ⟨preferred, withEntities preferred value, rfl, not_mem_withEntities _ _, ?_,
      decodeMarks_withEntities _ _⟩
    exact iff_of_true rfl fun hand => hother hand.2

-- an ampersand and parts of entities in front of the marks that are written as entities
example : quoteAttribute .double "&\"&quot\"';quot;".toList =
    "\"&&quot;&quot&quot;';quot;\"".toList := by
  decide

/-! ## Comments -/

/-- The text with each `*\/` replaced by `*/`, from left to right. -/
def unguardClose : List Char → List Char
  | '*' :: '\\' :: '/' :: s => '*' :: '/' :: unguardClose s
  | c :: s => c :: unguardClose s
  | [] => []

theorem guardClose_cons_of_ne {c : Char} (hc : c ≠ '*') (s : List Char) :
    guardClose (c :: s) = c :: guardClose s := by
  rw [guardClose, if_neg fun h => hc h.1]

/-- **A guarded comment reads as the comment.** -/
theorem unguardClose_guardClose (s : List Char) : unguardClose (guardClose s) = unguardClose s := by
  fun_induction unguardClose s with
  | case1 s ih =>
    have hguarded : guardClose ('*' :: '\\' :: '/' :: s) = '*' :: '\\' :: '/' :: guardClose s := by
      rw [guardClose, if_neg (by simp), guardClose_cons_of_ne (by decide),
        guardClose_cons_of_ne (by decide)]
    rw [hguarded, unguardClose, ih]
  | case2 c s hnot ih =>
    rw [guardClose]
    split
    · rename_i hclose
      obtain ⟨rfl, hs⟩ := hclose
      obtain ⟨t, rfl⟩ := List.head?_eq_some_iff.1 hs
      rw [guardClose_cons_of_ne (by decide)] at ih ⊢
      rw [unguardClose, ← ih, unguardClose]
      simp
    · -- no guard starts here, since none did in `s`
      rw [unguardClose, ih]
      rintro t rfl hs
      have hfirst : s.head? = some '\\' := by rw [← head?_guardClose, hs, List.head?_cons]
      obtain ⟨u, rfl⟩ := List.head?_eq_some_iff.1 hfirst
      rw [guardClose_cons_of_ne (by decide), List.cons.injEq] at hs
      have hsecond : u.head? = some '/' := by rw [← head?_guardClose, hs.2, List.head?_cons]
      obtain ⟨v, rfl⟩ := List.head?_eq_some_iff.1 hsecond
      exact hnot v rfl rfl
  | case3 => rfl

theorem getLast?_guardClose (s : List Char) : (guardClose s).getLast? = s.getLast? := by
  induction s with
  | nil => rfl
  | cons c s ih =>
    rw [guardClose]
    split
    · rename_i hclose
      obtain ⟨d, t, rfl⟩ := List.exists_cons_of_ne_nil (l := s) (by rintro rfl; simp at hclose)
      simp [List.getLast?_cons, ih]
    · simp [List.getLast?_cons, ih]

/-- The comment stands between blanks. -/
theorem strip_commentInside (body : List Char) :
    strip (commentInside body) = guardClose (strip body) := by
  have hblank : isBlank ' ' = true := by decide
  unfold commentInside
  cases hbody : guardClose (strip body) with
  | nil => decide
  | cons c t =>
    have hfirst : isBlank c = false := by
      apply clear_strip body
      rw [← head?_guardClose, hbody, List.head?_cons]
    obtain ⟨d, hd⟩ : ∃ d, (c :: t).getLast? = some d :=
      ⟨_, List.getLast?_eq_getLast_of_ne_nil (List.cons_ne_nil c t)⟩
    have hlast : isBlank d = false := by
      apply getLast?_stripEnd (s := stripStart body)
      rw [← strip, ← getLast?_guardClose, hbody, hd]
    have hend : stripEnd (c :: t ++ [' ']) = stripEnd (c :: t) := by
      simp only [stripEnd, List.foldr_append, List.foldr_cons, List.foldr_nil, List.isEmpty_nil,
        hblank, Bool.and_self, if_true]
    show strip (' ' :: (c :: t ++ [' '])) = c :: t
    rw [strip, stripStart, List.dropWhile_cons_of_pos hblank, List.cons_append,
      List.dropWhile_cons_of_neg (by simp [hfirst]), ← List.cons_append, hend,
      stripEnd_of_getLast? hlast hd]

/-- A text in which nothing closes a comment, in front of the end of one, is closed there only. -/
theorem append_close_iff {inside before behind : List Char} (h : ¬['*', '/'] <:+: inside) :
    inside ++ "*/\x7d".toList = before ++ "*/".toList ++ behind ↔
      before = inside ∧ behind = ['\x7d'] := by
  constructor
  · intro heq
    rw [List.append_assoc] at heq
    rcases List.append_eq_append_iff.1 heq with ⟨m, rfl, hm⟩ | ⟨m, rfl, hm⟩
    · rcases m with _ | ⟨x, _ | ⟨y, _ | ⟨z, m⟩⟩⟩
      · exact ⟨List.append_nil inside, by simpa using hm.symm⟩
      · simp at hm
      · simp at hm
      · simp at hm
    · rcases m with _ | ⟨x, _ | ⟨y, m⟩⟩
      · exact ⟨(List.append_nil before).symm, by simpa using hm⟩
      · simp at hm
      · obtain ⟨rfl, rfl, -⟩ : '*' = x ∧ '/' = y ∧ behind = m ++ "*/\x7d".toList := by simpa using hm
        exact absurd ⟨before, m, by simp⟩ h
  · rintro ⟨rfl, rfl⟩
    simp

/-- **A comment is closed at its end and nowhere before**, and what stands in it reads as the comment. -/
theorem formatComment_closed (body : List Char) :
    ∃ inside, formatComment body = "\x7b/*".toList ++ inside ++ "*/\x7d".toList ∧
      (∀ before behind, inside ++ "*/\x7d".toList = before ++ "*/".toList ++ behind ↔
        before = inside ∧ behind = ['\x7d']) ∧
      unguardClose (strip inside) = unguardClose (strip body) := by
  refine ⟨commentInside body, ?_, fun before behind => ?_, ?_⟩
  · rw [formatComment_eq, List.append_assoc]
  · exact append_close_iff (not_close_commentInside body)
  · rw [strip_commentInside, unguardClose_guardClose]

-- the body starts and ends with what could close it together with a delimiter
example : formatComment "/ **/ *\\/ /*".toList = "\x7b/* / **\\/ *\\/ /* */\x7d".toList := by
  decide

/-! ## Character data -/

/-- Every special character of the text belongs to a container that holds one. -/
def Contained (t : List Char) : Prop :=
  ∀ i c, t[i]? = some c → isSpecial c = true →
    ∃ left d right, isSpecial d = true ∧ t = left ++ container d ++ right ∧
      left.length ≤ i ∧ i < left.length + (container d).length

theorem contained_nil : Contained [] := by
  intro i c h
  simp at h

theorem contained_char {c : Char} (hc : isSpecial c = false) : Contained [c] := by
  intro i d h hd
  obtain rfl := List.mem_singleton.1 (List.mem_of_getElem? h)
  rw [hc] at hd
  cases hd

theorem contained_container {c : Char} (hc : isSpecial c = true) : Contained (container c) := by
  intro i d h _
  have hi := (List.getElem?_eq_some_iff.1 h).1
  exact ⟨[], c, [], hc, by simp, by simp, by simpa using hi⟩

theorem Contained.append {a b : List Char} (ha : Contained a) (hb : Contained b) :
    Contained (a ++ b) := by
  intro i c h hc
  rcases Nat.lt_or_ge i a.length with hi | hi
  · rw [List.getElem?_append_left hi] at h
    obtain ⟨left, d, right, hd, rfl, hle, hlt⟩ := ha i c h hc
    exact ⟨left, d, right ++ b, hd, by simp, hle, hlt⟩
  · rw [List.getElem?_append_right hi] at h
    obtain ⟨left, d, right, hd, rfl, hle, hlt⟩ := hb _ c h hc
    refine ⟨a ++ left, d, right, hd, by simp, ?_, ?_⟩
    · rw [List.length_append]
      omega
    · rw [List.length_append]
      omega

theorem contained_containSpecial (s : List Char) : Contained (containSpecial s) := by
  induction s with
  | nil => exact contained_nil
  | cons c s ih =>
    rw [containSpecial, List.flatMap_cons]
    refine Contained.append ?_ ih
    cases hc : isSpecial c with
    | true => simpa using contained_container hc
    | false => simpa using contained_char hc

/-- **Character data reads as its words.** All special characters in it are in containers, undoing these
gives the words, and the reader finds nothing but their characters. So texts are written alike exactly if
they have the same words. -/
theorem escapeText_words (s t : List Char) :
    Contained (escapeText s) ∧ decode (escapeText s) = [' '].intercalate (words s) ∧
      Pieced (escapeText s) (([' '].intercalate (words s)).map textPiece) ∧
      (escapeText s = escapeText t ↔ words s = words t) := by
  have hdecode : ∀ u, decode (escapeText u) = spaced u := fun u =>
    (spells_containSpecial (spaced u)).decode_eq
  refine ⟨contained_containSpecial _, hdecode s, pieced_containSpecial _, fun h => ?_, fun h => ?_⟩
  · have hspaced : spaced s = spaced t := by rw [← hdecode, h, hdecode]
    rw [← words_spaced s, hspaced, words_spaced]
  · rw [escapeText, spaced, h]
    rfl

end SvgComponent.Jsx
