import Mathlib.Logic.Relation
import SvgComponent.Proofs.DocumentOrder

/-!
# Void elements however they are closed

A void element has no children, so the reader does not wait for it to be closed: its start tag may end as
any other or close itself, and a close tag of its name has nothing to close, wherever it stands. This rests on
one invariant of a tree under construction, that no open element is void (`Builder.NoVoid`). It is kept
by every lexeme, whatever came before, so that all of this holds of unbalanced sequences too.

* `VoidEdit`: one change to how void elements are closed in a sequence of lexemes.
* `build_void`: such changes, as many as there may be, change neither the tree nor the error.
-/

namespace SvgComponent.Markup

/-! ## The open elements -/

/-- The tags of the open elements, innermost first. -/
def Builder.tags (b : Builder) : List (List Char) := b.opened.map Element.tag

/-- A tree under construction in which no open element is void. -/
def Builder.NoVoid (b : Builder) : Prop := ∀ tag ∈ b.tags, isVoid tag = false

section
variable {b b' : Builder}

theorem mem_tags_start {e : Element} {leavesOpen : Bool} (h : b.start e leavesOpen = .more b')
    {tag : List Char} (ht : tag ∈ b'.tags) : tag ∈ b.tags ∨ leavesOpen = true ∧ tag = e.tag := by
  obtain ⟨opened, pending⟩ := b
  cases opened with
  | nil =>
    simp only [Builder.start] at h
    split at h
    · split at h
      · rename_i hopen
        cases h
        exact .inr ⟨hopen, by simpa [Builder.tags] using ht⟩
      · cases h
    · cases h
      cases ht
  | cons p ps =>
    simp only [Builder.start] at h
    split at h
    · rename_i hopen
      cases h
      rcases List.mem_cons.1 ht with rfl | ht
      · exact .inr ⟨hopen, rfl⟩
      · exact .inl ht
    · cases h
      exact .inl ht

theorem mem_tags_close {name : List Char} (h : b.close name = .more b') {tag : List Char}
    (ht : tag ∈ b'.tags) : tag ∈ b.tags := by
  obtain ⟨opened, pending⟩ := b
  cases opened with
  | nil =>
    cases h
    exact ht
  | cons e parents =>
    simp only [Builder.close] at h
    split at h
    · cases h
      exact ht
    · cases h
    · rename_i closed rest _ hclose
      cases h
      -- what is left open is what stood behind the closed element
      have htags := (closeThrough_eq_some hclose).1
      rw [Builder.tags, addChild_tags] at ht
      have hmem : tag ∈ ((e :: parents).map Element.tag).dropWhile (· ≠ name) := by
        rw [htags]
        exact List.mem_cons_of_mem _ ht
      exact (List.dropWhile_sublist _).subset hmem

/-- **One lexeme**: an element that is open behind it was open before it, or is not void. -/
theorem mem_tags_feed {l : Lexeme} (h : b.feed l = .more b') {tag : List Char}
    (ht : tag ∈ b'.tags) : tag ∈ b.tags ∨ isVoid tag = false := by
  have hchild : ∀ n, Progress.more { b with opened := addChild n b.opened } = .more b' →
      tag ∈ b.tags ∨ isVoid tag = false := by
    intro n hn
    cases hn
    rw [Builder.tags, addChild_tags] at ht
    exact .inl ht
  cases l with
  | openTag name =>
    cases h
    exact .inl ht
  | «attribute» name value =>
    cases h
    exact .inl ht
  | tagEnd =>
    simp only [Builder.feed] at h
    split at h
    · cases h
      exact .inl ht
    · refine (mem_tags_start h ht).imp id ?_
      rintro ⟨hopen, rfl⟩
      simpa using hopen
  | selfClose =>
    simp only [Builder.feed] at h
    split at h
    · cases h
      exact .inl ht
    · refine (mem_tags_start h ht).imp id ?_
      rintro ⟨hopen, -⟩
      cases hopen
  | closeTag name => exact .inl (mem_tags_close h ht)
  | text content => exact hchild _ h
  | cdata content => exact hchild _ h
  | comment body => exact hchild _ h

theorem Builder.NoVoid.feed (hb : b.NoVoid) {l : Lexeme} (h : b.feed l = .more b') : b'.NoVoid :=
  fun tag ht => (mem_tags_feed h ht).elim (hb tag) id

/-- **A close tag of a void element has nothing to close.** -/
theorem Builder.NoVoid.feed_close (hb : b.NoVoid) {name : List Char} (hv : isVoid name = true) :
    b.feed (.closeTag name) = .more b := by
  obtain ⟨opened, pending⟩ := b
  show Builder.close _ name = _
  cases opened with
  | nil => rfl
  | cons e parents =>
    cases hclose : closeThrough name e parents with
    | none => simp only [Builder.close, hclose]
    | some closed =>
      have htags := (closeThrough_eq_some hclose).1
      have hmem : name ∈ (e :: parents).map Element.tag := by
        apply (List.dropWhile_sublist (p := (· ≠ name))).subset
        rw [htags]
        exact List.mem_cons_self
      rw [hb name hmem] at hv
      cases hv

/-! ## The start tag being read -/

/-- Whether the lexeme begins or completes a start tag. -/
def Lexeme.isTagEdge : Lexeme → Bool
  | .openTag _ | .tagEnd | .selfClose => true
  | _ => false

/-- Other lexemes leave the start tag that is being read unfinished, and its tag as it is. -/
theorem pending_feed {l : Lexeme} (hl : l.isTagEdge = false) (h : b.feed l = .more b') :
    b'.pending.map Element.tag = b.pending.map Element.tag := by
  cases l with
  | openTag name => cases hl
  | tagEnd => cases hl
  | selfClose => cases hl
  | «attribute» name value =>
    cases h
    rw [Option.map_map]
    rfl
  | closeTag name =>
    simp only [Builder.feed, Builder.close] at h
    split at h
    · cases h
      rfl
    · split at h <;> cases h <;> rfl
  | text content =>
    cases h
    rfl
  | cdata content =>
    cases h
    rfl
  | comment body =>
    cases h
    rfl

end

/-- The start tag of a void element may as well close itself. -/
theorem run_tagEnd_void {inside : List Lexeme} (hi : ∀ l ∈ inside, l.isTagEdge = false)
    {tag : List Char} (hv : isVoid tag = true) (behind : List Lexeme) {b : Builder}
    (hb : b.pending.map Element.tag = some tag) :
    b.run (inside ++ .tagEnd :: behind) = b.run (inside ++ .selfClose :: behind) := by
  induction inside generalizing b with
  | nil =>
    obtain ⟨e, he, rfl⟩ := Option.map_eq_some_iff.1 hb
    have hfeed : b.feed .tagEnd = b.feed .selfClose := by
      simp only [Builder.feed, he, hv, Bool.not_true]
    rw [List.nil_append, List.nil_append, run_cons, run_cons, hfeed]
  | cons l inside ih =>
    rw [List.forall_mem_cons] at hi
    rw [List.cons_append, List.cons_append, run_cons, run_cons]
    cases hf : b.feed l with
    | done root => rfl
    | more b' => exact ih hi.2 ((pending_feed hi.1 hf).trans hb)

/-! ## Changes to a sequence -/

/-- One change to how void elements are closed: a start tag closes itself instead of ending as others do, or
a close tag is put anywhere. -/
inductive VoidEdit : List Lexeme → List Lexeme → Prop
  | selfClose {tag : List Char} (hv : isVoid tag = true) {inside : List Lexeme}
      (hi : ∀ l ∈ inside, l.isTagEdge = false) (before behind : List Lexeme) :
      VoidEdit (before ++ .openTag tag :: (inside ++ .tagEnd :: behind))
        (before ++ .openTag tag :: (inside ++ .selfClose :: behind))
  | close {name : List Char} (hv : isVoid name = true) (before behind : List Lexeme) :
      VoidEdit (before ++ behind) (before ++ .closeTag name :: behind)

/-- Lexemes that make no difference to any tree make none behind others. -/
theorem run_congr {ls ms : List Lexeme} (h : ∀ b : Builder, b.NoVoid → b.run ls = b.run ms)
    (before : List Lexeme) {b : Builder} (hb : b.NoVoid) :
    b.run (before ++ ls) = b.run (before ++ ms) := by
  induction before generalizing b with
  | nil => exact h b hb
  | cons l before ih =>
    rw [List.cons_append, List.cons_append, run_cons, run_cons]
    cases hf : b.feed l with
    | done root => rfl
    | more b' => exact ih (hb.feed hf)

/-- **One change changes nothing.** -/
theorem VoidEdit.build_eq {ls ms : List Lexeme} (h : VoidEdit ls ms) : build ls = build ms := by
  have hempty : Builder.NoVoid {} := fun tag ht => by cases ht
  cases h with
  | selfClose hv hi before behind =>
    refine run_congr (fun b _ => ?_) before hempty
    rw [run_cons, run_cons]
    exact run_tagEnd_void hi hv behind rfl
  | close hv before behind =>
    refine run_congr (fun b hb => ?_) before hempty
    rw [run_cons, hb.feed_close hv]
    rfl

theorem build_eq_of_edits {ls ms : List Lexeme} (h : Relation.EqvGen VoidEdit ls ms) :
    build ls = build ms := by
  induction h with
  | rel ls ms h => exact h.build_eq
  | refl ls => rfl
  | symm ls ms _ ih => exact ih.symm
  | trans ls ms ns _ _ ih ih' => exact ih.trans ih'

/-- **Void elements may be closed in any way.** Sequences that can be changed into each other make the same
tree or the same error; so do, among any other lexemes, those of the three ways to write a path. -/
theorem build_void :
    (∀ ls ms : List Lexeme, Relation.EqvGen VoidEdit ls ms → build ls = build ms) ∧
      ∀ before behind : List Lexeme,
        build (before ++ lexemes .content "<path>".toList ++ behind) =
            build (before ++ lexemes .content "<path/>".toList ++ behind) ∧
          build (before ++ lexemes .content "<path></path>".toList ++ behind) =
            build (before ++ lexemes .content "<path/>".toList ++ behind) := by
  refine ⟨fun ls ms h => build_eq_of_edits h, fun before behind => ?_⟩
  have hvoid : isVoid "path".toList = true := by decide
  have hended : lexemes .content "<path>".toList = [.openTag "path".toList, .tagEnd] := by
    decide +kernel
  have hself : lexemes .content "<path/>".toList = [.openTag "path".toList, .selfClose] := by
    decide +kernel
  have hclosed : lexemes .content "<path></path>".toList =
      [.openTag "path".toList, .tagEnd, .closeTag "path".toList] := by
    decide +kernel
  have hpath : build (before ++ lexemes .content "<path>".toList ++ behind) =
      build (before ++ lexemes .content "<path/>".toList ++ behind) := by
    have hedit := VoidEdit.selfClose hvoid (List.forall_mem_nil _) before behind
    rw [hended, hself]
    simpa using hedit.build_eq
  refine ⟨hpath, Eq.trans ?_ hpath⟩
  have hedit := VoidEdit.close hvoid (before ++ [.openTag "path".toList, .tagEnd]) behind
  rw [hended, hclosed]
  simpa using hedit.build_eq.symm

/-- The Kelvin sign counts as a `k`, and a close tag may be one of another void element. -/
theorem build_void_unbalanced :
    Relation.EqvGen VoidEdit
        (lexemes .content "<svg><lin\u212A a='1'></CIRCLE><g></path></svg>".toList)
        (lexemes .content "<svg><lin\u212A a='1'/><g></svg>".toList) ∧
      build (lexemes .content "<svg><lin\u212A a='1'></CIRCLE><g></path></svg>".toList) =
        build (lexemes .content "<svg><lin\u212A a='1'/><g></svg>".toList) := by
  have hleft : lexemes .content "<svg><lin\u212A a='1'></CIRCLE><g></path></svg>".toList =
      [.openTag "svg".toList, .tagEnd, .openTag "lin\u212A".toList, .attribute ['a'] ['1'], .tagEnd,
        .closeTag "CIRCLE".toList, .openTag ['g'], .tagEnd, .closeTag "path".toList,
        .closeTag "svg".toList] := by
    decide +kernel
  have hright : lexemes .content "<svg><lin\u212A a='1'/><g></svg>".toList =
      [.openTag "svg".toList, .tagEnd, .openTag "lin\u212A".toList, .attribute ['a'] ['1'],
        .selfClose, .openTag ['g'], .tagEnd, .closeTag "svg".toList] := by
    decide +kernel
  have hpath := VoidEdit.close (show isVoid "path".toList = true by decide)
    [.openTag "svg".toList, .tagEnd, .openTag "lin\u212A".toList, .attribute ['a'] ['1'], .tagEnd,
      .closeTag "CIRCLE".toList, .openTag ['g'], .tagEnd] [.closeTag "svg".toList]
  have hcircle := VoidEdit.close (show isVoid "CIRCLE".toList = true by decide)
    [.openTag "svg".toList, .tagEnd, .openTag "lin\u212A".toList, .attribute ['a'] ['1'], .tagEnd]
    [.openTag ['g'], .tagEnd, .closeTag "svg".toList]
  have hlink := VoidEdit.selfClose (show isVoid "lin\u212A".toList = true by decide)
    (show ∀ l ∈ [Lexeme.attribute ['a'] ['1']], l.isTagEdge = false by decide)
    [.openTag "svg".toList, .tagEnd] [.openTag ['g'], .tagEnd, .closeTag "svg".toList]
  have hedits : Relation.EqvGen VoidEdit
      (lexemes .content "<svg><lin\u212A a='1'></CIRCLE><g></path></svg>".toList)
      (lexemes .content "<svg><lin\u212A a='1'/><g></svg>".toList) := by
    rw [hleft, hright]
    exact .trans _ _ _ (.symm _ _ (.rel _ _ hpath)) (.trans _ _ _ (.symm _ _ (.rel _ _ hcircle))
      (.rel _ _ hlink))
  exact ⟨hedits, build_void.1 _ _ hedits⟩

end SvgComponent.Markup
