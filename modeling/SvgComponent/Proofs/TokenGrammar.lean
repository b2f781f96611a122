import SvgComponent.Proofs.Reading

/-!
# The order in which lexemes come

Attributes and the two ends of a start tag come only inside a start tag, everything else only in
content, and a start tag that is not completed is the last thing in a text. `Lexeme.Leads` says which
lexeme can be read in which mode and where the reader is then, and `Phrase` which sequences follow from
that; the lexemes of every text are one (`phrase_lexemes`).
-/

namespace SvgComponent.Markup

open Text

/-- Whether the lexeme completes a start tag or closes elements. -/
def Lexeme.isEnding : Lexeme → Bool
  | .tagEnd | .selfClose | .closeTag _ => true
  | _ => false

/-- The lexeme can be read in the first mode, and the reader is in the second one afterwards. -/
inductive Lexeme.Leads : Mode → Lexeme → Mode → Prop
  | text {content : List Char} : Leads .content (.text content) .content
  | comment {body : List Char} : Leads .content (.comment body) .content
  | cdata {content : List Char} : Leads .content (.cdata content) .content
  | closeTag {name : List Char} : Leads .content (.closeTag name) .content
  | openTag {name : List Char} : Leads .content (.openTag name) .tag
  | attribute {name value : List Char} : Leads .tag (.attribute name value) .tag
  | tagEnd : Leads .tag .tagEnd .content
  | selfClose : Leads .tag .selfClose .content

/-- Lexemes that can be read one after the other, from a mode on. -/
inductive Phrase : Mode → List Lexeme → Prop
  | nil {mode : Mode} : Phrase mode []
  | cons {mode mode' : Mode} {l : Lexeme} {ls : List Lexeme} (hl : l.Leads mode mode')
      (hls : Phrase mode' ls) : Phrase mode (l :: ls)

/-- A step yields a lexeme of its mode, or none and the reader stays in the mode. -/
def Step.Obeys (mode : Mode) (step : Step) : Prop :=
  match step.lexeme with
  | none => step.mode = mode
  | some l => l.Leads mode step.mode

theorem Step.delimited_obeys {lexeme unclosed : List Char → Option Lexeme} {opening : Nat}
    {closing s : List Char}
    (hl : ∀ body, Step.Obeys .content ⟨lexeme body, 0, .content⟩)
    (hu : ∀ body, Step.Obeys .content ⟨unclosed body, 0, .content⟩) :
    (Step.delimited lexeme unclosed opening closing s).Obeys .content := by
  unfold Step.delimited
  split
  · exact hl _
  · exact hu _

theorem Step.markup_obeys (s : List Char) : (Step.markup s).Obeys .content := by
  unfold Step.markup
  split
  · exact Step.delimited_obeys (fun _ => .comment) (fun _ => .comment)
  split
  · exact Step.delimited_obeys (fun _ => .cdata) (fun _ => .cdata)
  split
  · exact Step.delimited_obeys (fun _ => rfl) (fun _ => rfl)
  split
  · exact rfl
  split
  · refine Step.delimited_obeys (fun body => ?_) (fun _ => rfl)
    unfold closeLexeme
    split
    · exact rfl
    · exact .closeTag
  split
  · exact .text
  · exact .openTag

theorem Step.tag_obeys (c : Char) (s : List Char) : (Step.tag c s).Obeys .tag := by
  unfold Step.tag
  split
  · exact rfl
  split
  · exact .selfClose
  split
  · exact .tagEnd
  split
  · exact .attribute
  · exact rfl

theorem Step.at_obeys (mode : Mode) (c : Char) (s : List Char) :
    (Step.at mode c s).Obeys mode := by
  cases mode with
  | content =>
    show (Step.content c s).Obeys .content
    unfold Step.content
    split
    · exact Step.markup_obeys s
    · exact Lexeme.Leads.text
  | tag => exact Step.tag_obeys c s

/-- **The lexemes of a text come in order.** -/
theorem phrase_lexemes (mode : Mode) (s : List Char) : Phrase mode (lexemes mode s) := by
  induction mode, s using steps_induction with
  | nil mode =>
    rw [lexemes_nil]
    exact .nil
  | cons mode c s ih =>
    have hstep := Step.at_obeys mode c s
    unfold Step.Obeys at hstep
    rw [lexemes_cons]
    cases hl : (Step.at mode c s).lexeme with
    | none =>
      rw [hl] at hstep
      rwa [hstep] at ih ⊢
    | some l =>
      rw [hl] at hstep
      exact .cons hstep ih

end SvgComponent.Markup
