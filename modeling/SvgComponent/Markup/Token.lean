import SvgComponent.Text.Blank
import SvgComponent.Text.Search
import SvgComponent.Text.Word

/-!
# Tokens of markup

Markup is read from left to right by single steps. A step looks at the text that is left, takes its
first character and some more, with or without a lexeme to show for them, and says whether the
reader is then inside a start tag or in content.

* `Lexeme`, `Token`: what is read, and where.
* `Step.content`, `Step.tag`: one step in content and inside a start tag.
* `tokenize`: all tokens of a text.

Reading never fails. A comment, CDATA section or quoted value that is not closed extends to the end
of the text; an instruction or a close tag that is not closed is dropped with all that follows; a
`<` that starts no tag is text.
-/

namespace SvgComponent.Markup

open Text

/-- What a token says. -/
inductive Lexeme where
  /-- Character data, up to the next `<`. -/
  | text (content : List Char)
  /-- A comment, without its delimiters. -/
  | comment (body : List Char)
  /-- A CDATA section, without its delimiters. -/
  | cdata (content : List Char)
  /-- The name of a start tag. -/
  | openTag (name : List Char)
  /-- An attribute of the start tag being read; the value is without its quotes. -/
  | attribute (name value : List Char)
  /-- The `>` of a start tag. -/
  | tagEnd
  /-- The `/>` of a start tag. -/
  | selfClose
  /-- A close tag. -/
  | closeTag (name : List Char)
  deriving DecidableEq, Repr

/-- A lexeme and the number of characters before it. -/
structure Token where
  lexeme : Lexeme
  pos : Nat
  deriving DecidableEq, Repr

/-- Where the reader is: in content, or inside a start tag. -/
inductive Mode where
  | content
  | tag
  deriving DecidableEq, Repr

/-- One step of the reader: the lexeme it yields, how many characters it takes beyond the first,
and where the reader is afterwards. -/
structure Step where
  lexeme : Option Lexeme
  extra : Nat
  mode : Mode
  deriving DecidableEq, Repr

/-! ## Names and values -/

/-- The first character of a tag name. -/
def isNameStart (c : Char) : Bool := isAsciiLetter c || c == '_'

/-- The further characters of a tag name. -/
def isNameChar (c : Char) : Bool := isWord c || c == ':' || c == '.' || c == '-'

/-- The tag name a text starts with, empty if it starts with none. -/
def tagName : List Char → List Char
  | [] => []
  | c :: s => if isNameStart c then c :: s.takeWhile isNameChar else []

/-- The characters of an attribute name. -/
def isAttributeChar (c : Char) : Bool :=
  !(isBlank c || c == '=' || c == '/' || c == '>' || c == '"' || c == '\'' || c == '<')

/-- A quotation mark around an attribute value. -/
def isQuote (c : Char) : Bool := c == '"' || c == '\''

/-- The unquoted attribute value a text starts with. A `/` ends it only in front of `>`. -/
def bareValue : List Char → List Char
  | [] => []
  | c :: s =>
    if isBlank c || isQuote c || c == '>' || (c == '/' && s.head? == some '>') then []
    else c :: bareValue s

/-! ## Steps in content

In this section `s` is the text behind a `<`. -/

/-- A construct whose opening takes the `<` and `opening` more characters, and which the first
`closing` behind it ends. Its body makes the lexeme, as does all that is left if `closing` is
missing. -/
def Step.delimited (lexeme unclosed : List Char → Option Lexeme) (opening : Nat)
    (closing : List Char) (s : List Char) : Step :=
  match before? closing (s.drop opening) with
  | some body => ⟨lexeme body, opening + body.length + closing.length, .content⟩
  | none => ⟨unclosed (s.drop opening), s.length, .content⟩

/-- How many characters a declaration takes: up to its `>`, which is looked for behind the internal
subset if a `[` stands before the first `>`. -/
def declarationWidth (s : List Char) : Nat :=
  match before? ['>'] s with
  | none => s.length
  | some head =>
    if '[' ∈ head then
      let subset := (s.takeWhile (· ≠ '[')).length
      match before? [']'] (s.drop subset) with
      | none => s.length
      | some inside =>
        match before? ['>'] (s.drop (subset + inside.length)) with
        | none => s.length
        | some tail => subset + inside.length + tail.length + 1
    else head.length + 1

/-- A close tag: its name is what stands behind the `/`, and anything between the name and `>` is
skipped. -/
def closeLexeme (body : List Char) : Option Lexeme :=
  match tagName body with
  | [] => none
  | name => some (.closeTag name)

/-- The step over markup that starts with `<`. -/
def Step.markup (s : List Char) : Step :=
  if "!--".toList.isPrefixOf s then
    .delimited (some <| .comment ·) (some <| .comment ·) 3 "-->".toList s
  else if "![CDATA[".toList.isPrefixOf s then
    .delimited (some <| .cdata ·) (some <| .cdata ·) 8 "]]>".toList s
  else if ['?'].isPrefixOf s then
    .delimited (fun _ => none) (fun _ => none) 1 "?>".toList s
  else if ['!'].isPrefixOf s then
    ⟨none, declarationWidth s, .content⟩
  else if ['/'].isPrefixOf s then
    .delimited closeLexeme (fun _ => none) 1 ['>'] s
  else match tagName s with
    | [] => ⟨some (.text ['<']), 0, .content⟩
    | name => ⟨some (.openTag name), name.length, .tag⟩

/-- One step in content, at the character `c` with `s` behind it. -/
def Step.content (c : Char) (s : List Char) : Step :=
  if c = '<' then .markup s
  else
    let more := s.takeWhile (· ≠ '<')
    ⟨some (.text (c :: more)), more.length, .content⟩

/-! ## Steps inside a start tag -/

/-- The value behind an attribute's `=` and how many characters it takes, quotes and the blanks in
front included. A quoted value that is not closed is all that is left. -/
def valueAfterEquals (s : List Char) : List Char × Nat :=
  let blanks := (s.takeWhile isBlank).length
  match s.dropWhile isBlank with
  | [] => ([], blanks)
  | q :: body =>
    if isQuote q then
      match before? [q] body with
      | some value => (value, blanks + value.length + 2)
      | none => (body, s.length)
    else
      let value := bareValue (q :: body)
      (value, blanks + value.length)

/-- The value of an attribute and how many characters stand for it, `s` being the text behind the
name. Without a `=` the value is empty. -/
def attributeValue (s : List Char) : List Char × Nat :=
  let blanks := (s.takeWhile isBlank).length
  match s.dropWhile isBlank with
  | '=' :: rest =>
    let (value, width) := valueAfterEquals rest
    (value, blanks + 1 + width)
  | _ => ([], blanks)

/-- One step inside a start tag, at the character `c` with `s` behind it. A character that can start
nothing there is skipped. -/
def Step.tag (c : Char) (s : List Char) : Step :=
  if isBlank c then ⟨none, (s.takeWhile isBlank).length, .tag⟩
  else if c = '/' ∧ s.head? = some '>' then ⟨some .selfClose, 1, .content⟩
  else if c = '>' then ⟨some .tagEnd, 0, .content⟩
  else if isAttributeChar c then
    let more := s.takeWhile isAttributeChar
    let (value, width) := attributeValue (s.drop more.length)
    ⟨some (.attribute (c :: more) value), more.length + width, .tag⟩
  else ⟨none, 0, .tag⟩

/-! ## The reader -/

/-- One step in either mode. -/
def Step.at (mode : Mode) (c : Char) (s : List Char) : Step :=
  match mode with
  | .content => .content c s
  | .tag => .tag c s

/-- The tokens of the text that is left, `pos` characters having been read. -/
def scan (mode : Mode) (pos : Nat) : List Char → List Token
  | [] => []
  | c :: s =>
    let step := Step.at mode c s
    let later := scan step.mode (pos + step.extra + 1) (s.drop step.extra)
    match step.lexeme with
    | some lexeme => ⟨lexeme, pos⟩ :: later
    | none => later
termination_by s => s.length
decreasing_by simp only [List.length_drop, List.length_cons]; omega

/-- The tokens of a text, in order. -/
def tokenize (s : List Char) : List Token := scan .content 0 s

end SvgComponent.Markup
