import Pane.Markup.Lexer.Comment
import Pane.Markup.Lexer.RawText

/-!
# Cutting markup into tokens

The lexer takes the next stretch of a text: one character or reference, one tag, one comment, or,
where the text stands in an element whose content is not markup, that whole content with the end tag
of the element.  What a stretch starts with decides what it is, and it is never empty, so taking
stretches comes to an end.

* `Lexeme` — the tokens of a stretch, and what follows it.
* `lexMarkup`, `withEndTag` — the next stretch of markup, and content that is not markup.
* `lex` — the next stretch of a text of any kind.
-/

namespace Pane.Markup

/-- The tokens of a stretch of text, and what follows the stretch. -/
structure Lexeme where
  tokens : List Token
  rest : List Char
  deriving DecidableEq, Repr

/-! ## Markup -/

def Reference.tokens (r : Reference) : List Token :=
  (if r.unfinished then [Token.malformed] else []) ++ r.chars.map .char

/-- A text that is not markup up to `]]>`, and what follows that. -/
def cutSection : List Char → List Char × List Char
  | [] => ([], [])
  | ']' :: ']' :: '>' :: rest => ([], rest)
  | c :: cs =>
    let (text, rest) := cutSection cs
    (c :: text, rest)

/-- The stretch behind `<!`.  A section of plain text is only known where `sections` says so. -/
def lexDeclaration (sections : Bool) (s : List Char) : Lexeme :=
  match Text.dropFront? "--".toList s with
  | some t =>
    let (content, rest) := readComment t
    ⟨[.comment content], rest⟩
  | none =>
    match asciiKeyword? "doctype".toList s with
    | some t =>
      let (d, rest) := readDoctype t
      ⟨[.doctype d], rest⟩
    | none =>
      match if sections then Text.dropFront? "[CDATA[".toList s else none with
      | some t =>
        let (text, rest) := cutSection t
        ⟨text.map .char, rest⟩
      | none =>
        let (content, rest) := readBogusComment s
        ⟨[.comment content], rest⟩

/-- The stretch of a comment up to the next `>`. -/
def lexBogusComment (s : List Char) : Lexeme :=
  let (content, rest) := readBogusComment s
  ⟨[.comment content], rest⟩

def lexEndTag : List Char → Lexeme
  | [] => ⟨[.char '<', .char '/'], []⟩
  | c :: cs =>
    if c.isAlpha then
      match readTag (c :: cs) with
      | some (tag, rest) => ⟨[.endTag tag.name], rest⟩
      | none => ⟨[], []⟩
    else if c = '>' then ⟨[.malformed], cs⟩
    else lexBogusComment (c :: cs)

def lexTag (sections : Bool) : List Char → Lexeme
  | [] => ⟨[.char '<'], []⟩
  | c :: cs =>
    if c.isAlpha then
      match readTag (c :: cs) with
      | some (tag, rest) => ⟨[.startTag tag], rest⟩
      | none => ⟨[], []⟩
    else if c = '/' then lexEndTag cs
    else if c = '!' then lexDeclaration sections cs
    else if c = '?' then lexBogusComment (c :: cs)
    else ⟨[.char '<'], c :: cs⟩

/-- The next stretch of markup. -/
def lexMarkup (sections : Bool) : List Char → Lexeme
  | [] => ⟨[], []⟩
  | c :: cs =>
    if c = '<' then lexTag sections cs
    else if c = '&' then
      match reference? false cs with
      | some r => ⟨r.tokens, r.rest⟩
      | none => ⟨[.char '&'], cs⟩
    else ⟨[.char c], cs⟩

/-! ## Other text -/

/-- The tokens of plain text. -/
def plainTokens (s : List Char) : List Token := s.map fun c => .char (withoutNull c)

/-- The tokens of text with references, the first `skip` characters belonging to one. -/
def referenceTokens : Nat → List Char → List Token
  | _, [] => []
  | skip + 1, _ :: cs => referenceTokens skip cs
  | 0, c :: cs =>
    if c = '&' then
      match reference? false cs with
      | some r => r.tokens ++ referenceTokens (cs.length - r.rest.length) cs
      | none => .char '&' :: referenceTokens 0 cs
    else .char (withoutNull c) :: referenceTokens 0 cs

/-- The content of an element with the end tag in front of which it was cut. -/
def withEndTag (content : List Token) : List Char → Lexeme
  | '<' :: '/' :: s =>
    match readTag s with
    | some (tag, rest) => ⟨content ++ [.endTag tag.name], rest⟩
    | none => ⟨content, []⟩
  | rest => ⟨content, rest⟩

/-- The next stretch of a text of a kind. -/
def lex (kind : TextKind) (sections : Bool) (s : List Char) : Lexeme :=
  match kind with
  | .markup => lexMarkup sections s
  | .references element =>
    let (text, rest) := cutRawText element s
    withEndTag (referenceTokens 0 text) rest
  | .raw element =>
    let (text, rest) := cutRawText element s
    withEndTag (plainTokens text) rest
  | .script =>
    let (text, rest) := cutScript s
    withEndTag (plainTokens text) rest
  | .plaintext => ⟨plainTokens s, []⟩

end Pane.Markup
