/-!
# Tokens of markup

Markup is read as a stream of tokens: tags, comments, document types and single characters.  How the
next stretch of text is cut into tokens depends on the element that the text stands in, and that is
for the construction of the document to say.

* `Token` — the tokens.
* `TextKind` — how the text ahead is to be read.
-/

namespace Pane.Markup

/-- An opening tag: its name in lower case and its attributes, each name once. -/
structure Tag where
  name : String
  attrs : List (String × String) := []
  selfClosing : Bool := false
  deriving DecidableEq, Repr, Inhabited

/-- A document type declaration. -/
structure Doctype where
  name : Option String := none
  publicId : Option String := none
  systemId : Option String := none
  /-- Whether the declaration is too broken to vouch for anything. -/
  broken : Bool := false
  deriving DecidableEq, Repr

inductive Token where
  | startTag (tag : Tag)
  | endTag (name : String)
  | comment (content : List Char)
  | char (c : Char)
  | doctype (d : Doctype)
  /-- Something that is written but stands for nothing. -/
  | malformed
  | eof
  deriving DecidableEq, Repr

/-- How the text ahead is to be read. -/
inductive TextKind where
  /-- As markup. -/
  | markup
  /-- As text with references, up to the end tag of the element. -/
  | references (element : String)
  /-- As plain text, up to the end tag of the element. -/
  | raw (element : String)
  | script
  /-- As plain text, up to the end. -/
  | plaintext
  deriving DecidableEq, Repr

end Pane.Markup
