import Pane.Markup.Lexer.Tag

/-!
# Comments and document types

A comment ends at `-->` or `--!>`, and right at its beginning also at `>` or `->`; one that is never
closed reaches to the end of the text, less the dashes there.  What looks like a declaration but is
none is a comment up to the next `>`.

* `readComment` — a comment behind `<!--`.
* `readBogusComment` — a comment up to the next `>`.
* `readDoctype` — a document type behind its keyword.
-/

namespace Pane.Markup

/-! ## Comments -/

/-- Where the next character stands in a comment. -/
inductive CommentPart where
  /-- Behind the opening. -/
  | start
  /-- Behind the opening and a dash. -/
  | startDash
  /-- In the content. -/
  | content
  /-- In the content, behind a dash. -/
  | dash
  /-- In the content, behind two dashes. -/
  | dashes
  /-- In the content, behind two dashes and an exclamation mark. -/
  | bang
  deriving DecidableEq, Repr

/-- Puts characters in front of a comment. -/
def prepend (s : List Char) (r : List Char × List Char) : List Char × List Char := (s ++ r.1, r.2)

/-- The content of a comment from the given part of it on, and what follows the comment. -/
def readCommentFrom : CommentPart → List Char → List Char × List Char
  | _, [] => ([], [])
  | .start, c :: cs =>
    if c = '>' then ([], cs)
    else if c = '-' then readCommentFrom .startDash cs
    else prepend [withoutNull c] (readCommentFrom .content cs)
  | .startDash, c :: cs =>
    if c = '>' then ([], cs)
    else if c = '-' then readCommentFrom .dashes cs
    else prepend ['-', withoutNull c] (readCommentFrom .content cs)
  | .content, c :: cs =>
    if c = '-' then readCommentFrom .dash cs
    else prepend [withoutNull c] (readCommentFrom .content cs)
  | .dash, c :: cs =>
    if c = '-' then readCommentFrom .dashes cs
    else prepend ['-', withoutNull c] (readCommentFrom .content cs)
  | .dashes, c :: cs =>
    if c = '>' then ([], cs)
    else if c = '!' then readCommentFrom .bang cs
    else if c = '-' then prepend ['-'] (readCommentFrom .dashes cs)
    else prepend ['-', '-', withoutNull c] (readCommentFrom .content cs)
  | .bang, c :: cs =>
    if c = '>' then ([], cs)
    else if c = '-' then prepend ['-', '-', '!'] (readCommentFrom .dash cs)
    else prepend ['-', '-', '!', withoutNull c] (readCommentFrom .content cs)

/-- The content of a comment behind `<!--`, and what follows the comment. -/
def readComment (s : List Char) : List Char × List Char := readCommentFrom .start s

/-- The content of a comment up to the next `>`, and what follows that. -/
def readBogusComment (s : List Char) : List Char × List Char :=
  match Text.splitFirst '>' s with
  | some (content, rest) => (content.map withoutNull, rest)
  | none => (s.map withoutNull, [])

/-! ## Document types -/

/-- What follows a keyword of ASCII letters in any case. -/
def asciiKeyword? : List Char → List Char → Option (List Char)
  | [], s => some s
  | _ :: _, [] => none
  | k :: ks, c :: cs => if c.toLower = k then asciiKeyword? ks cs else none

/-- A document type after which everything up to the next `>` is ignored. -/
def ignoringRest (d : Doctype) (s : List Char) : Doctype × List Char :=
  (d, ((Text.splitFirst '>' s).map (·.2)).getD [])

/-- An identifier behind its opening quote.  It is missing if a `>` or the end comes first, and then
the document type ends there. -/
def readIdentifier (quote : Char) (s : List Char) : Option String × List Char :=
  let id := s.takeWhile fun c => c ≠ quote && c ≠ '>'
  match s.dropWhile fun c => c ≠ quote && c ≠ '>' with
  | c :: rest =>
    if c = quote then (some (String.ofList (id.map withoutNull)), rest) else (none, rest)
  | [] => (none, [])

/-- The end of a document type behind its system identifier. -/
def readDoctypeEnd (d : Doctype) (s : List Char) : Doctype × List Char :=
  match s.dropWhile Text.isAsciiSpace with
  | '>' :: rest => (d, rest)
  | [] => ({ d with broken := true }, [])
  | rest => ignoringRest d rest

/-- A document type from its system identifier on; `required` tells whether there must be one. -/
def readSystemId (d : Doctype) (required : Bool) (s : List Char) : Doctype × List Char :=
  match s.dropWhile Text.isAsciiSpace with
  | c :: rest =>
    if c = '>' then ({ d with broken := d.broken || required }, rest)
    else if c = '"' ∨ c = '\'' then
      match readIdentifier c rest with
      | (some id, rest) => readDoctypeEnd { d with systemId := some id } rest
      | (none, rest) => ({ d with broken := true }, rest)
    else ignoringRest { d with broken := true } (c :: rest)
  | [] => ({ d with broken := true }, [])

/-- A document type from its public identifier on. -/
def readPublicId (d : Doctype) (s : List Char) : Doctype × List Char :=
  match s.dropWhile Text.isAsciiSpace with
  | c :: rest =>
    if c = '>' then ({ d with broken := true }, rest)
    else if c = '"' ∨ c = '\'' then
      match readIdentifier c rest with
      | (some id, rest) => readSystemId { d with publicId := some id } false rest
      | (none, rest) => ({ d with broken := true }, rest)
    else ignoringRest { d with broken := true } (c :: rest)
  | [] => ({ d with broken := true }, [])

/-- A document type behind its keyword, and what follows it. -/
def readDoctype (s : List Char) : Doctype × List Char :=
  match s.dropWhile Text.isAsciiSpace with
  | [] => ({ broken := true }, [])
  | '>' :: rest => ({ broken := true }, rest)
  | t =>
    let d : Doctype :=
      { name := some (tagName (t.takeWhile fun c => !(Text.isAsciiSpace c || c = '>'))) }
    match (t.dropWhile fun c => !(Text.isAsciiSpace c || c = '>')).dropWhile Text.isAsciiSpace with
    | [] => ({ d with broken := true }, [])
    | '>' :: rest => (d, rest)
    | u =>
      match asciiKeyword? "public".toList u with
      | some rest => readPublicId d rest
      | none =>
        match asciiKeyword? "system".toList u with
        | some rest => readSystemId d true rest
        | none => ignoringRest { d with broken := true } u

end Pane.Markup
