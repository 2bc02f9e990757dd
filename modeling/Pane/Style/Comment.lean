/-!
# Comments of style text

Comments are taken out before anything else is read.  Inside strings there are none; a string is
closed by its own quote, and there a backslash keeps the character behind it.  Outside strings a
backslash has no meaning yet, so `\"` still opens a string.  A comment that is never closed takes
the rest of the text with it.

* `CommentState` — outside, in a string, or in a comment.
* `stripComments` — the text without its comments.
-/

namespace Pane.Style

/-- Where the next character stands while comments are sought. -/
inductive CommentState where
  | outside
  | quoted (quote : Char)
  | quotedEscaped (quote : Char)
  | comment
  deriving DecidableEq, Repr

/-- What is kept of a text that starts in the given state. -/
def stripFrom : CommentState → List Char → List Char
  | _, [] => []
  | .outside, '/' :: '*' :: cs => stripFrom .comment cs
  | .outside, c :: cs =>
    c :: stripFrom (if c = '"' || c = '\'' then .quoted c else .outside) cs
  | .quoted q, c :: cs =>
    c :: stripFrom (if c = '\\' then .quotedEscaped q else if c = q then .outside else .quoted q) cs
  | .quotedEscaped q, c :: cs => c :: stripFrom (.quoted q) cs
  | .comment, '*' :: '/' :: cs => stripFrom .outside cs
  | .comment, _ :: cs => stripFrom .comment cs

def stripComments (s : List Char) : List Char := stripFrom .outside s

end Pane.Style
