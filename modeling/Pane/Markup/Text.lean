import Pane.Text.Basic
import Pane.Tree.Vocabulary

/-!
# Text and comments of markup

Running text is kept in a normal form: characters that show nothing are removed, runs of white space
become one space, and none stands at an end.  A comment may carry the identity of the run of text
behind it.

* `normalizeText` — the normal form.
* `identityOf?` — the identity that a comment carries.
-/

namespace Pane.Markup

/-- Characters that show nothing: zero-width spaces and joiners, and the byte order mark. -/
def isInvisible (c : Char) : Bool :=
  c = '\u200B' || c = '\u200C' || c = '\u200D' || c = '\u2060' || c = '\uFEFF'

/-- Words with a single space between neighbours. -/
def joinWords : List (List Char) → List Char
  | [] => []
  | [w] => w
  | w :: w' :: ws => w ++ ' ' :: joinWords (w' :: ws)

def normalizeChars (s : List Char) : List Char :=
  joinWords (Text.words (s.filter fun c => !isInvisible c))

/-- Text in normal form. -/
def normalizeText (s : String) : String := String.ofList (normalizeChars s.toList)

/-- The identity that a comment carries, if it is a marker. -/
def identityOf? (comment : String) : Option String :=
  match Text.dropFront? markerStart.toList (Text.trim comment.toList) with
  | some id => Text.trimmed? (String.ofList id)
  | none => none

end Pane.Markup
