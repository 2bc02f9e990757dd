import Pane.Markup.Reference
import Pane.Markup.Token

/-!
# Tags

Behind its name a tag holds attributes, separated by spaces or slashes.  A value stands in double
quotes, in single quotes or bare, and references are resolved in it.  A tag that the text ends in is
no tag at all.

* `resolveAttribute` — a value as it is written, with its references resolved.
* `readAttributes` — the attributes of a tag up to its end.
* `readTag` — a tag behind its opening bracket or slash.
-/

namespace Pane.Markup

/-! ## Names and values -/

/-- A character that is not allowed in a document is shown as the replacement character. -/
def withoutNull (c : Char) : Char := if c = '\x00' then replacement else c

/-- A name as it is compared: in lower case. -/
def tagName (s : List Char) : String := String.ofList (s.map fun c => (withoutNull c).toLower)

/-- A value with its references resolved, the first `skip` characters belonging to one. -/
def resolveFrom : Nat → List Char → List Char
  | _, [] => []
  | skip + 1, _ :: cs => resolveFrom skip cs
  | 0, c :: cs =>
    if c = '&' then
      match reference? true cs with
      | some r => r.chars ++ resolveFrom (cs.length - r.rest.length) cs
      | none => '&' :: resolveFrom 0 cs
    else withoutNull c :: resolveFrom 0 cs

def resolveAttribute (s : List Char) : String := String.ofList (resolveFrom 0 s)

def endsTagName (c : Char) : Bool := Text.isAsciiSpace c || c = '/' || c = '>'

/-- A character that ends the name of an attribute, unless it is its first one. -/
def endsAttributeName (c : Char) : Bool := endsTagName c || c = '='

def endsBareValue (c : Char) : Bool := Text.isAsciiSpace c || c = '>'

/-- A value behind the equals sign, and what follows it.  A value that never ends is missing. -/
def readValue? (s : List Char) : Option (String × List Char) :=
  match s.dropWhile Text.isAsciiSpace with
  | '"' :: t => (Text.splitFirst '"' t).map fun (v, rest) => (resolveAttribute v, rest)
  | '\'' :: t => (Text.splitFirst '\'' t).map fun (v, rest) => (resolveAttribute v, rest)
  | t =>
    some (resolveAttribute (t.takeWhile fun c => !endsBareValue c),
      t.dropWhile fun c => !endsBareValue c)

/-! ## Attributes -/

/-- What was read of a tag behind its name. -/
structure TagRest where
  attrs : List (String × String)
  selfClosing : Bool
  rest : List Char
  deriving DecidableEq, Repr

/-- Puts an attribute in front of those that are read behind it. -/
def TagRest.cons (name value : String) (t : TagRest) : TagRest :=
  { t with attrs := (name, value) :: t.attrs }

/-- The attributes of a tag up to its end, of several with one name each; `fuel` bounds the number
of steps and need not exceed the length of the text. -/
def readAttributes : Nat → List Char → Option TagRest
  | 0, _ => none
  | _ + 1, [] => none
  | fuel + 1, c :: cs =>
    if Text.isAsciiSpace c then readAttributes fuel cs
    else if c = '>' then some ⟨[], false, cs⟩
    else if c = '/' then
      match cs with
      | '>' :: rest => some ⟨[], true, rest⟩
      | _ => readAttributes fuel cs
    else
      let name := tagName (c :: cs.takeWhile fun d => !endsAttributeName d)
      let behind := cs.dropWhile fun d => !endsAttributeName d
      match behind.dropWhile Text.isAsciiSpace with
      | '=' :: t =>
        match readValue? t with
        | some (value, rest) => (readAttributes fuel rest).map (TagRest.cons name value)
        | none => none
      | _ => (readAttributes fuel behind).map (TagRest.cons name "")

/-- Attributes with the first of each name only. -/
def firstOfEach (attrs : List (String × String)) : List (String × String) :=
  attrs.foldl (fun kept a => if kept.any fun k => k.1 = a.1 then kept else kept ++ [a]) []

/-- A tag from the first letter of its name on, and what follows it. -/
def readTag (s : List Char) : Option (Tag × List Char) :=
  let behind := s.dropWhile fun c => !endsTagName c
  (readAttributes behind.length behind).map fun t =>
    (⟨tagName (s.takeWhile fun c => !endsTagName c), firstOfEach t.attrs, t.selfClosing⟩, t.rest)

end Pane.Markup
