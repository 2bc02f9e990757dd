import Pane.Text.Keyword
import Pane.Text.Word

/-!
# Blocks that are taken out of markup before it is parsed

Scripts never become part of a pane, and style blocks are read as style text.  Both are found in the
text itself: an opening tag up to the next `>`, and then the shortest content up to a closing tag of
the same name.  An opening tag for which there is no closing one is left alone.

* `blockAt?` — the block at the start of a text.
* `cutBlocks` — a text without its blocks, and their contents.
* `stripScripts`, `extractStyles` — the two uses.
-/

namespace Pane.Markup

/-- What follows a closing tag at the start of a text; there may be spaces before its end. -/
def closingTag? (name : List Char) : List Char → Option (List Char)
  | '<' :: '/' :: s =>
    match Text.keyword? name s with
    | some rest =>
      match Text.trimStart rest with
      | '>' :: rest => some rest
      | _ => none
    | none => none
  | _ => none

/-- The content before the first closing tag, and what follows the tag. -/
def untilClosingTag? (name : List Char) : List Char → Option (List Char × List Char)
  | [] => none
  | c :: cs =>
    match closingTag? name (c :: cs) with
    | some rest => some ([], rest)
    | none => (untilClosingTag? name cs).map fun (content, rest) => (c :: content, rest)

/-- The content of the block at the start of a text, and what follows the block. -/
def blockAt? (name : List Char) : List Char → Option (List Char × List Char)
  | '<' :: s =>
    match Text.keyword? name s with
    | some rest =>
      if rest.head?.any Text.isWord then none
      else
        match rest.dropWhile (· ≠ '>') with
        | _ :: body => untilClosingTag? name body
        | [] => none
    | none => none
  | _ => none

/-- A text without its blocks, and the contents of those, where the first `skip` characters belong
to a block that has been found. -/
def cutBlocksFrom (name : List Char) : Nat → List Char → List Char × List (List Char)
  | _, [] => ([], [])
  | skip + 1, _ :: cs => cutBlocksFrom name skip cs
  | 0, c :: cs =>
    match blockAt? name (c :: cs) with
    | some (content, rest) =>
      let (kept, blocks) := cutBlocksFrom name (cs.length - rest.length) cs
      (kept, content :: blocks)
    | none =>
      let (kept, blocks) := cutBlocksFrom name 0 cs
      (c :: kept, blocks)

def cutBlocks (name : List Char) (s : List Char) : List Char × List (List Char) :=
  cutBlocksFrom name 0 s

def stripScripts (markup : String) : String :=
  String.ofList (cutBlocks "script".toList markup.toList).1

/-- Markup without its style blocks, and the trimmed contents of those that are not blank. -/
def extractStyles (markup : String) : String × List String :=
  let (kept, blocks) := cutBlocks "style".toList markup.toList
  (String.ofList kept, ((blocks.map Text.trim).filter fun b => !b.isEmpty).map String.ofList)

end Pane.Markup
