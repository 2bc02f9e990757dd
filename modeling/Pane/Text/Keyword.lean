import Pane.Text.Basic

/-!
# Keywords in any letter case

Media queries and the tags of blocks are recognized whatever the case of their letters, by the
simple case folding of Unicode.  For the letters of the keywords that matter here this adds one
character to the ASCII ones: the long s is an `s`.

* `spells`, `keyword?` — a letter, and a keyword at the start of a text.
* `keyword?_self` — a keyword is spelled by itself.
-/

namespace Pane.Text

/-- Whether a character spells a lower-case letter of a keyword: itself, its capital, or for `s` the
long s, which differs from it in case only. -/
def spells (letter c : Char) : Bool := c.toLower = letter || (letter = 's' && c = 'ſ')

/-- What follows a keyword, in any letter case. -/
def keyword? : List Char → List Char → Option (List Char)
  | [], s => some s
  | _ :: _, [] => none
  | k :: ks, c :: cs => if spells k c then keyword? ks cs else none

/-- A keyword in lower case is spelled by itself. -/
theorem keyword?_self :
    ∀ (k s : List Char), (∀ c ∈ k, c.toLower = c) → keyword? k (k ++ s) = some s
  | [], _, _ => rfl
  | c :: k, s, h => by
      have hc : spells c c = true := by simp [spells, h c (List.mem_cons_self ..)]
      rw [List.cons_append, keyword?, if_pos hc]
      exact keyword?_self k s fun d hd => h d (List.mem_cons_of_mem _ hd)

end Pane.Text
