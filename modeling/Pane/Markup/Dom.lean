/-!
# Parsed markup

What the parser of markup makes of a text: a forest of elements, runs of text and comments.  Names
are local names, attributes stand in the order of the source and each value is complete.

* `Dom` — the nodes of the forest, with decidable equality.
-/

namespace Pane

/-- A node of parsed markup. -/
inductive Dom where
  | element (name : String) (attrs : List (String × String)) (children : List Dom)
  | text (content : String)
  | comment (content : String)
  deriving Repr, Inhabited

namespace Dom

mutual

def decideEq : (a b : Dom) → Decidable (a = b)
  | .element n as cs, .element n' as' cs' =>
    if h : n = n' ∧ as = as' then
      match decideEqAll cs cs' with
      | isTrue hc => isTrue (by rw [h.1, h.2, hc])
      | isFalse hc => isFalse (by intro e; cases e; exact hc rfl)
    else isFalse (by intro e; cases e; exact h ⟨rfl, rfl⟩)
  | .text s, .text s' =>
    if h : s = s' then isTrue (by rw [h]) else isFalse (by intro e; cases e; exact h rfl)
  | .comment s, .comment s' =>
    if h : s = s' then isTrue (by rw [h]) else isFalse (by intro e; cases e; exact h rfl)
  | .element .., .text _ => isFalse (by simp)
  | .element .., .comment _ => isFalse (by simp)
  | .text _, .element .. => isFalse (by simp)
  | .text _, .comment _ => isFalse (by simp)
  | .comment _, .element .. => isFalse (by simp)
  | .comment _, .text _ => isFalse (by simp)

def decideEqAll : (as bs : List Dom) → Decidable (as = bs)
  | [], [] => isTrue rfl
  | [], _ :: _ => isFalse (by simp)
  | _ :: _, [] => isFalse (by simp)
  | a :: as, b :: bs =>
    match decideEq a b, decideEqAll as bs with
    | isTrue h, isTrue h' => isTrue (by rw [h, h'])
    | isFalse h, _ => isFalse (by intro e; cases e; exact h rfl)
    | _, isFalse h => isFalse (by intro e; cases e; exact h rfl)

end

end Dom

instance : DecidableEq Dom := Dom.decideEq

end Pane
