import Pane.Proofs.Tree.Walk

/-!
# Identities that arrive and identities that are made

A node is given the identity that it arrives with, if it is free, and else one of the supply.  Which
identities arrive can be read off the markup: elements have theirs in an attribute, runs of text in
a comment in front of them.  A supply is good if it can be told apart from these.

* `embeddedIdentities` — the identities that a forest carries.
* `trimmed?_of_trimmed?`, `trimmed?_of_identityOf?` — what arrives has no blanks around it.
* `Supply` — minted identities are not empty, no two are the same, and none is one that is carried.
-/

namespace Pane

/-! ## Identities in markup -/

mutual

/-- The identities that a node of a forest and those below it arrive with. -/
def Dom.embeddedIdentities : Dom → List String
  | .element _ attrs children =>
    ((embeddedIdentity? attrs).bind Text.trimmed?).toList ++ embeddedIdentities children
  | .text _ => []
  | .comment content => (Markup.identityOf? content).toList

/-- The identities that the elements and comments of a forest carry. -/
def embeddedIdentities : List Dom → List String
  | [] => []
  | d :: ds => d.embeddedIdentities ++ embeddedIdentities ds

end

theorem ne_empty_of_trimmed? {s t : String} (h : Text.trimmed? s = some t) : t ≠ "" := by
  rw [Text.trimmed?] at h
  split at h
  · exact absurd h (by simp)
  · next hne => exact Option.some.inj h ▸ hne

theorem trimmed?_of_trimmed? {s t : String} (h : Text.trimmed? s = some t) :
    Text.trimmed? t = some t := by
  have hne := ne_empty_of_trimmed? h
  rw [Text.trimmed?] at h
  split at h
  · exact absurd h (by simp)
  · obtain rfl := Option.some.inj h
    have htt : Text.trimmed (Text.trimmed s) = Text.trimmed s := by
      simp [Text.trimmed, Text.trim_trim]
    rw [Text.trimmed?, htt]
    exact if_neg hne

theorem trimmed?_of_identityOf? {content id : String}
    (h : Markup.identityOf? content = some id) : Text.trimmed? id = some id := by
  rw [Markup.identityOf?] at h
  split at h
  · exact trimmed?_of_trimmed? h
  · exact absurd h (by simp)

/-! ## The supply -/

/-- What is assumed of a supply of identities, next to some identities that are there already. -/
structure Supply (fresh : Nat → String) (ids : List String) : Prop where
  filled : ∀ k, fresh k ≠ ""
  injective : ∀ j k, fresh j = fresh k → j = k
  apart : ∀ k, fresh k ∉ ids

/-- The supply `n`, `nn`, `nnn`, … next to some identities that start with another letter. -/
theorem supply_replicate {ids : List String} (h : ∀ id ∈ ids, id.toList.head? ≠ some 'n') :
    Supply (fun k => String.ofList (List.replicate (k + 1) 'n')) ids where
  filled k := by simp [List.replicate_succ]
  injective j k h := by
    have hlen := congrArg List.length (String.ofList_inj.1 h)
    simpa using hlen
  apart k hk := h _ hk (by simp [List.replicate_succ])

end Pane
