/-!
# Tables with keys in ascending order

Attributes of a node and the assets of a pane are kept by name, each name once, and are written in
the order of the names.  A `Table` is therefore a list of pairs whose keys ascend, and it carries
the proof of that.  Strings are ordered by code point.

* `Table` — the pairs and the proof that their keys ascend.
* `Table.get?`, `Table.insert`, `Table.erase` — look-up, and the two changes.
* **`Table.get?_insert`**, **`Table.get?_erase`** — what is found after a change.
* **`Table.get?_ofList`** — what is found in the table of some pairs.
* **`Table.ext_get?`** — tables in which the same is found are the same.
* **`Table.ofList_entries`** — a table is the table of its pairs.
-/

namespace Pane

/-- Values by name, in ascending order of the names. -/
structure Table (α : Type) where
  entries : List (String × α)
  ascending : entries.Pairwise fun a b => a.1 < b.1
  deriving DecidableEq

namespace Table

variable {α : Type}

instance [Repr α] : Repr (Table α) := ⟨fun t n => reprPrec t.entries n⟩

/-- Two tables with the same pairs are the same. -/
theorem ext_entries {s t : Table α} (h : s.entries = t.entries) : s = t := by
  cases s; cases t; cases h; rfl

/-! ## Contents -/

def empty : Table α := ⟨[], .nil⟩

instance : Inhabited (Table α) := ⟨empty⟩

/-- The names of a table, in order. -/
def keys (t : Table α) : List String := t.entries.map (·.1)

/-- What is found under a name. -/
def get? (t : Table α) (key : String) : Option α := t.entries.lookup key

def contains (t : Table α) (key : String) : Bool := (t.get? key).isSome

def size (t : Table α) : Nat := t.entries.length

/-! ## Insertion -/

/-- Pairs with a value under a name, in the place where the name belongs. -/
def insertEntry (key : String) (value : α) : List (String × α) → List (String × α)
  | [] => [(key, value)]
  | (k, v) :: rest =>
    if key < k then (key, value) :: (k, v) :: rest
    else if key = k then (key, value) :: rest
    else (k, v) :: insertEntry key value rest

/-- What is inserted, and nothing else, is new. -/
theorem fst_of_mem_insertEntry {key : String} {value : α} :
    ∀ {l : List (String × α)} {p : String × α}, p ∈ insertEntry key value l → p.1 = key ∨ p ∈ l
  | [], p, h => by
      simp only [insertEntry, List.mem_singleton] at h
      exact .inl (by rw [h])
  | (k, v) :: rest, p, h => by
      rw [insertEntry] at h
      split at h
      · rcases List.mem_cons.1 h with rfl | h
        · exact .inl rfl
        · exact .inr h
      · split at h
        · rcases List.mem_cons.1 h with rfl | h
          · exact .inl rfl
          · exact .inr (List.mem_cons_of_mem _ h)
        · rcases List.mem_cons.1 h with rfl | h
          · exact .inr (List.mem_cons_self ..)
          · rcases fst_of_mem_insertEntry h with h | h
            · exact .inl h
            · exact .inr (List.mem_cons_of_mem _ h)

/-- A key that is neither below nor equal to another is above it. -/
theorem lt_of_not_lt_of_ne {a b : String} (h : ¬a < b) (hne : a ≠ b) : b < a := by
  have hle := String.not_lt.1 h
  refine String.not_le.1 fun h' => hne (String.le_antisymm h' hle)

/-- Names stay in order. -/
theorem pairwise_insertEntry (key : String) (value : α) :
    ∀ {l : List (String × α)}, l.Pairwise (fun a b => a.1 < b.1) →
      (insertEntry key value l).Pairwise fun a b => a.1 < b.1
  | [], _ => by simp [insertEntry]
  | (k, v) :: rest, h => by
      obtain ⟨hk, hr⟩ := List.pairwise_cons.1 h
      rw [insertEntry]
      split
      · next hlt =>
        refine List.pairwise_cons.2 ⟨fun p hp => ?_, h⟩
        rcases List.mem_cons.1 hp with rfl | hp
        · exact hlt
        · exact String.lt_trans hlt (hk p hp)
      · split
        · next he => exact List.pairwise_cons.2 ⟨fun p hp => he ▸ hk p hp, hr⟩
        · next hlt hne =>
          refine List.pairwise_cons.2 ⟨fun p hp => ?_, pairwise_insertEntry key value hr⟩
          rcases fst_of_mem_insertEntry hp with h | h
          · exact h ▸ lt_of_not_lt_of_ne hlt hne
          · exact hk p h

/-- The table with a value under a name, in place of the one there. -/
def insert (t : Table α) (key : String) (value : α) : Table α :=
  ⟨insertEntry key value t.entries, pairwise_insertEntry key value t.ascending⟩

/-- The table of some pairs; of several under one name the last counts. -/
def ofList (pairs : List (String × α)) : Table α :=
  pairs.foldl (fun t (k, v) => t.insert k v) empty

/-! ## Removal and change -/

/-- A table without a name. -/
def erase (t : Table α) (key : String) : Table α :=
  ⟨t.entries.filter fun p => p.1 ≠ key, t.ascending.filter _⟩

/-! ## Laws -/

theorem lookup_cons_ite {κ : Type} [BEq κ] [LawfulBEq κ] [DecidableEq κ] (k k' : κ) (v : α)
    (l : List (κ × α)) :
    ((k', v) :: l).lookup k = if k = k' then some v else l.lookup k := by
  rw [List.lookup_cons]
  by_cases h : k = k'
  · simp [h]
  · simp [h, beq_false_of_ne h]

/-- What was inserted is found, and the rest as before. -/
theorem lookup_insertEntry (key k : String) (value : α) :
    ∀ l : List (String × α),
      (insertEntry key value l).lookup k = if k = key then some value else l.lookup k
  | [] => by rw [insertEntry, lookup_cons_ite]
  | (k', v) :: rest => by
      rw [insertEntry]
      split
      · rw [lookup_cons_ite]
      · split
        · next he =>
          subst he
          rw [lookup_cons_ite, lookup_cons_ite]
          split <;> rfl
        · next hne =>
          rw [lookup_cons_ite, lookup_cons_ite, lookup_insertEntry key k value rest]
          by_cases h : k = key
          · subst h
            simp [hne]
          · simp [h]

/-- **After an insertion the name has the new value, and every other name has what it had.** -/
theorem get?_insert (t : Table α) (key k : String) (value : α) :
    (t.insert key value).get? k = if k = key then some value else t.get? k :=
  lookup_insertEntry key k value t.entries

/-- What was erased is not found. -/
theorem lookup_filter_ne (key k : String) :
    ∀ l : List (String × α),
      (l.filter fun p => p.1 ≠ key).lookup k = if k = key then none else l.lookup k
  | [] => by simp
  | (k', v) :: rest => by
      have ih := lookup_filter_ne key k rest
      by_cases h : k' = key
      · subst h
        rw [List.filter_cons_of_neg (by simp), ih, lookup_cons_ite]
        split <;> rfl
      · rw [List.filter_cons_of_pos (by simp [h]), lookup_cons_ite, lookup_cons_ite, ih]
        by_cases hk : k = k'
        · subst hk
          simp [h]
        · simp [hk]

/-- **After a removal the name has no value, and every other name has what it had.** -/
theorem get?_erase (t : Table α) (key k : String) :
    (t.erase key).get? k = if k = key then none else t.get? k :=
  lookup_filter_ne key k t.entries

/-- Of several values under one name the last is found. -/
theorem get?_foldl_insert (k : String) :
    ∀ (pairs : List (String × α)) (t : Table α),
      (pairs.foldl (fun t (k, v) => t.insert k v) t).get? k =
        (pairs.reverse.lookup k).or (t.get? k)
  | [], t => rfl
  | (k', v) :: pairs, t => by
      rw [List.foldl_cons, get?_foldl_insert k pairs, get?_insert, List.reverse_cons,
        List.lookup_append, lookup_cons_ite, List.lookup_nil, Option.or_assoc]
      split <;> rfl

/-- **Of several values under one name the last counts.** -/
theorem get?_ofList (pairs : List (String × α)) (k : String) :
    (ofList pairs).get? k = pairs.reverse.lookup k := by
  rw [ofList, get?_foldl_insert]
  exact Option.or_none

theorem lookup_eq_none_of_not_mem {k : String} {l : List (String × α)} (h : k ∉ l.map (·.1)) :
    l.lookup k = none := by
  rw [List.lookup_eq_none_iff]
  intro p hp
  have hne : k ≠ p.1 := by
    rintro rfl
    exact h (List.mem_map_of_mem hp)
  simpa using hne

/-- Among pairs with different names it does not matter from which end one looks. -/
theorem lookup_reverse {k : String} :
    ∀ {l : List (String × α)}, (l.map (·.1)).Nodup → l.reverse.lookup k = l.lookup k
  | [], _ => rfl
  | (k', v) :: l, h => by
      obtain ⟨hk, hl⟩ := List.nodup_cons.1 h
      rw [List.reverse_cons, List.lookup_append, lookup_reverse hl, lookup_cons_ite,
        lookup_cons_ite, List.lookup_nil]
      split
      · next he =>
        rw [lookup_eq_none_of_not_mem (he ▸ hk), Option.none_or]
      · exact Option.or_none

/-- No name is in a table twice. -/
theorem nodup_keys (t : Table α) : t.keys.Nodup := by
  rw [keys, List.nodup_iff_pairwise_ne, List.pairwise_map]
  exact t.ascending.imp fun hlt he => absurd (he ▸ hlt) (String.lt_irrefl _)

/-- A name in front of all others is not there. -/
theorem lookup_eq_none_of_lt {k : String} :
    ∀ {l : List (String × α)}, (∀ p ∈ l, k < p.1) → l.lookup k = none
  | [], _ => rfl
  | (k', v) :: l, h => by
      obtain ⟨hk, hl⟩ := List.forall_mem_cons.1 h
      have hne : k ≠ k' := fun he => String.lt_irrefl k' (he ▸ hk)
      rw [lookup_cons_ite, if_neg hne, lookup_eq_none_of_lt hl]

/-- The first name of a list is not below all names of another in which the same is found. -/
theorem not_lt_of_lookup_eq {k k' : String} {v v' : α} {l l' : List (String × α)}
    (hl' : ((k', v') :: l').Pairwise fun a b => a.1 < b.1)
    (h : ((k, v) :: l).lookup k = ((k', v') :: l').lookup k) : ¬k < k' := by
  intro hlt
  have hnone : ((k', v') :: l').lookup k = none := lookup_eq_none_of_lt fun p hp => by
    rcases List.mem_cons.1 hp with rfl | hp
    · exact hlt
    · exact String.lt_trans hlt ((List.pairwise_cons.1 hl').1 p hp)
  rw [hnone, lookup_cons_ite, if_pos rfl] at h
  cases h

/-- Pairs in ascending order are determined by what is found under each name. -/
theorem eq_of_lookup_eq : ∀ {l l' : List (String × α)}, l.Pairwise (fun a b => a.1 < b.1) →
    l'.Pairwise (fun a b => a.1 < b.1) → (∀ k, l.lookup k = l'.lookup k) → l = l'
  | [], [], _, _, _ => rfl
  | [], (k, v) :: _, _, _, h => by simpa using h k
  | (k, v) :: _, [], _, _, h => by simpa using h k
  | (k, v) :: l, (k', v') :: l', hl, hl', h => by
      obtain rfl : k = k' := Classical.byContradiction fun hne =>
        not_lt_of_lookup_eq hl (h k').symm
          (lt_of_not_lt_of_ne (not_lt_of_lookup_eq hl' (h k)) hne)
      have hv := h k
      rw [lookup_cons_ite, lookup_cons_ite, if_pos rfl, if_pos rfl] at hv
      obtain rfl := Option.some.inj hv
      obtain ⟨hk, hl⟩ := List.pairwise_cons.1 hl
      obtain ⟨hk', hl'⟩ := List.pairwise_cons.1 hl'
      have hrest : l = l' := eq_of_lookup_eq hl hl' fun j => by
        by_cases hj : j = k
        · rw [hj, lookup_eq_none_of_lt hk, lookup_eq_none_of_lt hk']
        · have hj' := h j
          rwa [lookup_cons_ite, lookup_cons_ite, if_neg hj, if_neg hj] at hj'
      rw [hrest]

/-- **Tables in which the same is found are the same.** -/
theorem ext_get? {s t : Table α} (h : ∀ k, s.get? k = t.get? k) : s = t :=
  ext_entries (eq_of_lookup_eq s.ascending t.ascending h)

/-- A table is the table of its pairs. -/
theorem ofList_entries (t : Table α) : ofList t.entries = t :=
  ext_get? fun k => (get?_ofList t.entries k).trans (lookup_reverse t.nodup_keys)

end Table

end Pane
