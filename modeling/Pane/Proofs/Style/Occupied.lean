import Pane.Proofs.Style.RuleTable

/-!
# Storing among occupied slots

Nothing has to be known of a table for a rule to be stored in it, and of the digest only how long it
is: every slot may be taken, by whatever content, and any contents may share a digest.

* `RuleTable.Search` — the search for a slot as it goes on from one number of digits to the next,
  with no bound on how often it does so.
* **`RuleTable.search_iff`** — every search comes to an end, and that is what storing gives.
* `RuleTable.hash_store`, `RuleTable.hash_store_eq_full` — the hashes that are given, and the one
  whose slot may be taken from another content.
* `RuleTable.store_store` — a content that is stored is not stored again.
* **`RuleTable.storing_is_safe_among_any_slots`** — all of it together.
-/

namespace Pane.Style.RuleTable

variable {t : RuleTable} {e e' : Entry}

/-! ## The search -/

/-- The search for the slot of an entry from a number of digits on, and the hash and the table that
it ends with.  The content is found where it lies; where another one lies and the digest has more
digits, the search goes on; every other slot is taken. -/
inductive Search (t : RuleTable) (e : Entry) (digest : String) :
    Nat → String × RuleTable → Prop where
  | found {len : Nat} {e' : Entry} (hget : t.get? (hashOf e.cascadeKey digest len) = some e')
      (hsame : e'.fingerprint = e.fingerprint) :
      Search t e digest len (hashOf e.cascadeKey digest len, t)
  | lengthened {len : Nat} {e' : Entry} {result : String × RuleTable}
      (hget : t.get? (hashOf e.cascadeKey digest len) = some e')
      (hother : e'.fingerprint ≠ e.fingerprint) (hmore : len < digest.length)
      (hrest : Search t e digest (min (len + 4) digest.length) result) :
      Search t e digest len result
  | taken {len : Nat}
      (hslot : ∀ e', t.get? (hashOf e.cascadeKey digest len) = some e' →
        e'.fingerprint ≠ e.fingerprint ∧ ¬len < digest.length) :
      Search t e digest len
        (hashOf e.cascadeKey digest len, t.insert (hashOf e.cascadeKey digest len) e)

/-- A slot that fits, or has all digits, ends the search. -/
theorem search_settle {digest : String} {len : Nat}
    (h : t.fits e (hashOf e.cascadeKey digest len) = true ∨ ¬len < digest.length) :
    Search t e digest len
      (hashOf e.cascadeKey digest len, t.settle e (hashOf e.cascadeKey digest len)) := by
  rw [settle, holds]
  cases hget : t.get? (hashOf e.cascadeKey digest len) with
  | none => exact .taken fun e' he' => by simp [hget] at he'
  | some e' =>
    by_cases hsame : e'.fingerprint = e.fingerprint
    · simpa [hsame] using Search.found hget hsame
    · have hfull : ¬len < digest.length := by simpa [fits, hget, hsame] using h
      have htaken : Search t e digest len _ := .taken fun e'' he'' => by
        obtain rfl : e' = e'' := Option.some.inj (hget.symm.trans he'')
        exact ⟨hsame, hfull⟩
      simpa [hsame] using htaken

/-- The bounded search ends as the search does if its bound covers the digits that are left, four at
a time. -/
theorem search_storeFrom (t : RuleTable) (e : Entry) (digest : String) :
    ∀ (more len : Nat), digest.length ≤ len + 4 * more →
      Search t e digest len (storeFrom t e digest len (more + 1))
  | more, len, hmore => by
      by_cases h : t.fits e (hashOf e.cascadeKey digest len) = true ∨ ¬len < digest.length
      · rw [storeFrom_settled more h]
        exact search_settle h
      · obtain ⟨hfit, hlen⟩ : t.fits e (hashOf e.cascadeKey digest len) = false ∧
            len < digest.length := by simpa using h
        rw [storeFrom_passed more hfit hlen]
        rw [fits] at hfit
        split at hfit
        · cases hfit
        · next e' hget =>
          obtain ⟨more, rfl⟩ : ∃ k, more = k + 1 := ⟨more - 1, by omega⟩
          exact .lengthened hget (by simpa using hfit) hlen
            (search_storeFrom t e digest more _ (by omega))

/-- A search has one end. -/
theorem Search.unique {digest : String} {len : Nat} {r r' : String × RuleTable}
    (h : Search t e digest len r) (h' : Search t e digest len r') : r = r' := by
  induction h with
  | found hget hsame =>
    cases h' with
    | found => rfl
    | lengthened hget' hother =>
      obtain rfl := Option.some.inj (hget.symm.trans hget')
      exact absurd hsame hother
    | taken hslot => exact absurd hsame (hslot _ hget).1
  | lengthened hget hother hmore _ ih =>
    cases h' with
    | found hget' hsame =>
      obtain rfl := Option.some.inj (hget.symm.trans hget')
      exact absurd hsame hother
    | lengthened _ _ _ hrest => exact ih hrest
    | taken hslot => exact absurd hmore (hslot _ hget).2
  | taken hslot =>
    cases h' with
    | found hget hsame => exact absurd hsame (hslot _ hget).1
    | lengthened hget _ hmore => exact absurd hmore (hslot _ hget).2
    | taken => rfl

/-- **Every search comes to an end**, and that is what storing gives. -/
theorem search_iff (t : RuleTable) (e : Entry) (digest : String → String)
    (r : String × RuleTable) :
    Search t e (digest e.fingerprint) minDigits r ↔ r = t.store digest e := by
  have hstore : Search t e (digest e.fingerprint) minDigits (t.store digest e) :=
    search_storeFrom t e _ _ _ (by omega)
  exact ⟨fun h => h.unique hstore, fun h => h ▸ hstore⟩

/-! ## What is kept -/

section store

variable {digest : String → String} (hd : ∀ s, (digest s).length = 64)

include hd

/-- The hash that an entry is stored under has twelve digits of its digest, or four more, and so on
up to all of them. -/
theorem hash_store (t : RuleTable) (e : Entry) : ∃ i ≤ 13, (t.store digest e).1 =
    hashOf e.cascadeKey (digest e.fingerprint) (12 + 4 * i) := by
  have hcounts : ∀ n ∈ digitCounts, ∃ i ≤ 13, n = 12 + 4 * i := by decide
  obtain ⟨i, hi, hn⟩ := hcounts _ (slotDigits_mem t e (digest e.fingerprint))
  rw [store_eq t e digest (hd _)]
  exact ⟨i, hi, congrArg (hashOf e.cascadeKey (digest e.fingerprint)) hn⟩

/-- A slot with other content is only used if it has all digits. -/
theorem hash_store_eq_full (hget : t.get? (t.store digest e).1 = some e')
    (hother : e'.fingerprint ≠ e.fingerprint) :
    (t.store digest e).1 = "s" ++ e.cascadeKey ++ digest e.fingerprint := by
  rw [store_eq t e digest (hd _)] at hget ⊢
  rcases fits_or_full t e (digest e.fingerprint) with hfit | hfull
  · rw [fits, hget] at hfit
    exact absurd (by simpa using hfit) hother
  · have hall : (digest e.fingerprint).toList.take 64 = (digest e.fingerprint).toList :=
      List.take_of_length_le (Nat.le_of_eq (by rw [String.length_toList, hd]))
    rw [hfull, hashOf, hall, String.ofList_toList]

/-- **A content that is stored is not stored again.** -/
theorem store_store {again : Entry} (hkey : again.cascadeKey = e.cascadeKey)
    (hsame : again.fingerprint = e.fingerprint) :
    (t.store digest e).2.store digest again = t.store digest e := by
  have hslot : ∀ t : RuleTable, t.slotDigits again (digest e.fingerprint) =
      t.slotDigits e (digest e.fingerprint) := fun t => by
    simp only [slotDigits, slotAmong, fits, hkey, hsame]
  have hstays := slotDigits_eq (t := t) (e := e) (hd e.fingerprint)
    (fun k e' hk hget => (get?_settle_of_ne hk).trans hget) (holds_settle t e _)
  have hheld : ∀ hash, (t.settle e hash).holds again hash = true := fun hash => by
    rw [holds, hsame]
    exact holds_settle t e hash
  rw [store_eq t e digest (hd _), store_eq _ again digest (hd _)]
  simp only [hsame, hkey, hslot, hstays, settle_of_holds (hheld _)]

/-- **Storing is safe among any slots.**  Take any digest of sixty-four digits, any table, whatever
its slots hold, and any entry.

The search for its slot comes to an end, with this hash and this table and no other.  The hash has
the cascade key of the entry and twelve digits of its digest, or sixteen, and so on up to all of
them.  The slot holds the content of the entry then.  If it did so before, the table is what it was,
and else it holds the entry itself; only with all digits may it have held another content.  Every
other slot holds what it held.  And to store the same content again gives the same hash and changes
nothing. -/
theorem storing_is_safe_among_any_slots (t : RuleTable) (e : Entry) :
    let hash := (t.store digest e).1
    let t' := (t.store digest e).2
    (∀ result, Search t e (digest e.fingerprint) minDigits result ↔ result = (hash, t')) ∧
      (∃ i ≤ 13, hash = "s" ++ e.cascadeKey ++
        String.ofList ((digest e.fingerprint).toList.take (12 + 4 * i))) ∧
      (∃ e', t'.get? hash = some e' ∧ e'.fingerprint = e.fingerprint) ∧
      (∀ e', t.get? hash = some e' → e'.fingerprint = e.fingerprint → t' = t) ∧
      (∀ e', t.get? hash = some e' → e'.fingerprint ≠ e.fingerprint →
        hash = "s" ++ e.cascadeKey ++ digest e.fingerprint) ∧
      ((∀ e', t.get? hash = some e' → e'.fingerprint ≠ e.fingerprint) → t'.get? hash = some e) ∧
      (∀ k, k ≠ hash → t'.get? k = t.get? k) ∧
      ∀ again : Entry, again.cascadeKey = e.cascadeKey → again.fingerprint = e.fingerprint →
        t'.store digest again = (hash, t') := by
  intro hash t'
  have hstore : t' = t.settle e hash := by
    show (t.store digest e).2 = t.settle e (t.store digest e).1
    rw [store_eq t e digest (hd _)]
  refine ⟨search_iff t e digest, hash_store hd t e, ?_, fun e' hget hsame => ?_,
    fun e' hget hother => hash_store_eq_full hd hget hother, fun hother => ?_, fun k hk => ?_,
    fun again hkey hsame => store_store hd hkey hsame⟩
  · have hheld := holds_settle t e hash
    rw [← hstore, holds, Option.any_eq_true] at hheld
    obtain ⟨e', hget, hsame⟩ := hheld
    exact ⟨e', hget, of_decide_eq_true hsame⟩
  · rw [hstore, settle_of_holds (by simp [holds, hget, hsame])]
  · have hheld : t.holds e hash = false := by
      cases hget : t.get? hash with
      | none => rw [holds, hget, Option.any_none]
      | some e' => rw [holds, hget, Option.any_some, decide_eq_false (hother e' hget)]
    rw [hstore, settle, hheld, if_neg Bool.false_ne_true, get?_insert, if_pos rfl]
  · rw [hstore, get?_settle_of_ne hk]

end store

/-- All contents share a digest, and every slot of the content is taken by another one: it is stored
under all digits. -/
theorem full_table_gives_up_its_longest_slot :
    let digest : String → String := fun _ => String.ofList (List.replicate 64 'a')
    let e := Entry.ofContent "00000000" "" [⟨"color", "red"⟩]
    let other := Entry.ofContent "11111111" ":hover" [⟨"color", "blue"⟩]
    let t : RuleTable := digitCounts.map fun n => (hashOf "00000000" (digest "") n, other)
    (∀ s, (digest s).length = 64) ∧
      (t.store digest e).1 = "s00000000" ++ String.ofList (List.replicate 64 'a') ∧
      (t.store digest e).2.get? (t.store digest e).1 = some e ∧
      (t.store digest e).2.get? ("s00000000" ++ String.ofList (List.replicate 60 'a')) =
        some other := by
  intro digest e other t
  have hd : ∀ s, (digest s).length = 64 := fun _ => by decide
  have hheld : t.get? (t.store digest e).1 = some other := by decide +kernel
  have hother : other.fingerprint ≠ e.fingerprint := by decide +kernel
  obtain ⟨-, -, -, -, hfull, htaken, hkept, -⟩ := storing_is_safe_among_any_slots hd t e
  refine ⟨hd, hfull other hheld hother, htaken fun e' hget => ?_, ?_⟩
  · obtain rfl : other = e' := Option.some.inj (hheld.symm.trans hget)
    exact hother
  rw [hkept _ (by decide +kernel)]
  decide +kernel

end Pane.Style.RuleTable
