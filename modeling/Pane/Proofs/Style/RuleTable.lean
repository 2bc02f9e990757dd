import Pane.Style.Registry
import Pane.Table

/-!
# What storing a rule does to the table

Storing tries the hashes of one content in order: twelve digits of its digest, then sixteen, and so
on up to all sixty-four.  It settles on the first slot that *fits* — one that is free or holds the
same content — and on the last one if none does.  Everything that is known about the table later is
read off this description, so nothing behind this file opens the search again.

The digest is a parameter here.  All that is assumed of it is that it has sixty-four digits.

* `RuleTable.get?_insert` — a slot after an insertion.
* `RuleTable.fits`, `RuleTable.slotDigits` — whether a slot may be used, and the digits of the slot
  that is used.
* **`RuleTable.store_eq`** — storing is one insertion at that slot, or none.
* `RuleTable.holds_settle`, `RuleTable.get?_settle_of_ne` — the slot holds the content afterwards,
  and every other slot what it held.
* `RuleTable.slotDigits_eq_minDigits` — a first slot that is free, or holds the entry, is used.
* `RuleTable.WellKeyed` — every entry lies under a hash of its own key and digest.
* `RuleTable.Separate` — no content of the table shares all digits of its digest with another one.
* **`RuleTable.get?_store_of_separate`**, **`RuleTable.slotDigits_eq`** — under this assumption a
  slot keeps its content, and a content its slot.
-/

namespace Pane.Style.RuleTable

/-! ## Slots -/

/-- **A slot after an insertion** holds the new entry if it is the one inserted at, and else what it
held. -/
theorem get?_insert (hash k : String) (e : Entry) :
    ∀ t : RuleTable, (insert hash e t).get? k = if k = hash then some e else t.get? k
  | [] => by rw [insert, get?, Table.lookup_cons_ite, get?]
  | (h, e') :: t => by
      have ih := get?_insert hash k e t
      rw [insert]
      split
      · next he =>
        subst he
        rw [get?, get?, Table.lookup_cons_ite, Table.lookup_cons_ite]
        split <;> rfl
      · next hne =>
        simp only [get?] at ih ⊢
        rw [Table.lookup_cons_ite, Table.lookup_cons_ite, ih]
        by_cases hk : k = h
        · simp [hk, hne]
        · simp [hk]

/-- What is found is in the table. -/
theorem mem_of_get? {t : RuleTable} {hash : String} {e : Entry} (hg : t.get? hash = some e) :
    (hash, e) ∈ t := by
  obtain ⟨front, back, ht, -⟩ := List.lookup_eq_some_iff.1 hg
  rw [ht]
  exact List.mem_append_right _ (List.mem_cons_self ..)

/-- Under the hash of what is in the table something is found. -/
theorem isSome_get?_of_mem {t : RuleTable} {p : String × Entry} (h : p ∈ t) :
    (t.get? p.1).isSome = true :=
  List.lookup_isSome_iff.2 ⟨p, h, beq_self_eq_true p.1⟩

/-- Whether a slot may be used for an entry: it is free, or holds the same content. -/
def fits (t : RuleTable) (e : Entry) (hash : String) : Bool :=
  match t.get? hash with
  | none => true
  | some e' => e'.fingerprint = e.fingerprint

/-- Whether a slot holds the content of an entry. -/
def holds (t : RuleTable) (e : Entry) (hash : String) : Bool :=
  (t.get? hash).any fun e' => e'.fingerprint = e.fingerprint

/-- The number of digits of the slot that is used, among some numbers of digits. -/
def slotAmong (t : RuleTable) (e : Entry) (digest : String) (counts : List Nat) : Nat :=
  (counts.find? fun n => t.fits e (hashOf e.cascadeKey digest n)).getD 64

/-- The numbers of digits that are tried. -/
def digitCounts : List Nat := List.range' 12 14 4

/-- The number of digits of the slot that an entry is stored under. -/
def slotDigits (t : RuleTable) (e : Entry) (digest : String) : Nat :=
  t.slotAmong e digest digitCounts

/-- A table with an entry in a slot, unless the content is there already. -/
def settle (t : RuleTable) (e : Entry) (hash : String) : RuleTable :=
  if t.holds e hash then t else insert hash e t

/-- Storing stops at the first hash that fits, or at the last one. -/
theorem storeFrom_settled {t : RuleTable} {e : Entry} {digest : String} {len : Nat} (more : Nat)
    (h : t.fits e (hashOf e.cascadeKey digest len) = true ∨ ¬len < digest.length) :
    storeFrom t e digest len (more + 1) =
      (hashOf e.cascadeKey digest len, t.settle e (hashOf e.cascadeKey digest len)) := by
  rw [storeFrom, settle, holds]
  split
  · next hg => simp [hg]
  · next e' hg =>
    by_cases hf : e'.fingerprint = e.fingerprint
    · simp [hg, hf]
    · have hlen : ¬len < digest.length := by simpa [fits, hg, hf] using h
      simp [hg, hf, hlen]

/-- It goes on behind a hash that does not fit. -/
theorem storeFrom_passed {t : RuleTable} {e : Entry} {digest : String} {len : Nat} (more : Nat)
    (h : t.fits e (hashOf e.cascadeKey digest len) = false) (hlen : len < digest.length) :
    storeFrom t e digest len (more + 1) =
      storeFrom t e digest (min (len + 4) digest.length) more := by
  rw [fits] at h
  rw [storeFrom]
  cases hg : t.get? (hashOf e.cascadeKey digest len) with
  | none => simp [hg] at h
  | some e' =>
    have hf : e'.fingerprint ≠ e.fingerprint := by simpa [hg] using h
    simp [hf, hlen]

/-- The search from a number of digits on, `k` steps short of all sixty-four. -/
theorem storeFrom_eq (t : RuleTable) (e : Entry) {digest : String} (hd : digest.length = 64) :
    ∀ (k more : Nat), k < more → k ≤ 16 →
      let n := t.slotAmong e digest (List.range' (64 - 4 * k) (k + 1) 4)
      storeFrom t e digest (64 - 4 * k) more =
        (hashOf e.cascadeKey digest n, t.settle e (hashOf e.cascadeKey digest n))
  | 0, more + 1, _, _ => by
      have hn : t.slotAmong e digest (List.range' (64 - 4 * 0) (0 + 1) 4) = 64 := by
        simp only [slotAmong, List.range', List.find?_cons]
        split <;> rfl
      rw [hn]
      exact storeFrom_settled more (.inr (by omega))
  | k + 1, more + 1, hmore, hk => by
      have hstep : 64 - 4 * (k + 1) + 4 = 64 - 4 * k := by omega
      rw [List.range'_succ, hstep]
      cases hf : t.fits e (hashOf e.cascadeKey digest (64 - 4 * (k + 1))) with
      | true => simp [slotAmong, hf, storeFrom_settled more (.inl hf)]
      | false =>
        have ih := storeFrom_eq t e hd k more (by omega) (by omega)
        have hmin : min (64 - 4 * (k + 1) + 4) digest.length = 64 - 4 * k := by omega
        have hn : t.slotAmong e digest
            ((64 - 4 * (k + 1)) :: List.range' (64 - 4 * k) (k + 1) 4) =
            t.slotAmong e digest (List.range' (64 - 4 * k) (k + 1) 4) := by
          simp [slotAmong, hf]
        rw [hn, storeFrom_passed more hf (by omega), hmin]
        exact ih

/-- **Storing is one insertion at the slot that is used, or none if the content is there.** -/
theorem store_eq (t : RuleTable) (e : Entry) (digest : String → String)
    (hd : (digest e.fingerprint).length = 64) :
    let hash := hashOf e.cascadeKey (digest e.fingerprint) (t.slotDigits e (digest e.fingerprint))
    t.store digest e = (hash, t.settle e hash) :=
  storeFrom_eq t e hd 13 _ (by omega) (by omega)

/-! ## The slot that is used -/

variable {t t' : RuleTable} {e e' : Entry}

/-- A slot has a number of digits that is tried. -/
theorem slotDigits_mem (t : RuleTable) (e : Entry) (digest : String) :
    t.slotDigits e digest ∈ digitCounts := by
  rw [slotDigits, slotAmong]
  cases h : digitCounts.find? fun n => t.fits e (hashOf e.cascadeKey digest n) with
  | none => decide
  | some n => exact List.mem_of_find?_eq_some h

theorem le_of_mem_digitCounts {n : Nat} (h : n ∈ digitCounts) : 12 ≤ n ∧ n ≤ 64 := by
  revert n
  decide

/-- A content that is nowhere else in the way of itself is stored at the first slot that fits, so a
slot that does not fit is only ever used at full length. -/
theorem fits_or_full (t : RuleTable) (e : Entry) (digest : String) :
    t.fits e (hashOf e.cascadeKey digest (t.slotDigits e digest)) = true ∨
      t.slotDigits e digest = 64 := by
  rw [slotDigits, slotAmong]
  cases h : digitCounts.find? fun n => t.fits e (hashOf e.cascadeKey digest n) with
  | none => exact .inr rfl
  | some n => exact .inl (by simpa using List.find?_some h)

/-- Hashes are equal only with the key and with the digits that they show. -/
theorem hashOf_inj {key key' d d' : String} {n n' : Nat} (hk : key.length = key'.length)
    (h : hashOf key d n = hashOf key' d' n') :
    key = key' ∧ d.toList.take n = d'.toList.take n' := by
  have h := congrArg String.toList h
  simp only [hashOf, String.toList_append, String.toList_ofList, List.append_assoc] at h
  have hl : key.toList.length = key'.toList.length := by
    rw [String.length_toList, String.length_toList, hk]
  obtain ⟨h₁, h₂⟩ := List.append_inj (List.append_cancel_left h) hl
  exact ⟨String.toList_inj.1 h₁, h₂⟩

/-- Among the numbers of digits that are tried, different ones give different hashes. -/
theorem hashOf_count_inj {key d : String} (hd : d.length = 64) {n n' : Nat}
    (hn : n ∈ digitCounts) (hn' : n' ∈ digitCounts) (h : hashOf key d n = hashOf key d n') :
    n = n' := by
  have hlen := congrArg List.length (hashOf_inj rfl h).2
  have hd' : d.toList.length = 64 := by rw [String.length_toList, hd]
  have := le_of_mem_digitCounts hn
  have := le_of_mem_digitCounts hn'
  simp only [List.length_take, hd'] at hlen
  omega

/-! ## What storing keeps -/

/-- What is held is not stored again. -/
theorem settle_of_holds {hash : String} (h : t.holds e hash = true) : t.settle e hash = t :=
  if_pos h

/-- Other hashes keep what they have. -/
theorem get?_settle_of_ne {hash k : String} (h : k ≠ hash) :
    (t.settle e hash).get? k = t.get? k := by
  rw [settle]
  split
  · rfl
  · rw [get?_insert, if_neg h]

/-- What is found after a change was there before or is new. -/
theorem get?_settle {hash k : String} (h : (t.settle e hash).get? k = some e') :
    t.get? k = some e' ∨ e' = e := by
  rw [settle] at h
  split at h
  · exact .inl h
  · rw [get?_insert] at h
    split at h
    · exact .inr (Option.some.inj h).symm
    · exact .inl h

/-- What is settled is held. -/
theorem holds_settle (t : RuleTable) (e : Entry) (hash : String) :
    (t.settle e hash).holds e hash = true := by
  rw [settle]
  split
  · assumption
  · simp [holds, get?_insert]

theorem isSome_get?_settle_self (t : RuleTable) (e : Entry) (hash : String) :
    ((t.settle e hash).get? hash).isSome = true := by
  have hh := holds_settle t e hash
  rw [holds] at hh
  cases hg : (t.settle e hash).get? hash with
  | none => simp [hg] at hh
  | some e' => rfl

/-- Settling takes nothing away. -/
theorem isSome_get?_settle {hash k : String} (h : (t.get? k).isSome = true) :
    ((t.settle e hash).get? k).isSome = true := by
  by_cases hk : k = hash
  · rw [hk]
    exact isSome_get?_settle_self t e hash
  · rwa [get?_settle_of_ne hk]

/-- A slot that is free or holds an entry holds this entry afterwards. -/
theorem get?_settle_self {hash : String} (h : t.get? hash = none ∨ t.get? hash = some e) :
    (t.settle e hash).get? hash = some e := by
  rw [settle, holds]
  rcases h with h | h
  · rw [h, Option.any_none, if_neg Bool.false_ne_true, get?_insert, if_pos rfl]
  · rw [h, Option.any_some, if_pos (decide_eq_true rfl), h]

/-- **An entry whose first slot is free, or holds it already, is stored there.** -/
theorem slotDigits_eq_minDigits {digest : String}
    (h : t.get? (hashOf e.cascadeKey digest minDigits) = none ∨
      t.get? (hashOf e.cascadeKey digest minDigits) = some e) :
    t.slotDigits e digest = minDigits := by
  have hfits : t.fits e (hashOf e.cascadeKey digest minDigits) = true := by
    rw [fits]
    rcases h with h | h
    · rw [h]
    · rw [h]
      exact decide_eq_true rfl
  have hcounts : digitCounts = minDigits :: List.range' 16 13 4 := rfl
  rw [slotDigits, slotAmong, hcounts, List.find?_cons, hfits]
  rfl

/-- Eight lower-case hexadecimal digits. -/
def IsKey (key : String) : Prop :=
  key.length = 8 ∧ ∀ c ∈ key.toList, Digest.isLowerHex c = true

/-- Every entry lies under a hash of its own key and digest. -/
def WellKeyed (digest : String → String) (t : RuleTable) : Prop :=
  ∀ hash e, t.get? hash = some e →
    IsKey e.cascadeKey ∧ ∃ n ∈ digitCounts, hash = hashOf e.cascadeKey (digest e.fingerprint) n

/-- Storing keeps a table well keyed. -/
theorem WellKeyed.store {digest : String → String} (ht : WellKeyed digest t)
    (hd : (digest e.fingerprint).length = 64) (he : IsKey e.cascadeKey) :
    WellKeyed digest (t.store digest e).2 := by
  rw [store_eq t e digest hd]
  intro hash e' hg
  simp only [settle] at hg
  split at hg
  · exact ht hash e' hg
  · rw [get?_insert] at hg
    split at hg
    · next heq =>
      obtain rfl : e = e' := by simpa using hg
      exact ⟨he, _, slotDigits_mem t e _, heq⟩
    · exact ht hash e' hg

/-- The characters of a hash, if its digest is lower-case hexadecimal. -/
theorem WellKeyed.char_of_mem {digest : String → String} (ht : WellKeyed digest t)
    (hd : ∀ s, ∀ c ∈ (digest s).toList, Digest.isLowerHex c = true) {hash : String}
    (hg : t.get? hash = some e) {c : Char} (hc : c ∈ hash.toList) :
    c = 's' ∨ Digest.isLowerHex c = true := by
  obtain ⟨hkey, n, -, rfl⟩ := ht hash e hg
  simp only [hashOf, String.toList_append, String.toList_ofList, List.mem_append] at hc
  rcases hc with (hc | hc) | hc
  · exact .inl (by simpa using hc)
  · exact .inr (hkey.2 c hc)
  · exact .inr (hd _ c (List.mem_of_mem_take hc))

/-! ## Contents with digests of their own

Only at its full length is a hash taken away from the content that lies there, and two contents meet
there only if their digests agree in all digits.
-/

/-- No content of a table shares its digest with an entry, unless it is the entry's. -/
def Separate (digest : String → String) (t : RuleTable) (e : Entry) : Prop :=
  ∀ hash e', t.get? hash = some e' → digest e'.fingerprint = digest e.fingerprint →
    e'.fingerprint = e.fingerprint

/-- **A slot keeps its entry** when a content with a digest of its own is stored. -/
theorem get?_store_of_separate {digest : String → String} (ht : WellKeyed digest t)
    (hd : ∀ s, (digest s).length = 64) (he : IsKey e.cascadeKey) (hs : Separate digest t e)
    {k : String} (hk : t.get? k = some e') : (t.store digest e).2.get? k = some e' := by
  rw [store_eq t e digest (hd _)]
  by_cases hne : k = hashOf e.cascadeKey (digest e.fingerprint)
      (t.slotDigits e (digest e.fingerprint))
  · have hsame : e'.fingerprint = e.fingerprint := by
      rcases fits_or_full t e (digest e.fingerprint) with hfit | hfull
      · rw [← hne, fits, hk] at hfit
        simpa using hfit
      · -- both digests are written out in full here, so they are the same
        obtain ⟨hkey, n, hn, hhash⟩ := ht k e' hk
        have hfull' := hne.symm.trans hhash
        rw [hfull] at hfull'
        have htake := (hashOf_inj (he.1.trans hkey.1.symm) hfull').2
        have h₁ : (digest e.fingerprint).toList.length = 64 := by rw [String.length_toList, hd]
        have h₂ : (digest e'.fingerprint).toList.length = 64 := by rw [String.length_toList, hd]
        have hlen := congrArg List.length htake
        have := le_of_mem_digitCounts hn
        simp only [List.length_take, h₁, h₂] at hlen
        obtain rfl : n = 64 := by omega
        rw [List.take_of_length_le (by omega), List.take_of_length_le (by omega)] at htake
        exact hs k e' hk (String.toList_inj.1 htake.symm)
    rw [settle, if_pos, hk]
    simp [← hne, holds, hk, hsame]
  · rw [get?_settle_of_ne hne, hk]

/-- Two searches end in one place if they differ only behind it. -/
theorem getD_find?_eq {p q : Nat → Bool} {d : Nat} {l : List Nat} (hd : d ∈ l)
    (hq : q ((l.find? p).getD d) = true)
    (h : ∀ x ∈ l, x ≠ (l.find? p).getD d → p x = false → q x = false) :
    (l.find? q).getD d = (l.find? p).getD d := by
  cases hp : l.find? p with
  | none =>
    simp only [hp, Option.getD_none] at hq h ⊢
    have hp' : ∀ x ∈ l, p x = false := by simpa using hp
    cases hf : l.find? q with
    | none => rfl
    | some y =>
      have hy := List.mem_of_find?_eq_some hf
      by_cases hyd : y = d
      · exact hyd
      · have := List.find?_some hf
        rw [h y hy hyd (hp' y hy)] at this
        exact absurd this (by simp)
  | some n =>
    simp only [hp, Option.getD_some] at hq h ⊢
    obtain ⟨hpn, before, after, rfl, hb⟩ := List.find?_eq_some_iff_append.1 hp
    have hb' : before.find? q = none := by
      refine List.find?_eq_none.2 fun x hx => ?_
      have hpx : p x = false := by simpa using hb x hx
      have hxn : x ≠ n := fun he => by simp [he, hpn] at hpx
      simp [h x (List.mem_append_left _ hx) hxn hpx]
    simp [List.find?_append, hb', hq]

/-- **A content keeps its slot.**  Once it lies there, the same slot is found in every later table
that has kept the other slots, and storing the content again changes nothing. -/
theorem slotDigits_eq {digest : String} (hd : digest.length = 64)
    (hkeep : ∀ k e', k ≠ hashOf e.cascadeKey digest (t.slotDigits e digest) →
      t.get? k = some e' → t'.get? k = some e')
    (hholds : t'.holds e (hashOf e.cascadeKey digest (t.slotDigits e digest)) = true) :
    t'.slotDigits e digest = t.slotDigits e digest := by
  refine getD_find?_eq (by decide) ?_ fun n hn hne hfit => ?_
  · -- what holds the content fits it
    rw [holds] at hholds
    rw [fits]
    split
    · rfl
    · next e' hg =>
      simp only [slotDigits, slotAmong] at hholds
      simpa [hg] using hholds
  · rw [fits] at hfit
    split at hfit
    · exact absurd hfit (by simp)
    · next e' hg =>
      have hk : hashOf e.cascadeKey digest n ≠
          hashOf e.cascadeKey digest (t.slotDigits e digest) := fun he =>
        hne (hashOf_count_inj hd hn (slotDigits_mem t e digest) he)
      simpa [fits, hkeep _ e' hk hg] using hfit

end Pane.Style.RuleTable
