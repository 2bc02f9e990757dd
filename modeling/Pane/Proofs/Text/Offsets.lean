import Mathlib.Data.List.Basic
import Pane.Text.Basic

/-!
# Byte offsets into a text

A text can be searched over its UTF-8 bytes and cut at the offset that is found.  The cut is only
made where a character begins or the text ends; anywhere else there is no cut.

* `bytes`, `size` — the encoding of a text and its length.  **`exists_of_ascii`**: a byte below 128
  is a whole character.  `eq_behind_high`: other characters are passed byte by byte.
* `IsBoundary` — offsets between characters.  **`isBoundary_iff_isValid`**: these are the valid
  positions of a string.  **`isBoundary_of_ascii`**: an ASCII byte stands between two of them.
* `splitAt?`, `slice?`, `sliceFrom?` — cuts at offsets.  **`slice?_eq_some_iff`**: a slice is what
  stands between two boundaries; `slice?_of_boundary`: there is one.
-/

namespace Pane.Text

/-! ## Encoding -/

/-- The UTF-8 bytes of a text. -/
def bytes (s : List Char) : List UInt8 := s.flatMap String.utf8EncodeChar

/-- The number of bytes of a text. -/
def size (s : List Char) : Nat := (bytes s).length

section encoding

variable {s t : List Char} {c : Char} {b : UInt8} {i : Nat}

theorem bytes_cons (c : Char) (s : List Char) :
    bytes (c :: s) = String.utf8EncodeChar c ++ bytes s := rfl

theorem bytes_append (s t : List Char) : bytes (s ++ t) = bytes s ++ bytes t := List.flatMap_append

@[simp] theorem size_nil : size [] = 0 := rfl

@[simp] theorem size_cons (c : Char) (s : List Char) : size (c :: s) = c.utf8Size + size s := by
  rw [size, bytes_cons, List.length_append, String.length_utf8EncodeChar, size]

@[simp] theorem size_append (s t : List Char) : size (s ++ t) = size s + size t := by
  rw [size, bytes_append, List.length_append, size, size]

theorem size_eq_zero : size s = 0 ↔ s = [] := by
  cases s with
  | nil => exact iff_of_true rfl rfl
  | cons c s =>
    have hpos := c.utf8Size_pos
    rw [size_cons]
    exact iff_of_false (by omega) (List.cons_ne_nil c s)

/-- The size of a text is the number of its bytes. -/
theorem size_toList (s : String) : size s.toList = s.utf8ByteSize := by
  have hofList : ∀ l, size l = (String.ofList l).utf8ByteSize := by
    intro l
    induction l with
    | nil => rfl
    | cons c l ih =>
      rw [size_cons, ih, ← List.singleton_append, String.ofList_append,
        ← String.singleton_eq_ofList, String.utf8ByteSize_append, String.utf8ByteSize_singleton]
  rw [hofList, String.ofList_toList]

/-- The byte behind a text, and those after it. -/
theorem getElem?_bytes_append (s t : List Char) (k : Nat) :
    (bytes (s ++ t))[size s + k]? = (bytes t)[k]? := by
  rw [bytes_append, size, List.getElem?_append_right (Nat.le_add_right _ _),
    Nat.add_sub_cancel_left]

/-- There is no byte behind the end. -/
theorem getElem?_bytes_of_le (h : size s ≤ i) : (bytes s)[i]? = none :=
  List.getElem?_eq_none h

/-- A character of seven bits is encoded by itself. -/
theorem encode_ascii (hc : c.toNat < 128) : String.utf8EncodeChar c = [c.toUInt8] := by
  refine String.utf8EncodeChar_eq_singleton (Char.utf8Size_eq_one_iff.2 ?_)
  exact UInt32.le_iff_toNat_le.2 (Nat.le_of_lt_succ hc)

theorem utf8Size_ascii (hc : c.toNat < 128) : c.utf8Size = 1 := by
  rw [← String.length_utf8EncodeChar, encode_ascii hc, List.length_singleton]

theorem size_concat_ascii (hc : c.toNat < 128) (s : List Char) : size (s ++ [c]) = size s + 1 := by
  rw [size_append, size_cons, utf8Size_ascii hc, size_nil]

theorem toNat_toUInt8 (hc : c.toNat < 128) : c.toUInt8.toNat = c.toNat := by
  rw [Char.toUInt8, UInt32.toNat_toUInt8]
  exact Nat.mod_eq_of_lt (Nat.lt_trans hc (by decide))

theorem toNat_ofUInt8 (b : UInt8) : (Char.ofUInt8 b).toNat = b.toNat := rfl

theorem ofUInt8_toUInt8 (hc : c.toNat < 128) : Char.ofUInt8 c.toUInt8 = c := by
  refine Char.toNat_inj.1 ?_
  rw [toNat_ofUInt8, toNat_toUInt8 hc]

/-- Every byte of another character is high. -/
theorem high_of_mem_encode (hc : ¬c.toNat < 128) :
    ∀ b ∈ String.utf8EncodeChar c, 128 ≤ b.toNat := by
  have hfirst : ¬c.val.toNat ≤ 127 := fun h => hc (Nat.lt_succ_of_le h)
  rw [String.utf8EncodeChar, if_neg hfirst]
  split_ifs <;>
    simp only [List.forall_mem_cons, List.not_mem_nil, false_imp_iff, implies_true, and_true,
      UInt8.toNat_ofNat'] <;>
    omega

/-- The byte of an ASCII character within a text. -/
theorem getElem?_bytes_ascii (hc : c.toNat < 128) (s t : List Char) :
    (bytes (s ++ c :: t))[size s]? = some c.toUInt8 := by
  have hbehind := getElem?_bytes_append s (c :: t) 0
  rwa [bytes_cons, encode_ascii hc, Nat.add_zero] at hbehind

/-- The bytes of another character within a text. -/
theorem getElem?_bytes_high (hc : ¬c.toNat < 128) (hi : i < c.utf8Size) (s t : List Char) :
    ∃ b, (bytes (s ++ c :: t))[size s + i]? = some b ∧ 128 ≤ b.toNat := by
  have hlength : i < (String.utf8EncodeChar c).length := by rwa [String.length_utf8EncodeChar]
  refine ⟨(String.utf8EncodeChar c)[i], ?_, high_of_mem_encode hc _ (List.getElem_mem _)⟩
  rw [getElem?_bytes_append, bytes_cons, List.getElem?_append_left hlength,
    List.getElem?_eq_getElem hlength]

/-- Characters of seven bits have different bytes. -/
theorem toUInt8_inj {d : Char} (hc : c.toNat < 128) (hd : d.toNat < 128) :
    c.toUInt8 = d.toUInt8 ↔ c = d := by
  refine ⟨fun h => ?_, congrArg _⟩
  rw [← ofUInt8_toUInt8 hc, h, ofUInt8_toUInt8 hd]

/-- High characters, and those of high bytes, are not ASCII. -/
theorem ne_of_high {d : Char} (hc : 128 ≤ c.toNat) (hd : d.toNat < 128) : c ≠ d := by
  rintro rfl
  exact absurd hd (Nat.not_lt.2 hc)

/-- What holds of ASCII only holds of a byte of a character if it holds of the character. -/
theorem exists_byte {f : Char → Bool} (hf : ∀ c, f c = true → c.toNat < 128)
    (hi : i < c.utf8Size) (s t : List Char) :
    ∃ b, (bytes (s ++ c :: t))[size s + i]? = some b ∧ f (Char.ofUInt8 b) = f c := by
  by_cases hc : c.toNat < 128
  · obtain rfl : i = 0 := by rw [utf8Size_ascii hc] at hi; omega
    exact ⟨_, getElem?_bytes_ascii hc s t, by rw [ofUInt8_toUInt8 hc]⟩
  · obtain ⟨b, hb, hhigh⟩ := getElem?_bytes_high hc hi s t
    have hnone : ∀ d : Char, ¬d.toNat < 128 → f d = false :=
      fun d hd => Bool.eq_false_iff.2 fun h => hd (hf d h)
    exact ⟨b, hb, by rw [hnone c hc, hnone (Char.ofUInt8 b) (Nat.not_lt.2 hhigh)]⟩

/-- What goes on behind every high byte goes on behind a character that is not ASCII, also from
within it. -/
theorem eq_behind_high {α : Type} {f : Nat → α} (hc : ¬c.toNat < 128) {s t : List Char}
    (hstep : ∀ i b, (bytes (s ++ c :: t))[i]? = some b → 128 ≤ b.toNat → f i = f (i + 1)) {k : Nat}
    (hk : k ≤ c.utf8Size) : f (size s + k) = f (size (s ++ [c])) := by
  have hpass : ∀ m, k + m ≤ c.utf8Size → f (size s + k) = f (size s + (k + m)) := by
    intro m
    induction m with
    | zero => exact fun _ => rfl
    | succ m ih =>
      intro hm
      obtain ⟨b, hb, hhigh⟩ := getElem?_bytes_high hc (i := k + m) (by omega) s t
      rw [ih (by omega), hstep _ b hb hhigh]
      rfl
  have hall := hpass (c.utf8Size - k) (by omega)
  rwa [Nat.add_sub_cancel' hk, show size s + c.utf8Size = size (s ++ [c]) by simp] at hall

/-- **A byte below 128 is a whole character.** -/
theorem exists_of_ascii (h : (bytes s)[i]? = some b) (hb : b.toNat < 128) :
    ∃ p c q, p ++ c :: q = s ∧ size p = i ∧ c.toNat < 128 ∧ c.toUInt8 = b := by
  induction s generalizing i with
  | nil => cases h
  | cons c s ih =>
    by_cases hi : i < c.utf8Size
    · by_cases hc : c.toNat < 128
      · obtain rfl : i = 0 := by rw [utf8Size_ascii hc] at hi; omega
        have hfirst := getElem?_bytes_ascii hc [] s
        exact ⟨[], c, s, rfl, rfl, hc, Option.some.inj (hfirst.symm.trans h)⟩
      · obtain ⟨b', hb', hhigh⟩ := getElem?_bytes_high hc hi [] s
        rw [List.nil_append, size_nil, Nat.zero_add, h] at hb'
        obtain rfl := Option.some.inj hb'
        exact absurd hb (Nat.not_lt.2 hhigh)
    · have hbehind := getElem?_bytes_append [c] s (i - c.utf8Size)
      have hsize : size [c] = c.utf8Size := by rw [size_cons, size_nil, Nat.add_zero]
      rw [hsize, Nat.add_sub_cancel' (Nat.not_lt.1 hi), List.singleton_append, h] at hbehind
      obtain ⟨p, d, q, rfl, hp, hd, rfl⟩ := ih hbehind.symm
      refine ⟨c :: p, d, q, rfl, ?_, hd, rfl⟩
      rw [size_cons, hp, Nat.add_sub_cancel' (Nat.not_lt.1 hi)]

end encoding

/-! ## Boundaries -/

/-- An offset between two characters, or at either end. -/
def IsBoundary (s : List Char) (i : Nat) : Prop := ∃ p q, p ++ q = s ∧ size p = i

section boundaries

variable {s : List Char} {b : UInt8} {i : Nat}

/-- **Boundaries are the valid positions.** -/
theorem isBoundary_iff_isValid (s : String) :
    IsBoundary s.toList i ↔ String.Pos.Raw.IsValid s ⟨i⟩ := by
  rw [String.Pos.Raw.isValid_iff_exists_append]
  constructor
  · rintro ⟨p, q, hs, rfl⟩
    refine ⟨String.ofList p, String.ofList q, ?_, ?_⟩
    · rw [← String.ofList_append, hs, String.ofList_toList]
    · have hsize := size_toList (String.ofList p)
      rw [String.toList_ofList] at hsize
      rw [hsize]
      rfl
  · rintro ⟨p, q, rfl, hi⟩
    refine ⟨p.toList, q.toList, String.toList_append.symm, ?_⟩
    rw [size_toList]
    exact (congrArg String.Pos.Raw.byteIdx hi).symm

theorem isBoundary_zero (s : List Char) : IsBoundary s 0 := ⟨[], s, rfl, rfl⟩

theorem isBoundary_size (s : List Char) : IsBoundary s (size s) := ⟨s, [], List.append_nil s, rfl⟩

/-- **An ASCII byte stands between two boundaries.** -/
theorem isBoundary_of_ascii (h : (bytes s)[i]? = some b) (hb : b.toNat < 128) :
    IsBoundary s i ∧ IsBoundary s (i + 1) := by
  obtain ⟨p, c, q, rfl, rfl, hc, -⟩ := exists_of_ascii h hb
  exact ⟨⟨p, c :: q, rfl, rfl⟩, p ++ [c], q, by rw [List.append_assoc]; rfl,
    size_concat_ascii hc p⟩

end boundaries

/-! ## Cuts -/

/-- A text cut at an offset, if this is a boundary. -/
def splitAt? : List Char → Nat → Option (List Char × List Char)
  | s, 0 => some ([], s)
  | [], _ + 1 => none
  | c :: s, n + 1 =>
    if c.utf8Size ≤ n + 1 then
      (splitAt? s (n + 1 - c.utf8Size)).map fun (p, q) => (c :: p, q)
    else none

/-- The text between two boundaries. -/
def slice? (s : List Char) (i j : Nat) : Option (List Char) := do
  let (p, _) ← splitAt? s j
  let (_, t) ← splitAt? p i
  some t

/-- The text from a boundary on. -/
def sliceFrom? (s : List Char) (i : Nat) : Option (List Char) := (splitAt? s i).map Prod.snd

section cuts

variable {s t p q : List Char} {i j : Nat}

/-- A text is split where a part of it has the size that is asked for. -/
theorem splitAt?_eq_some_iff : splitAt? s i = some (p, q) ↔ p ++ q = s ∧ size p = i := by
  fun_induction splitAt? s i generalizing p with
  | case1 s =>
    rw [size_eq_zero, Option.some.injEq, Prod.mk.injEq]
    constructor
    · rintro ⟨rfl, rfl⟩
      exact ⟨rfl, rfl⟩
    · rintro ⟨rfl, rfl⟩
      exact ⟨rfl, rfl⟩
  | case2 n =>
    refine ⟨nofun, ?_⟩
    rintro ⟨h, hp⟩
    obtain ⟨rfl, -⟩ := List.append_eq_nil_iff.1 h
    cases hp
  | case3 c s n hle ih =>
    constructor
    · intro h
      obtain ⟨⟨p', q'⟩, hsplit, hpair⟩ := Option.map_eq_some_iff.1 h
      obtain ⟨rfl, rfl⟩ := Prod.mk.inj hpair
      obtain ⟨rfl, hp⟩ := ih.1 hsplit
      exact ⟨rfl, by rw [size_cons, hp]; omega⟩
    · rintro ⟨h, hp⟩
      cases p with
      | nil => cases hp
      | cons d p =>
        obtain ⟨rfl, rfl⟩ := List.cons.inj h
        rw [size_cons] at hp
        rw [ih.2 ⟨rfl, by omega⟩]
        rfl
  | case4 c s n hlt =>
    refine ⟨nofun, ?_⟩
    rintro ⟨h, hp⟩
    cases p with
    | nil => cases hp
    | cons d p =>
      obtain ⟨rfl, rfl⟩ := List.cons.inj h
      rw [size_cons] at hp
      omega

/-- **A slice is what stands between two boundaries.** -/
theorem slice?_eq_some_iff :
    slice? s i j = some t ↔ ∃ p q, p ++ t ++ q = s ∧ size p = i ∧ size (p ++ t) = j := by
  simp only [slice?, bind, Option.bind_eq_some_iff, Prod.exists, splitAt?_eq_some_iff,
    Option.some.injEq]
  constructor
  · rintro ⟨_, q, ⟨rfl, rfl⟩, p, t, ⟨rfl, rfl⟩, rfl⟩
    exact ⟨p, q, rfl, rfl, rfl⟩
  · rintro ⟨p, q, rfl, rfl, rfl⟩
    exact ⟨p ++ t, q, ⟨rfl, rfl⟩, p, t, ⟨rfl, rfl⟩, rfl⟩

/-- What is cut from an offset on is what follows a part of that size. -/
theorem sliceFrom?_eq_some_iff : sliceFrom? s i = some t ↔ ∃ p, p ++ t = s ∧ size p = i := by
  simp [sliceFrom?, splitAt?_eq_some_iff]

/-- The middle of three parts is cut out at the sizes of what is in front of it and of what is up to
its end. -/
theorem slice?_append (p t q : List Char) :
    slice? (p ++ (t ++ q)) (size p) (size (p ++ t)) = some t :=
  slice?_eq_some_iff.2 ⟨p, q, List.append_assoc p t q, rfl, rfl⟩

/-- What is appended is cut off at the size of what it is appended to. -/
theorem sliceFrom?_append (p t : List Char) : sliceFrom? (p ++ t) (size p) = some t :=
  sliceFrom?_eq_some_iff.2 ⟨p, rfl, rfl⟩

/-- Boundaries in order can be cut at. -/
theorem slice?_of_boundary (hi : IsBoundary s i) (hj : IsBoundary s j) (hij : i ≤ j) :
    ∃ t, slice? s i j = some t := by
  obtain ⟨p, q, rfl, rfl⟩ := hi
  obtain ⟨p', q', h, rfl⟩ := hj
  rcases List.append_eq_append_iff.1 h with ⟨t, rfl, rfl⟩ | ⟨t, rfl, rfl⟩
  · -- the second boundary is not behind the first, so nothing is in between
    obtain rfl : t = [] := by
      rw [← size_eq_zero]
      rw [size_append] at hij
      omega
    exact ⟨[], slice?_eq_some_iff.2 ⟨p', q, by simp, by simp, by simp⟩⟩
  · exact ⟨t, slice?_eq_some_iff.2 ⟨p, q', by simp, rfl, rfl⟩⟩

/-- At a boundary a text can be cut. -/
theorem sliceFrom?_of_boundary (hi : IsBoundary s i) : ∃ t, sliceFrom? s i = some t := by
  obtain ⟨p, q, rfl, rfl⟩ := hi
  exact ⟨q, sliceFrom?_eq_some_iff.2 ⟨p, rfl, rfl⟩⟩

end cuts

end Pane.Text
