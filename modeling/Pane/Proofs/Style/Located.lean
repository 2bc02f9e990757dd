import Mathlib.Algebra.Group.Nat.Defs
import Pane.Proofs.Style.CanonicalText
import Pane.Proofs.Style.Sliced

/-!
# What is found in place

A search steps over the byte behind a backslash, and then meets whatever bytes are left of the
character there.  These are high bytes, at which nothing happens, so the search goes on behind the
character just as the standing of characters does.  It finds the offset at which the text is cut, as
long as depths do not wrap around, and the readers that slice there read what is read from the
characters.

**Searches.**  **`search_char`** — a search passes a character, or it ends there.  `cutAt?` — a text
cut where `step` ends, with depths that have no bound.  `Counts` — that thirty-two bits count alike.
**`search_eq`** — a search finds the offset of the cut.

**Cuts.**  `cutTopLevel_eq`, **`outline_eq`** — parts and outlines are made of cuts.

**Readers.**  **`splitTopLevel?_eq`**, `declarationsFrom?_eq`, `selectorsFrom?_eq` — parts.
`ReadInPlace`, with one lemma for each way a text may begin, and **`readInPlace`** — items.
-/

namespace Pane.Style

open Text (bytes size slice? sliceFrom? getElem?_bytes_ascii getElem?_bytes_high
  getElem?_bytes_of_le)

/-! ## Passing characters -/

namespace Quoting

/-- The quote of the string that a search is in. -/
def quote? : Quoting → Option UInt8
  | .plain | .escaped => none
  | .quoted q | .quotedEscaped q => some q.toUInt8

/-- The bytes that are stepped over without a look. -/
def pending : Quoting → Nat
  | .plain | .quoted _ => 0
  | .escaped | .quotedEscaped _ => 1

/-- The depth behind a character, unless a search ends there. -/
def depth? {δ : Type} (step : δ → Char → Option δ) (quoting : Quoting) (n : δ) (c : Char) :
    Option δ :=
  if quoting = .plain ∧ quoting.next c = .plain then step n c else some n

/-- What is pending of a character is no more than its bytes. -/
theorem pending_le (quoting : Quoting) (c : Char) : quoting.pending ≤ c.utf8Size := by
  have hpos := c.utf8Size_pos
  cases quoting <;> simp only [pending] <;> omega

theorem proper_plain : Quoting.plain.Proper := trivial

/-- A string opens with a single byte. -/
theorem Proper.ascii {quoting : Quoting} (h : quoting.Proper) :
    ∀ q ∈ quoting.quote?, q.toNat < 128 := by
  have hquotes : ∀ q : Char, q = '"' ∨ q = '\'' → q.toUInt8.toNat < 128 := by
    rintro q (rfl | rfl) <;> decide
  intro q hq
  cases quoting with
  | plain => cases hq
  | escaped => cases hq
  | quoted quote => exact Option.some.inj hq ▸ hquotes quote h
  | quotedEscaped quote => exact Option.some.inj hq ▸ hquotes quote h

/-- A character that is not ASCII completes an escape and does nothing else. -/
theorem Proper.next_high {quoting : Quoting} (h : quoting.Proper) {c : Char} (hc : 128 ≤ c.toNat) :
    (quoting.next c).quote? = quoting.quote? ∧ (quoting.next c).pending = 0 := by
  have hbackslash : c ≠ '\\' := Text.ne_of_high hc (by decide)
  have hdouble : c ≠ '"' := Text.ne_of_high hc (by decide)
  have hsingle : c ≠ '\'' := Text.ne_of_high hc (by decide)
  cases quoting with
  | plain => simp [next, hbackslash, hdouble, hsingle, quote?, pending]
  | escaped => exact ⟨rfl, rfl⟩
  | quoted q =>
    rcases h with rfl | rfl <;> simp [next, hbackslash, hdouble, hsingle, quote?, pending]
  | quotedEscaped q => exact ⟨rfl, rfl⟩

end Quoting

section passing

variable {step : Int32 → Char → Option Int32} {bs : List UInt8} {quote : Option UInt8} {n : Int32}
  {i : Nat}

/-- The search ends with the text. -/
theorem search_of_none (h : bs[i]? = none) : search step bs quote n i = none := by
  rw [search]
  split
  · rfl
  · next b hb => cases h.symm.trans hb

/-- One step of the search: a backslash passes over a byte, a quote closes or opens a string, and
what is neither is counted. -/
theorem search_of_some {b : UInt8} (h : bs[i]? = some b) : search step bs quote n i =
    if Char.ofUInt8 b = '\\' then search step bs quote n (i + 2)
    else match quote with
      | some q => search step bs (if b = q then none else quote) n (i + 1)
      | none =>
        if Char.ofUInt8 b = '"' ∨ Char.ofUInt8 b = '\'' then search step bs (some b) n (i + 1)
        else match step n (Char.ofUInt8 b) with
          | none => some i
          | some n => search step bs none n (i + 1) := by
  rw [search]
  split
  · next hb => cases h.symm.trans hb
  · next b' hb =>
    obtain rfl := Option.some.inj (h.symm.trans hb)
    rfl

/-- A high byte is passed, in a string and outside. -/
theorem search_high {b : UInt8} (hb : bs[i]? = some b) (hhigh : 128 ≤ b.toNat)
    (hstep : ∀ n c, 128 ≤ c.toNat → step n c = some n) (hquote : ∀ q ∈ quote, q.toNat < 128) :
    search step bs quote n i = search step bs quote n (i + 1) := by
  have hother : ∀ c : Char, c.toNat < 128 → Char.ofUInt8 b ≠ c := fun c => Text.ne_of_high hhigh
  rw [search_of_some hb, if_neg (hother '\\' (by decide))]
  cases quote with
  | none =>
    dsimp only
    rw [if_neg (not_or.2 ⟨hother '"' (by decide), hother '\'' (by decide)⟩),
      hstep n (Char.ofUInt8 b) hhigh]
  | some q =>
    have hq : b ≠ q := by
      rintro rfl
      exact absurd (hquote b rfl) (Nat.not_lt.2 hhigh)
    dsimp only
    rw [if_neg hq]

/-- **A search passes a character**, or it ends there. -/
theorem search_char (hstep : ∀ n c, 128 ≤ c.toNat → step n c = some n) {quoting : Quoting}
    (hproper : quoting.Proper) (n : Int32) (p : List Char) (c : Char) (s : List Char) :
    search step (bytes (p ++ c :: s)) quoting.quote? n (size p + quoting.pending) =
      match quoting.depth? step n c with
      | none => some (size p)
      | some m => search step (bytes (p ++ c :: s)) (quoting.next c).quote? m
          (size (p ++ [c]) + (quoting.next c).pending) := by
  have hsize : size (p ++ [c]) = size p + c.utf8Size := by simp
  by_cases hc : c.toNat < 128
  · have hbyte := getElem?_bytes_ascii hc p s
    have hchar := Text.ofUInt8_toUInt8 hc
    rw [hsize, Text.utf8Size_ascii hc]
    cases quoting with
    | plain =>
      rw [Quoting.pending, Nat.add_zero, search_of_some hbyte, hchar]
      by_cases hbackslash : c = '\\'
      · rw [if_pos hbackslash]
        simp [Quoting.depth?, Quoting.next, hbackslash, Quoting.quote?, Quoting.pending]
      · rw [if_neg hbackslash]
        by_cases hquote : c = '"' ∨ c = '\''
        · simp [Quoting.depth?, Quoting.next, hbackslash, hquote, Quoting.quote?, Quoting.pending]
        · simp [Quoting.depth?, Quoting.next, hbackslash, hquote, Quoting.quote?, Quoting.pending]
    | escaped => rfl
    | quoted q =>
      rw [Quoting.pending, Nat.add_zero, search_of_some hbyte, hchar]
      by_cases hbackslash : c = '\\'
      · rw [if_pos hbackslash]
        simp [Quoting.depth?, Quoting.next, hbackslash, Quoting.quote?, Quoting.pending]
      · have hsame : c.toUInt8 = q.toUInt8 ↔ c = q :=
          Text.toUInt8_inj hc (by rcases hproper with rfl | rfl <;> decide)
        by_cases hq : c = q
        · subst hq
          simp [Quoting.depth?, Quoting.next, hbackslash, Quoting.quote?, Quoting.pending]
        · simp [Quoting.depth?, Quoting.next, hbackslash, hsame, hq, Quoting.quote?,
            Quoting.pending]
    | quotedEscaped q => rfl
  · have hhigh := Nat.not_lt.1 hc
    have hdepth : quoting.depth? step n c = some n := by
      rw [Quoting.depth?, hstep n c hhigh, ite_self]
    obtain ⟨hquote, hpending⟩ := hproper.next_high hhigh
    rw [hdepth, hquote, hpending, Nat.add_zero]
    exact Text.eq_behind_high (f := search step (bytes (p ++ c :: s)) quoting.quote? n) hc
      (fun i b hb hhigh => search_high hb hhigh hstep hproper.ascii) (quoting.pending_le c)

end passing

/-! ## Searches without a bound -/

/-- What stands in front of the first bare character at which `step` ends, and what starts with it;
depths are counted without a bound. -/
def cutAt? (step : Int → Char → Option Int) :
    Quoting → Int → List Char → Option (List Char × List Char)
  | _, _, [] => none
  | quoting, n, c :: s =>
    match quoting.depth? step n c with
    | none => some ([], c :: s)
    | some n => (cutAt? step (quoting.next c) n s).map fun (front, rest) => (c :: front, rest)

/-- One way to count depths in thirty-two bits and one without a bound: they agree while there is
room, a character counts for one at most, and only ASCII counts. -/
structure Counts (step : Int32 → Char → Option Int32) (step' : Int → Char → Option Int) : Prop where
  agree : ∀ n c, n.toInt.natAbs + 1 < 2 ^ 31 → (step n c).map Int32.toInt = step' n.toInt c
  grow : ∀ {n m} c, step' n c = some m → m.natAbs ≤ n.natAbs + 1
  high : ∀ n c, 128 ≤ c.toNat → step n c = some n

/-- The depth in thirty-two bits is the depth as long as there is room for one more. -/
theorem Counts.depth? {step : Int32 → Char → Option Int32} {step' : Int → Char → Option Int}
    (h : Counts step step') (quoting : Quoting) {n : Int32} (c : Char)
    (hroom : n.toInt.natAbs + 1 < 2 ^ 31) :
    (quoting.depth? step n c).map Int32.toInt = quoting.depth? step' n.toInt c := by
  rw [Quoting.depth?, Quoting.depth?]
  split
  · exact h.agree n c hroom
  · rfl

/-- The depth changes by one at most. -/
theorem Counts.grow_depth? {step : Int32 → Char → Option Int32} {step' : Int → Char → Option Int}
    (h : Counts step step') {quoting : Quoting} {n m : Int} {c : Char}
    (hm : quoting.depth? step' n c = some m) : m.natAbs ≤ n.natAbs + 1 := by
  rw [Quoting.depth?] at hm
  split at hm
  · exact h.grow c hm
  · cases hm
    exact Nat.le_succ _

/-- **A search finds the offset of the cut**, if the text is too short for depths to wrap around. -/
theorem search_eq {step : Int32 → Char → Option Int32} {step' : Int → Char → Option Int}
    (h : Counts step step') {quoting : Quoting} (hproper : quoting.Proper) (n : Int32)
    (p s : List Char) (hroom : n.toInt.natAbs + size s < 2 ^ 31) :
    search step (bytes (p ++ s)) quoting.quote? n (size p + quoting.pending) =
      (cutAt? step' quoting n.toInt s).map fun (front, _) => size (p ++ front) := by
  induction s generalizing quoting n p with
  | nil =>
    rw [List.append_nil]
    exact search_of_none (getElem?_bytes_of_le (Nat.le_add_right _ _))
  | cons c s ih =>
    have hpos := c.utf8Size_pos
    rw [Text.size_cons] at hroom
    have hagree := h.depth? quoting (n := n) c (by omega)
    rw [search_char h.high hproper, cutAt?, ← hagree]
    cases hm : quoting.depth? step n c with
    | none => simp
    | some m =>
      rw [hm] at hagree
      have hgrow := h.grow_depth? hagree.symm
      have hnext : (quoting.next c).Proper :=
        Nesting.Proper.next (n := ⟨quoting, 0⟩) hproper c
      have hrest := ih hnext m (p ++ [c]) (by omega)
      rw [List.append_assoc, List.singleton_append] at hrest
      dsimp only [Option.map_some]
      rw [hrest, Option.map_map]
      refine congrArg (Option.map · _) (funext fun ⟨front, rest⟩ => ?_)
      simp [Function.comp]

/-! ## Depths in thirty-two bits -/

section thirtyTwo

variable {n : Int32}

theorem toInt_succ (h : n.toInt.natAbs + 1 < 2 ^ 31) : (n + 1).toInt = n.toInt + 1 := by
  rw [Int32.toInt_add, Int32.toInt_one]
  exact Int.bmod_eq_of_le (by omega) (by omega)

theorem toInt_pred (h : n.toInt.natAbs + 1 < 2 ^ 31) : (n - 1).toInt = n.toInt - 1 := by
  rw [Int32.toInt_sub, Int32.toInt_one]
  exact Int.bmod_eq_of_le (by omega) (by omega)

/-- A depth in thirty-two bits is kept from falling below nought as a number is. -/
theorem toInt_max_zero (n : Int32) : (max n 0).toInt = max n.toInt 0 := by
  show (if n ≤ 0 then (0 : Int32) else n).toInt = max n.toInt 0
  have hle : n ≤ 0 ↔ n.toInt ≤ 0 := Int32.le_iff_toInt_le
  split
  · next h => exact (Int.max_eq_right (hle.1 h)).symm
  · next h => exact (Int.max_eq_left (Int.le_of_lt (Int.not_le.1 fun h' => h (hle.2 h')))).symm

theorem toInt_eq_zero : n.toInt = 0 ↔ n = 0 := Int32.toInt_inj (y := 0)

end thirtyTwo

/-- Brackets are counted in thirty-two bits as they are without a bound. -/
theorem counts_bracketStep {targets : List Char} (htargets : ∀ c ∈ targets, c.toNat < 128) :
    Counts (bracketStep targets) (bracketStep targets) where
  agree n c h := by
    rw [bracketStep, bracketStep]
    simp only [toInt_eq_zero]
    split_ifs
    · exact congrArg some (toInt_succ h)
    · rw [Option.map_some, toInt_max_zero, toInt_pred h]
    · rfl
    · rfl
  grow c hm := by
    rw [bracketStep] at hm
    split_ifs at hm <;> cases hm <;> omega
  high n c hc := by
    have hother : ∀ d : Char, d.toNat < 128 → c ≠ d := fun d => Text.ne_of_high hc
    rw [bracketStep, if_neg, if_neg, if_neg]
    · exact fun h => absurd (htargets c h.2) (Nat.not_lt.2 hc)
    · exact not_or.2 ⟨hother ')' (by decide), hother ']' (by decide)⟩
    · exact not_or.2 ⟨hother '(' (by decide), hother '[' (by decide)⟩

/-- So are braces. -/
theorem counts_braceStep : Counts braceStep braceStep where
  agree n c h := by
    rw [braceStep, braceStep, ← toInt_pred h]
    simp only [toInt_eq_zero]
    split_ifs
    · exact congrArg some (toInt_succ h)
    · rfl
    · rfl
    · rfl
  grow c hm := by
    rw [braceStep] at hm
    split_ifs at hm <;> cases hm <;> omega
  high n c hc := by
    have hother : ∀ d : Char, d.toNat < 128 → c ≠ d := fun d => Text.ne_of_high hc
    rw [braceStep, if_neg (hother '{' (by decide)), if_neg (hother '}' (by decide))]

/-! ## Cuts of a text -/

section cuts

variable {s : List Char}

/-- What a cut leaves is the text from a bare character on. -/
theorem of_cutAt?_eq_some {step : Int → Char → Option Int} {quoting : Quoting} {n : Int}
    {front rest : List Char} (h : cutAt? step quoting n s = some (front, rest)) :
    ∃ c behind m, rest = c :: behind ∧ s = front ++ c :: behind ∧ step m c = none := by
  induction s generalizing quoting n front with
  | nil => cases h
  | cons c s ih =>
    rw [cutAt?] at h
    cases hm : quoting.depth? step n c with
    | none =>
      rw [hm] at h
      cases h
      rw [Quoting.depth?] at hm
      split at hm
      · exact ⟨c, s, n, rfl, rfl, hm⟩
      · cases hm
    | some m =>
      rw [hm] at h
      obtain ⟨⟨front', rest'⟩, hcut, hpair⟩ := Option.map_eq_some_iff.1 h
      obtain ⟨rfl, rfl⟩ := Prod.mk.inj hpair
      obtain ⟨d, behind, m, rfl, rfl, hstep⟩ := ih hcut
      exact ⟨d, behind, m, rfl, rfl, hstep⟩

/-- The depth of brackets is that of the standing. -/
theorem depth?_bracketStep {targets : List Char} (htargets : ∀ c ∈ targets, c ∉ Nesting.marks)
    (n : Nesting) (c : Char) : n.quoting.depth? (bracketStep targets) (n.depth : Int) c =
      if n = .top ∧ c ∈ targets then none else some ((n.next c).depth : Int) := by
  obtain ⟨quoting, depth⟩ := n
  have hmark : c ∈ Nesting.marks → c ∉ targets := fun hc htarget => htargets c htarget hc
  cases quoting with
  | plain =>
    have htop : (⟨.plain, depth⟩ : Nesting) = .top ↔ (depth : Int) = 0 := by
      simp [Nesting.top]
    have hplain : Quoting.plain.next c = .plain ↔ ¬(c = '\\' ∨ c = '"' ∨ c = '\'') := by
      by_cases hbackslash : c = '\\'
      · simp [Quoting.next, hbackslash]
      · by_cases hquote : c = '"' ∨ c = '\'' <;> simp [Quoting.next, hbackslash, hquote]
    by_cases hspecial : c = '\\' ∨ c = '"' ∨ c = '\''
    · have htarget : c ∉ targets := hmark (by rcases hspecial with rfl | rfl | rfl <;> decide)
      have hbracket : ¬(c = '(' ∨ c = '[') ∧ ¬(c = ')' ∨ c = ']') := by
        rcases hspecial with rfl | rfl | rfl <;> decide
      simp only [Quoting.depth?, hplain, hspecial, htarget, Nesting.next, Bool.or_eq_true,
        decide_eq_true_eq, hbracket, not_true, and_false, if_false, ite_self]
    · simp only [Quoting.depth?, hplain, hspecial, not_false_eq_true, and_self, if_true,
        bracketStep, htop, Nesting.next, Bool.or_eq_true, decide_eq_true_eq]
      by_cases hopen : c = '(' ∨ c = '['
      · have htarget : c ∉ targets := hmark (by rcases hopen with rfl | rfl <;> decide)
        simp [hopen, htarget]
      · by_cases hclose : c = ')' ∨ c = ']'
        · have htarget : c ∉ targets := hmark (by rcases hclose with rfl | rfl <;> decide)
          have hdepth : max ((depth : Int) - 1) 0 = ((depth - 1 : Nat) : Int) := by omega
          simp only [hopen, hclose, htarget, hdepth, and_false, if_true, if_false]
        · simp only [hopen, hclose, if_false]
  | escaped => simp [Quoting.depth?, Nesting.top, Nesting.next]
  | quoted q => simp [Quoting.depth?, Nesting.top, Nesting.next]
  | quotedEscaped q => simp [Quoting.depth?, Nesting.top, Nesting.next]

/-- Cutting at separators is a cut at the first one, and so on behind it. -/
theorem cutFrom_eq {separator : Char} (hseparator : separator ∉ Nesting.marks) (n : Nesting)
    (s : List Char) : cutFrom separator n s =
      (cutAt? (bracketStep [separator]) n.quoting n.depth s).elim (s, [])
        fun (front, rest) => (front, cutTopLevel separator rest.tail) := by
  have htargets : ∀ c ∈ [separator], c ∉ Nesting.marks := List.forall_mem_singleton.2 hseparator
  induction s generalizing n with
  | nil => rfl
  | cons c s ih =>
    have hquoting : n.quoting.next c = (n.next c).quoting := rfl
    rw [cutFrom, cutAt?, depth?_bracketStep htargets]
    simp only [List.mem_singleton]
    by_cases hcut : n = .top ∧ c = separator
    · rw [if_pos hcut, if_pos hcut]
      rfl
    · rw [if_neg hcut, if_neg hcut, ih (n.next c), hquoting]
      dsimp only
      cases cutAt? (bracketStep [separator]) (n.next c).quoting (n.next c).depth s <;> rfl

/-- Cutting a text is cutting its first piece off, and then the rest. -/
theorem cutTopLevel_eq {separator : Char} (hseparator : separator ∉ Nesting.marks) (s : List Char) :
    cutTopLevel separator s = (cutAt? (bracketStep [separator]) .plain 0 s).elim [s]
      fun (front, rest) => front :: cutTopLevel separator rest.tail := by
  have hcut := cutFrom_eq hseparator .top s
  show (cutFrom separator .top s).1 :: (cutFrom separator .top s).2 = _
  rw [hcut]
  show _ = (cutAt? (bracketStep [separator]) Nesting.top.quoting Nesting.top.depth s).elim _ _
  cases cutAt? (bracketStep [separator]) Nesting.top.quoting Nesting.top.depth s <;> rfl

/-- One more brace is open than within the block. -/
theorem depth?_braceStep (quoting : Quoting) (n : Nat) (c : Char) :
    quoting.depth? braceStep ((n : Int) + 1) c =
      if quoting = .plain ∧ c = '}' then if n = 0 then none else some (n : Int)
      else if quoting = .plain ∧ c = '{' then some ((n : Int) + 1 + 1)
      else some ((n : Int) + 1) := by
  cases quoting with
  | plain =>
    by_cases hclose : c = '}'
    · subst hclose
      simp [Quoting.depth?, Quoting.next, braceStep]
    · by_cases hopen : c = '{'
      · subst hopen
        simp [Quoting.depth?, Quoting.next, braceStep]
      · simp [Quoting.depth?, braceStep, hclose, hopen]
  | escaped => simp [Quoting.depth?]
  | quoted q => simp [Quoting.depth?]
  | quotedEscaped q => simp [Quoting.depth?]

/-- The body of a block is cut off, and the outline goes on behind it. -/
theorem outlineFrom_inBody (prelude seen : List Char) (quoting : Quoting) (n : Nat)
    (s : List Char) : outlineFrom (.inBody prelude seen quoting n) s =
      (cutAt? braceStep quoting ((n : Int) + 1) s).elim []
        fun (body, rest) => .block prelude (seen.reverse ++ body) :: outline rest.tail := by
  induction s generalizing seen quoting n with
  | nil => rfl
  | cons c s ih =>
    rw [outlineFrom, Reading.next.eq_def, cutAt?, depth?_braceStep]
    dsimp only
    by_cases hclose : quoting = .plain ∧ c = '}'
    · rw [if_pos hclose, if_pos hclose]
      cases n with
      | zero => simp [outline, Reading.start]
      | succ n =>
        rw [if_neg (Nat.succ_ne_zero n)]
        dsimp only
        rw [ih, Option.elim_map, Int.natCast_succ]
        simp [Function.comp_def]
    · rw [if_neg hclose, if_neg hclose]
      by_cases hopen : quoting = .plain ∧ c = '{'
      · rw [if_pos hopen, if_pos hopen]
        dsimp only
        rw [ih, Option.elim_map, Int.natCast_succ]
        simp [Function.comp_def]
      · rw [if_neg hopen, if_neg hopen]
        dsimp only
        rw [ih, Option.elim_map]
        simp [Function.comp_def]

/-- A prelude is cut off, and the statement ends there or the block begins. -/
theorem outlineFrom_inPrelude (seen : List Char) (n : Nesting) (s : List Char) :
    outlineFrom (.inPrelude seen n) s =
      (cutAt? (bracketStep ['{', ';']) n.quoting n.depth s).elim [] fun (front, rest) =>
        if rest.head? = some ';' then
          .statement (Text.trim (seen.reverse ++ front)) :: outline rest.tail
        else outlineFrom (.inBody (Text.trim (seen.reverse ++ front)) [] .plain 0) rest.tail := by
  have htargets : ∀ c ∈ ['{', ';'], c ∉ Nesting.marks := by simp [Nesting.marks]
  induction s generalizing seen n with
  | nil => rfl
  | cons c s ih =>
    have hquoting : n.quoting.next c = (n.next c).quoting := rfl
    rw [outlineFrom, Reading.next, cutAt?, depth?_bracketStep htargets, hquoting]
    simp only [List.mem_cons, List.not_mem_nil, or_false]
    by_cases hsemicolon : n = .top ∧ c = ';'
    · obtain ⟨rfl, rfl⟩ := hsemicolon
      simp [outline]
    · rw [if_neg hsemicolon]
      by_cases hopen : n = .top ∧ c = '{'
      · obtain ⟨rfl, rfl⟩ := hopen
        simp
      · have hcut : ¬(n = .top ∧ (c = '{' ∨ c = ';')) := by
          rintro ⟨htop, hc | hc⟩
          · exact hopen ⟨htop, hc⟩
          · exact hsemicolon ⟨htop, hc⟩
        rw [if_neg hopen, if_neg hcut]
        dsimp only
        rw [ih (c :: seen) (n.next c), Option.elim_map]
        simp [Function.comp_def]

/-- **An outline is made of cuts.** -/
theorem outline_eq (s : List Char) : outline s =
    (cutAt? (bracketStep ['{', ';']) .plain 0 s).elim [] fun (front, rest) =>
      if rest.head? = some ';' then .statement (Text.trim front) :: outline rest.tail
      else (cutAt? braceStep .plain 1 rest.tail).elim [] fun (body, rest) =>
        .block (Text.trim front) body :: outline rest.tail := by
  rw [outline, Reading.start, outlineFrom_inPrelude]
  simp only [outlineFrom_inBody]
  rfl

/-- Text without a block and without an end is not outlined. -/
theorem outline_of_none {s : List Char} (hcut : cutAt? (bracketStep ['{', ';']) .plain 0 s = none) :
    outline s = [] := by
  rw [outline_eq, hcut]
  rfl

/-- The first piece of an outline ends at the first brace or semicolon; a block goes on to the brace
that closes it. -/
theorem outline_of_some {s front behind : List Char} {c : Char}
    (hcut : cutAt? (bracketStep ['{', ';']) .plain 0 s = some (front, c :: behind)) : outline s =
      if c = ';' then .statement (Text.trim front) :: outline behind
      else (cutAt? braceStep .plain 1 behind).elim [] fun (body, rest) =>
        .block (Text.trim front) body :: outline rest.tail := by
  rw [outline_eq, hcut, Option.elim_some]
  simp only [List.head?_cons, Option.some.injEq, List.tail_cons]

end cuts

/-! ## Readers -/

section finding

variable {targets : List Char} {p s : List Char}

/-- A target is found where the text is cut. -/
theorem findTopLevel_eq (htargets : ∀ c ∈ targets, c.toNat < 128) (p : List Char)
    (hroom : size s < 2 ^ 31) : findTopLevel (p ++ s) targets (size p) =
      (cutAt? (bracketStep targets) .plain 0 s).map fun (front, _) => size (p ++ front) :=
  search_eq (counts_bracketStep htargets) Quoting.proper_plain 0 p s (by simpa using hroom)

/-- The end of a block is found where its body is cut off. -/
theorem findBlockEnd_eq (p : List Char) (hroom : size ('{' :: s) < 2 ^ 31) :
    findBlockEnd (p ++ '{' :: s) (size p) =
      (cutAt? braceStep .plain 1 s).map fun (body, _) => size (p ++ '{' :: body) := by
  have hsearch := search_eq counts_braceStep Quoting.proper_plain 0 p ('{' :: s)
    (by simpa using hroom)
  refine hsearch.trans ?_
  show ((cutAt? braceStep .plain 1 s).map fun (body, rest) => ('{' :: body, rest)).map _ = _
  rw [Option.map_map]
  rfl

/-- White space is skipped. -/
theorem skipSpaces_eq (p s : List Char) :
    skipSpaces (bytes (p ++ s)) (size p) = size (p ++ s.takeWhile Text.isAsciiSpace) := by
  induction s generalizing p with
  | nil =>
    have hnone : (bytes (p ++ []))[size p]? = none := by
      rw [List.append_nil]
      exact getElem?_bytes_of_le (Nat.le_refl _)
    rw [skipSpaces]
    split
    · rw [List.takeWhile_nil, List.append_nil]
    · next b hb => cases hnone.symm.trans hb
  | cons c s ih =>
    obtain ⟨b, hb, hspace⟩ :=
      Text.exists_byte (fun _ => ascii_of_isAsciiSpace) c.utf8Size_pos p s
    rw [Nat.add_zero] at hb
    rw [skipSpaces]
    split
    · next hnone => cases hb.symm.trans hnone
    · next b' hb' =>
      obtain rfl := Option.some.inj (hb.symm.trans hb')
      rw [hspace]
      cases hc : Text.isAsciiSpace c with
      | true =>
        have hrest := ih (p ++ [c])
        rw [Text.size_concat_ascii (ascii_of_isAsciiSpace hc), List.append_assoc,
          List.singleton_append, List.append_assoc, List.singleton_append] at hrest
        rw [if_pos rfl, hrest, List.takeWhile_cons_of_pos hc]
      | false =>
        rw [if_neg Bool.false_ne_true, List.takeWhile_cons_of_neg (by simp [hc]), List.append_nil]

end finding

section reading

variable {source : List Char}

/-- What has no separator is one piece, from the start on. -/
theorem splitTopLevel?_of_none {separator : Char} {start : Nat}
    (h : findTopLevel source [separator] start = none) :
    splitTopLevel? source separator start = (sliceFrom? source start).map ([·]) := by
  rw [splitTopLevel?]
  split
  · rfl
  · next i hi => cases h.symm.trans hi

/-- What has one is cut there, and goes on behind it. -/
theorem splitTopLevel?_of_some {separator : Char} {start i : Nat}
    (h : findTopLevel source [separator] start = some i) :
    splitTopLevel? source separator start = (slice? source start i).bind fun part =>
      (splitTopLevel? source separator (i + 1)).bind fun parts => some (part :: parts) := by
  rw [splitTopLevel?]
  split
  · next hnone => cases h.symm.trans hnone
  · next j hj =>
    obtain rfl := Option.some.inj (h.symm.trans hj)
    rfl

/-- **The parts are those of the text.**  By induction on what is left of it. -/
theorem splitTopLevel?_eq {separator : Char} (hseparator : separator ∉ Nesting.marks)
    (hascii : separator.toNat < 128) (p : List Char) {s : List Char} (hroom : size s < 2 ^ 31) :
    splitTopLevel? (p ++ s) separator (size p) = some (cutTopLevel separator s) := by
  induction hn : s.length using Nat.strongRecOn generalizing p s with
  | ind n ih =>
    have hfind := findTopLevel_eq (List.forall_mem_singleton.2 hascii) p hroom
    rw [cutTopLevel_eq hseparator]
    cases hcut : cutAt? (bracketStep [separator]) .plain 0 s with
    | none =>
      rw [hcut] at hfind
      rw [splitTopLevel?_of_none hfind, Text.sliceFrom?_append]
      rfl
    | some cut =>
      obtain ⟨front, rest⟩ := cut
      obtain ⟨c, behind, m, rfl, rfl, hstep⟩ := of_cutAt?_eq_some hcut
      obtain rfl : c = separator := List.mem_singleton.1 (mem_of_bracketStep hstep)
      rw [hcut] at hfind
      simp only [Text.size_append, Text.size_cons] at hroom
      rw [List.length_append, List.length_cons] at hn
      have hrest := ih behind.length (by omega) (p ++ front ++ [c]) (by omega) rfl
      have htext : p ++ front ++ [c] ++ behind = p ++ (front ++ c :: behind) := by simp
      rw [Text.size_concat_ascii hascii, htext] at hrest
      rw [splitTopLevel?_of_some hfind, Text.slice?_append, Option.bind_some, hrest]
      rfl

/-- The declarations of a body, read in place. -/
theorem declarationsFrom?_eq {body : List Char} (hroom : size body < 2 ^ 31) :
    declarationsFrom? body = some (readDeclarations body) := by
  have hsemicolon : ';' ∉ Nesting.marks := by decide
  exact congrArg (Option.map _) (splitTopLevel?_eq hsemicolon (by decide) [] hroom)

/-- The selectors of a prelude, read in place. -/
theorem selectorsFrom?_eq {prelude : List Char} (hroom : size prelude < 2 ^ 31) :
    selectorsFrom? prelude = some (readSelectors prelude) := by
  have hcomma : ',' ∉ Nesting.marks := by decide
  exact congrArg (Option.map _) (splitTopLevel?_eq hcomma (by decide) [] hroom)

/-- A piece is read as an item that is a rule exactly if it is read as a rule. -/
theorem rule?_item? (piece : Piece) : piece.item?.bind Item.rule? = piece.rule? := by
  cases piece with
  | statement prelude =>
    rw [Piece.item?, Piece.rule?]
    split <;> rfl
  | block prelude body =>
    rw [Piece.item?]
    split
    · next hat =>
      rw [Piece.rule?, if_pos (.inl hat)]
      split <;> rfl
    · cases (Piece.block prelude body).rule? <;> rfl

/-- The rules within a group are those of its items. -/
theorem filterMap_rule?_readItems (body : List Char) :
    (readItems body).filterMap Item.rule? = (outline body).filterMap Piece.rule? := by
  rw [readItems, List.filterMap_filterMap]
  exact List.filterMap_congr fun piece _ => rule?_item? piece

/-- The item of a block, read in place. -/
theorem blockItem?_eq {prelude body : List Char} (hprelude : size prelude < 2 ^ 31)
    (hbody : size body < 2 ^ 31) :
    blockItem? prelude body (some (readItems body)) = some (Piece.item? (.block prelude body)) := by
  rw [blockItem?, Piece.item?, selectorsFrom?_eq hprelude, declarationsFrom?_eq hbody,
    ← filterMap_rule?_readItems]
  split
  · cases readMinWidth prelude <;> rfl
  · next hat =>
    rw [Piece.rule?]
    split
    · next hnil => rw [if_pos (.inr hnil)]; rfl
    · next hnil => rw [if_neg (not_or.2 ⟨hat, hnil⟩)]; rfl

/-- White space in front of a prelude is no part of it. -/
theorem outline_space {c : Char} (hc : Text.isAsciiSpace c = true) (s : List Char) :
    outline (c :: s) = outline s := by
  have hspace := Text.isSpace_of_isAsciiSpace hc
  have hnext : Reading.start.next c = (.inPrelude [c] .top, none) := by
    simp only [Text.isAsciiSpace, Bool.or_eq_true, decide_eq_true_eq] at hc
    rcases hc with (((rfl | rfl) | rfl) | rfl) | rfl <;> decide
  have htrim : ∀ front, Text.trim ([c].reverse ++ front) = Text.trim ([].reverse ++ front) :=
    fun front => congrArg Text.trimEnd (List.dropWhile_cons_of_pos hspace)
  rw [outline, outlineFrom, hnext, outline, Reading.start, outlineFrom_inPrelude,
    outlineFrom_inPrelude]
  simp only [htrim]
  rfl

/-- Space in front of a sheet is passed over. -/
theorem readItems_dropWhile (s : List Char) :
    readItems (s.dropWhile Text.isAsciiSpace) = readItems s := by
  rw [readItems, readItems]
  refine congrArg (List.filterMap Piece.item?) ?_
  induction s with
  | nil => rfl
  | cons c s ih =>
    cases hc : Text.isAsciiSpace c with
    | true => rw [List.dropWhile_cons_of_pos hc, ih, outline_space hc]
    | false => rw [List.dropWhile_cons_of_neg (by simp [hc])]

/-- One turn of the reader. -/
theorem itemsFrom?_eq_match (source : List Char) (pos : Nat) : itemsFrom? source pos =
    match findTopLevel source ['{', ';'] (skipSpaces (bytes source) pos) with
    | none => some []
    | some i => (slice? source (skipSpaces (bytes source) pos) i).bind fun before =>
      if (bytes source)[i]? = some ';'.toUInt8 then
        (itemsFrom? source (i + 1)).map ((Piece.item? (.statement (Text.trim before))).toList ++ ·)
      else
        match findBlockEnd source i with
        | none => some []
        | some j => (slice? source (i + 1) j).bind fun body =>
          (blockItem? (Text.trim before) body (itemsFrom? body 0)).bind fun item =>
            (itemsFrom? source (j + 1)).bind fun items => some (item.toList ++ items) := by
  rw [itemsFrom?]
  split
  · next hfind => rw [hfind]
  · next i hfind =>
    rw [hfind]
    dsimp only
    cases slice? source (skipSpaces (bytes source) pos) i with
    | none => rfl
    | some before =>
      dsimp only [Option.bind_some]
      split
      · rfl
      · split
        · next hclose => rw [hclose]
        · next j hclose =>
          rw [hclose]
          dsimp only
          split
          · next hbody => rw [hbody]; rfl
          · next body hbody => rw [hbody]; rfl

theorem size_trim_le (s : List Char) : size (Text.trim s) ≤ size s := by
  obtain ⟨l, r, hs, -, -⟩ := Text.exists_trim s
  have hsize := congrArg size hs
  rw [Text.size_append, Text.size_append] at hsize
  omega

theorem filterMap_item?_cons (piece : Piece) (pieces : List Piece) :
    (piece :: pieces).filterMap Piece.item? =
      piece.item?.toList ++ pieces.filterMap Piece.item? := by
  rw [List.filterMap_cons]
  cases piece.item? <;> rfl

/-- A text whose items are read in place, whatever stands in front of it. -/
def ReadInPlace (s : List Char) : Prop :=
  ∀ p, itemsFrom? (p ++ s) (size p) = some (readItems s)

/-- Behind a character that has been read the offset is one further. -/
theorem ReadInPlace.behind {s : List Char} (h : ReadInPlace s) {c : Char} (hc : c.toNat < 128)
    (p : List Char) : itemsFrom? (p ++ c :: s) (size p + 1) = some (readItems s) := by
  have hrest := h (p ++ [c])
  rwa [Text.size_concat_ascii hc, List.append_assoc] at hrest

theorem takeWhile_dropWhile (s : List Char) :
    (s.dropWhile Text.isAsciiSpace).takeWhile Text.isAsciiSpace = [] := by
  cases hdrop : s.dropWhile Text.isAsciiSpace with
  | nil => rfl
  | cons c t => exact List.takeWhile_cons_of_neg (by simp [Text.of_dropWhile_eq_cons hdrop])

/-- White space in front makes no difference. -/
theorem readInPlace_of_dropWhile {s : List Char} (h : ReadInPlace (s.dropWhile Text.isAsciiSpace)) :
    ReadInPlace s := by
  intro p
  have hs := List.takeWhile_append_dropWhile (p := Text.isAsciiSpace) (l := s)
  have hrest := h (p ++ s.takeWhile Text.isAsciiSpace)
  rw [itemsFrom?_eq_match, skipSpaces_eq, takeWhile_dropWhile, List.append_nil, List.append_assoc,
    hs, readItems_dropWhile] at hrest
  rw [itemsFrom?_eq_match, skipSpaces_eq, hrest]

section pieces

variable {front behind : List Char}

/-- What is read at the end of a prelude. -/
theorem itemsFrom?_of_cut {c : Char}
    (hspace : (front ++ c :: behind).takeWhile Text.isAsciiSpace = [])
    (hroom : size (front ++ c :: behind) < 2 ^ 31)
    (hcut : cutAt? (bracketStep ['{', ';']) .plain 0 (front ++ c :: behind) =
      some (front, c :: behind)) (p : List Char) :
    itemsFrom? (p ++ (front ++ c :: behind)) (size p) =
      if c = ';' then (itemsFrom? (p ++ front ++ c :: behind) (size (p ++ front) + 1)).map
        ((Piece.item? (.statement (Text.trim front))).toList ++ ·)
      else match findBlockEnd (p ++ front ++ c :: behind) (size (p ++ front)) with
        | none => some []
        | some j => (slice? (p ++ front ++ c :: behind) (size (p ++ front) + 1) j).bind fun body =>
          (blockItem? (Text.trim front) body (itemsFrom? body 0)).bind fun item =>
            (itemsFrom? (p ++ front ++ c :: behind) (j + 1)).bind fun items =>
              some (item.toList ++ items) := by
  have htargets : ∀ c ∈ ['{', ';'], c.toNat < 128 := by simp
  have hfind := findTopLevel_eq htargets p hroom
  rw [hcut, Option.map_some] at hfind
  have hslice : slice? (p ++ front ++ c :: behind) (size p) (size (p ++ front)) = some front :=
    Text.slice?_eq_some_iff.2 ⟨p, c :: behind, rfl, rfl, rfl⟩
  have hc : c.toNat < 128 := by
    obtain ⟨d, behind', m, heq, -, hstep⟩ := of_cutAt?_eq_some hcut
    obtain ⟨rfl, -⟩ := List.cons.inj heq
    exact htargets c (mem_of_bracketStep hstep)
  have hbyte : (bytes (p ++ front ++ c :: behind))[size (p ++ front)]? = some ';'.toUInt8 ↔
      c = ';' := by
    rw [getElem?_bytes_ascii hc, Option.some.injEq]
    exact Text.toUInt8_inj hc (by decide)
  rw [itemsFrom?_eq_match, skipSpaces_eq, hspace, List.append_nil, hfind, ← List.append_assoc]
  dsimp only
  rw [hslice, Option.bind_some]
  simp only [hbyte]

/-- Nothing is read of a text that is not cut. -/
theorem readInPlace_of_none {s : List Char} (hspace : s.takeWhile Text.isAsciiSpace = [])
    (hroom : size s < 2 ^ 31) (hcut : cutAt? (bracketStep ['{', ';']) .plain 0 s = none) :
    ReadInPlace s := by
  intro p
  have htargets : ∀ c ∈ ['{', ';'], c.toNat < 128 := by simp
  have hfind := findTopLevel_eq htargets p hroom
  rw [hcut] at hfind
  rw [itemsFrom?_eq_match, skipSpaces_eq, hspace, List.append_nil, hfind, readItems,
    outline_of_none hcut]
  rfl

/-- A statement is read, and then what stands behind it. -/
theorem readInPlace_statement
    (hspace : (front ++ ';' :: behind).takeWhile Text.isAsciiSpace = [])
    (hroom : size (front ++ ';' :: behind) < 2 ^ 31)
    (hcut : cutAt? (bracketStep ['{', ';']) .plain 0 (front ++ ';' :: behind) =
      some (front, ';' :: behind)) (hbehind : ReadInPlace behind) :
    ReadInPlace (front ++ ';' :: behind) := by
  intro p
  have houtline := outline_of_some hcut
  rw [if_pos rfl] at houtline
  rw [itemsFrom?_of_cut hspace hroom hcut, if_pos rfl, hbehind.behind (by decide), readItems,
    readItems, houtline, filterMap_item?_cons]
  rfl

/-- Nothing is read from a block on that is not closed. -/
theorem readInPlace_block_of_none
    (hspace : (front ++ '{' :: behind).takeWhile Text.isAsciiSpace = [])
    (hroom : size (front ++ '{' :: behind) < 2 ^ 31)
    (hcut : cutAt? (bracketStep ['{', ';']) .plain 0 (front ++ '{' :: behind) =
      some (front, '{' :: behind)) (hbody : cutAt? braceStep .plain 1 behind = none) :
    ReadInPlace (front ++ '{' :: behind) := by
  intro p
  have hrest : size ('{' :: behind) < 2 ^ 31 := by
    rw [Text.size_append] at hroom
    omega
  have hclose := findBlockEnd_eq (p ++ front) hrest
  have houtline := outline_of_some hcut
  rw [hbody, Option.map_none] at hclose
  rw [if_neg (by decide), hbody] at houtline
  rw [itemsFrom?_of_cut hspace hroom hcut, if_neg (by decide), hclose, readItems, houtline]
  rfl

/-- A block is read, with its body, and then what stands behind it. -/
theorem readInPlace_block {body : List Char}
    (hspace : (front ++ '{' :: (body ++ '}' :: behind)).takeWhile Text.isAsciiSpace = [])
    (hroom : size (front ++ '{' :: (body ++ '}' :: behind)) < 2 ^ 31)
    (hcut : cutAt? (bracketStep ['{', ';']) .plain 0 (front ++ '{' :: (body ++ '}' :: behind)) =
      some (front, '{' :: (body ++ '}' :: behind)))
    (hbody : cutAt? braceStep .plain 1 (body ++ '}' :: behind) = some (body, '}' :: behind))
    (hwithin : ReadInPlace body) (hbehind : ReadInPlace behind) :
    ReadInPlace (front ++ '{' :: (body ++ '}' :: behind)) := by
  intro p
  have hrooms : size front < 2 ^ 31 ∧ size body < 2 ^ 31 ∧
      size ('{' :: (body ++ '}' :: behind)) < 2 ^ 31 := by
    simp only [Text.size_append, Text.size_cons] at hroom ⊢
    omega
  have hclose := findBlockEnd_eq (p ++ front) hrooms.2.2
  have houtline := outline_of_some hcut
  rw [hbody, Option.map_some] at hclose
  rw [if_neg (by decide), hbody, Option.elim_some] at houtline
  have hslice : slice? (p ++ front ++ '{' :: (body ++ '}' :: behind)) (size (p ++ front) + 1)
      (size (p ++ front ++ '{' :: body)) = some body :=
    Text.slice?_eq_some_iff.2 ⟨p ++ front ++ ['{'], '}' :: behind, by simp,
      by simp [Text.utf8Size_ascii, Nat.add_assoc], by simp⟩
  have hitem := blockItem?_eq (Nat.lt_of_le_of_lt (size_trim_le front) hrooms.1) hrooms.2.1
  have hitems : itemsFrom? body 0 = some (readItems body) := hwithin []
  have hrest := hbehind.behind (c := '}') (by decide) (p ++ front ++ '{' :: body)
  rw [List.append_assoc, List.cons_append] at hrest
  rw [itemsFrom?_of_cut hspace hroom hcut, if_neg (by decide), hclose]
  dsimp only
  rw [hslice, Option.bind_some, hitems, hitem, Option.bind_some, hrest, Option.bind_some, readItems,
    readItems, houtline, filterMap_item?_cons]
  rfl

end pieces

/-- **The items are those of the text**, and so are those of every body within.  By induction on
what is left of the text. -/
theorem readInPlace {s : List Char} (hroom : size s < 2 ^ 31) : ReadInPlace s := by
  induction hn : s.length using Nat.strongRecOn generalizing s with
  | ind n ih =>
    have hs := List.takeWhile_append_dropWhile (p := Text.isAsciiSpace) (l := s)
    refine readInPlace_of_dropWhile ?_
    obtain ⟨t, ht⟩ : ∃ t, s.dropWhile Text.isAsciiSpace = t := ⟨_, rfl⟩
    have hspace : t.takeWhile Text.isAsciiSpace = [] := ht ▸ takeWhile_dropWhile s
    rw [← hs, ht, Text.size_append] at hroom
    rw [← hs, ht, List.length_append] at hn
    rw [ht]
    have hroom' : size t < 2 ^ 31 := by omega
    cases hcut : cutAt? (bracketStep ['{', ';']) .plain 0 t with
    | none => exact readInPlace_of_none hspace hroom' hcut
    | some cut =>
      obtain ⟨front, rest⟩ := cut
      obtain ⟨c, behind, m, rfl, rfl, hstep⟩ := of_cutAt?_eq_some hcut
      simp only [Text.size_append, Text.size_cons] at hroom
      simp only [List.length_append, List.length_cons] at hn
      rcases List.mem_cons.1 (mem_of_bracketStep hstep) with rfl | hmem
      · cases hbody : cutAt? braceStep .plain 1 behind with
        | none => exact readInPlace_block_of_none hspace hroom' hcut hbody
        | some cut =>
          obtain ⟨body, rest⟩ := cut
          obtain ⟨d, behind, m, rfl, rfl, hstep⟩ := of_cutAt?_eq_some hbody
          obtain rfl := eq_of_braceStep hstep
          simp only [Text.size_append, Text.size_cons] at hroom
          simp only [List.length_append, List.length_cons] at hn
          exact readInPlace_block hspace hroom' hcut hbody
            (ih body.length (by omega) (by omega) rfl) (ih behind.length (by omega) (by omega) rfl)
      · obtain rfl := List.mem_singleton.1 hmem
        exact readInPlace_statement hspace hroom' hcut
          (ih behind.length (by omega) (by omega) rfl)

end reading

end Pane.Style
