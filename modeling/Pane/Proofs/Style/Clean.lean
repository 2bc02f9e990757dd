import Mathlib.Data.List.Chain
import Mathlib.Data.List.Infix
import Pane.Proofs.Text.Cuts
import Pane.Style.Sheet.Reader

/-!
# Clean style text

A text is clean if it can be put between braces or in front of them without changing what these
mean: it has no brace and no backslash, begins no comment, and closes every string and bracket that
it opens.  The block of a rule that is clean is read as clean declarations, and written down in
their canonical form these are read as themselves.

**Comments.**  `Uncommented` — no comment begins; **`stripFrom_eq_self`** — then nothing is taken
out.

**Cutting.**  `Undivided` — a separator that counts is nowhere in a text.  **`cutFrom_append`**:
such a text stays whole in front of any other; **`cutTopLevel_joinChars`**: texts of this kind, put
together with the separator, are the parts that are cut.

**Thinning.**  `Thinned` — some spaces left out and some letters in lower case; **`Thinned.scan`** —
this makes no difference to what is cut.

**Declarations.**  `CleanText`, `Declaration.Clean`; **`clean_readDeclarations`** — those of a clean
block are clean; `cleanText_declarationChars` — clean declarations are written as clean text.
-/

namespace Pane.Style

/-! ## Comments -/

/-- A text in which no comment begins. -/
def Uncommented (s : List Char) : Prop := s.IsChain fun c d => ¬(c = '/' ∧ d = '*')

/-- No comment begins in a text exactly if it holds none of their marks. -/
theorem uncommented_iff {s : List Char} : Uncommented s ↔ ¬"/*".toList <:+: s := by
  rw [Uncommented, List.isChain_iff_forall_rel_of_append_cons_cons]
  constructor
  · rintro h ⟨front, back, rfl⟩
    have hsplit : front ++ "/*".toList ++ back = front ++ '/' :: '*' :: back := by simp
    exact h hsplit ⟨rfl, rfl⟩
  · rintro h c d front back rfl ⟨rfl, rfl⟩
    exact h ⟨front, back, by simp⟩

theorem uncommented_cons {c : Char} {s : List Char} (hc : c ≠ '/') (hs : Uncommented s) :
    Uncommented (c :: s) :=
  List.isChain_cons.2 ⟨fun _ _ h => hc h.1, hs⟩

theorem uncommented_append {s t : List Char} (hs : '/' ∉ s) (ht : Uncommented t) :
    Uncommented (s ++ t) := by
  induction s with
  | nil => exact ht
  | cons c s ih =>
    rw [List.mem_cons, not_or] at hs
    exact uncommented_cons (Ne.symm hs.1) (ih hs.2)

/-- A part of a text begins no comment that the text does not. -/
theorem Uncommented.part {s part : List Char} (h : Uncommented s) (hpart : part <:+: s) :
    Uncommented part :=
  List.IsChain.infix h hpart

/-- Texts with a character other than a star between them. -/
theorem Uncommented.append_cons {c : Char} {s t : List Char} (hs : Uncommented s) (hc : c ≠ '*')
    (ht : Uncommented (c :: t)) : Uncommented (s ++ c :: t) := by
  refine List.IsChain.append hs ht fun x _ y hy => ?_
  obtain rfl : c = y := by simpa using hy
  exact fun h => hc h.2

/-- **Where no comment begins nothing is taken out.** -/
theorem stripFrom_eq_self {state : CommentState} {s : List Char} (hs : Uncommented s)
    (hstate : state ≠ .comment) : stripFrom state s = s := by
  fun_induction stripFrom state s with
  | case1 => rfl
  | case2 cs ih => exact absurd ⟨rfl, rfl⟩ (List.isChain_cons_cons.1 hs).1
  | case3 c cs _ ih => exact congrArg (c :: ·) (ih hs.tail (by split <;> simp))
  | case4 q c cs ih =>
    refine congrArg (c :: ·) (ih hs.tail ?_)
    split
    · simp
    · split <;> simp
  | case5 q c cs ih => exact congrArg (c :: ·) (ih hs.tail (by simp))
  | case6 => exact absurd rfl hstate
  | case7 => exact absurd rfl hstate

/-! ## Standings -/

namespace Nesting

variable {n : Nesting}

theorem after_cons (n : Nesting) (c : Char) (s : List Char) :
    n.after (c :: s) = (n.next c).after s :=
  rfl

theorem after_append (n : Nesting) (s t : List Char) : n.after (s ++ t) = (n.after s).after t :=
  List.foldl_append ..

/-- A standing behind characters of which none is a backslash: in plain text or in a string. -/
def Steady (n : Nesting) : Prop :=
  n.quoting = .plain ∨ n.quoting = .quoted '"' ∨ n.quoting = .quoted '\''

theorem steady_top : top.Steady := .inl rfl

/-- Without a backslash the standing stays steady. -/
theorem Steady.next (h : n.Steady) {c : Char} (hc : c ≠ '\\') : (n.next c).Steady := by
  have hquoting : (n.next c).quoting = n.quoting.next c := rfl
  rw [Steady, hquoting]
  rcases h with h | h | h
  · rw [h, Quoting.next, if_neg hc]
    split
    · next hq =>
      simp only [Bool.or_eq_true, decide_eq_true_eq] at hq
      rcases hq with rfl | rfl <;> simp
    · exact .inl rfl
  · rw [h, Quoting.next, if_neg hc]
    split <;> simp
  · rw [h, Quoting.next, if_neg hc]
    split <;> simp

theorem Steady.after (h : n.Steady) {s : List Char} (hs : '\\' ∉ s) : (n.after s).Steady := by
  induction s generalizing n with
  | nil => exact h
  | cons c s ih =>
    rw [List.mem_cons, not_or] at hs
    exact ih (h.next (Ne.symm hs.1)) hs.2

/-- The characters that a standing may depend on. -/
def marks : List Char := ['\\', '"', '\'', '(', '[', ')', ']']

/-- No other character changes a steady standing. -/
theorem Steady.next_eq_self (h : n.Steady) {c : Char} (hc : c ∉ marks) : n.next c = n := by
  obtain ⟨quoting, depth⟩ := n
  simp only [marks, List.mem_cons, List.not_mem_nil, or_false, not_or] at hc
  obtain ⟨hback, hdouble, hsingle, hround, hsquare, hround', hsquare'⟩ := hc
  rcases h with rfl | rfl | rfl
  · simp [Nesting.next, Quoting.next, hback, hdouble, hsingle, hround, hsquare, hround', hsquare']
  · simp [Nesting.next, Quoting.next, hback, hdouble]
  · simp [Nesting.next, Quoting.next, hback, hsingle]

/-- Behind characters that change no standing it is what it was. -/
theorem Steady.after_eq_self (h : n.Steady) {s : List Char} (hs : ∀ c ∈ s, c ∉ marks) :
    n.after s = n := by
  induction s with
  | nil => rfl
  | cons c s ih =>
    obtain ⟨hc, hs⟩ := List.forall_mem_cons.1 hs
    rw [after_cons, h.next_eq_self hc, ih hs]

theorem not_mem_marks_of_isSpace {c : Char} (hc : Text.isSpace c = true) : c ∉ marks :=
  Text.not_mem_of_all (by decide) hc

/-- In lower case a character counts as it did. -/
theorem Steady.next_toLower (h : n.Steady) (c : Char) : n.next c.toLower = n.next c := by
  by_cases hc : c.toLower = c
  · rw [hc]
  · -- neither a capital nor the small letter that it becomes is a mark
    have hcapital : 65 ≤ c.toNat ∧ c.toNat ≤ 90 := by
      by_contra hno
      exact hc (Text.toLower_eq_self hno)
    have hnat := Text.toNat_toLower hcapital
    have hmarks : ∀ d : Char, 65 ≤ d.toNat ∧ d.toNat ≤ 90 ∨ 97 ≤ d.toNat ∧ d.toNat ≤ 122 →
        d ∉ marks := fun d hd =>
      Text.not_mem_of_all (p := fun d => decide (65 ≤ d.toNat ∧ d.toNat ≤ 90 ∨
        97 ≤ d.toNat ∧ d.toNat ≤ 122)) (by decide) (decide_eq_true hd)
    rw [h.next_eq_self (hmarks c (.inl hcapital)), h.next_eq_self (hmarks _ (.inr (by omega)))]

end Nesting

/-! ## Cutting -/

/-- A text without a separator that counts, read from a standing. -/
def Undivided (separator : Char) (n : Nesting) (s : List Char) : Prop :=
  (cutFrom separator n s).2 = []

instance (separator : Char) (n : Nesting) (s : List Char) : Decidable (Undivided separator n s) :=
  inferInstanceAs (Decidable (_ = _))

section cutting

variable {separator : Char} {n : Nesting} {s t : List Char}

theorem undivided_cons {c : Char} :
    Undivided separator n (c :: s) ↔
      ¬(n = .top ∧ c = separator) ∧ Undivided separator (n.next c) s := by
  rw [Undivided, cutFrom]
  split
  · next h => simp [h]
  · next h => exact ⟨fun hs => ⟨h, hs⟩, fun hs => hs.2⟩

theorem undivided_of_not_mem (h : separator ∉ s) : Undivided separator n s := by
  induction s generalizing n with
  | nil => rfl
  | cons c s ih =>
    rw [List.mem_cons, not_or] at h
    exact undivided_cons.2 ⟨fun hc => h.1 hc.2.symm, ih h.2⟩

/-- **An undivided text stays whole in front of another.** -/
theorem cutFrom_append (h : Undivided separator n s) (t : List Char) :
    cutFrom separator n (s ++ t) =
      (s ++ (cutFrom separator (n.after s) t).1, (cutFrom separator (n.after s) t).2) := by
  induction s generalizing n with
  | nil => rfl
  | cons c s ih =>
    obtain ⟨hc, hs⟩ := undivided_cons.1 h
    rw [List.cons_append, cutFrom, if_neg hc, ih hs, Nesting.after_cons]
    rfl

/-- A text is undivided exactly if its parts are, each behind the one in front. -/
theorem undivided_append :
    Undivided separator n (s ++ t) ↔
      Undivided separator n s ∧ Undivided separator (n.after s) t := by
  induction s generalizing n with
  | nil => exact ⟨fun h => ⟨rfl, h⟩, fun h => h.2⟩
  | cons c s ih =>
    rw [List.cons_append, undivided_cons, undivided_cons, ih, Nesting.after_cons, and_assoc]

theorem cutTopLevel_eq_singleton (h : Undivided separator .top s) :
    cutTopLevel separator s = [s] := by
  have hcut := cutFrom_append h []
  rw [List.append_nil] at hcut
  simp [cutTopLevel, hcut, cutFrom]

/-- A text that is undivided and closes what it opens is cut off at the separator behind it. -/
theorem cutTopLevel_append (h : Undivided separator .top s) (hclosed : Nesting.top.after s = .top)
    (t : List Char) :
    cutTopLevel separator (s ++ separator :: t) = s :: cutTopLevel separator t := by
  simp [cutTopLevel, cutFrom_append h, hclosed, cutFrom]

/-- **Parts that are put together are cut apart again.** -/
theorem cutTopLevel_joinChars {parts : List (List Char)} (hne : parts ≠ [])
    (h : ∀ part ∈ parts, Undivided separator .top part ∧ Nesting.top.after part = .top) :
    cutTopLevel separator (joinChars [separator] parts) = parts := by
  induction parts with
  | nil => exact absurd rfl hne
  | cons part parts ih =>
    obtain ⟨⟨hpart, hclosed⟩, hparts⟩ := List.forall_mem_cons.1 h
    cases parts with
    | nil => exact cutTopLevel_eq_singleton hpart
    | cons part' parts =>
      rw [joinChars, List.append_assoc, List.singleton_append, cutTopLevel_append hpart hclosed,
        ih (by simp) hparts]

/-- What is joined is a part of the whole. -/
theorem infix_joinChars {separator s : List Char} :
    ∀ {ss : List (List Char)}, s ∈ ss → s <:+: joinChars separator ss
  | [t], h => by
      rw [List.mem_singleton.1 h]
      exact List.infix_rfl
  | t :: t' :: ts, h => by
      rw [joinChars]
      rcases List.mem_cons.1 h with rfl | h
      · rw [List.append_assoc]
        exact (List.prefix_append ..).isInfix
      · exact (infix_joinChars h).trans (List.suffix_append ..).isInfix

/-- The parts of a closed text are undivided and closed. -/
theorem of_mem_cutFrom (hsep : Nesting.top.next separator = .top) (hclosed : n.after s = .top) :
    (Undivided separator n (cutFrom separator n s).1 ∧ n.after (cutFrom separator n s).1 = .top) ∧
      ∀ part ∈ (cutFrom separator n s).2,
        Undivided separator .top part ∧ Nesting.top.after part = .top := by
  induction s generalizing n with
  | nil => exact ⟨⟨rfl, hclosed⟩, fun part h => absurd h List.not_mem_nil⟩
  | cons c s ih =>
    rw [Nesting.after_cons] at hclosed
    rw [cutFrom]
    split
    · next h =>
      obtain ⟨rfl, rfl⟩ := h
      rw [hsep] at hclosed
      obtain ⟨hfirst, hmore⟩ := ih hclosed
      exact ⟨⟨rfl, rfl⟩, List.forall_mem_cons.2 ⟨hfirst, hmore⟩⟩
    · next h =>
      obtain ⟨hfirst, hmore⟩ := ih hclosed
      exact ⟨⟨undivided_cons.2 ⟨h, hfirst.1⟩, hfirst.2⟩, hmore⟩

/-- A closed text is cut into closed pieces that cannot be cut further. -/
theorem of_mem_cutTopLevel (hsep : Nesting.top.next separator = .top)
    (hclosed : Nesting.top.after s = .top) {part : List Char} (h : part ∈ cutTopLevel separator s) :
    Undivided separator .top part ∧ Nesting.top.after part = .top := by
  obtain ⟨hfirst, hmore⟩ := of_mem_cutFrom hsep hclosed
  rcases List.mem_cons.1 h with rfl | h
  · exact hfirst
  · exact hmore part h

end cutting

/-! ## Thinning -/

/-- What is left of a text when some spaces are left out and some letters put in lower case. -/
inductive Thinned : List Char → List Char → Prop where
  | nil : Thinned [] []
  | keep (c : Char) {s t : List Char} (h : Thinned s t) : Thinned (c :: s) (c :: t)
  | lower (c : Char) {s t : List Char} (h : Thinned s t) : Thinned (c :: s) (c.toLower :: t)
  | drop {c : Char} (hc : Text.isSpace c = true) {s t : List Char} (h : Thinned s t) :
      Thinned (c :: s) t

namespace Thinned

theorem refl : ∀ s : List Char, Thinned s s
  | [] => .nil
  | c :: s => .keep c (refl s)

theorem append {s t s' t' : List Char} (h : Thinned s t) (h' : Thinned s' t') :
    Thinned (s ++ s') (t ++ t') := by
  induction h with
  | nil => exact h'
  | keep c _ ih => exact .keep c ih
  | lower c _ ih => exact .lower c ih
  | drop hc _ ih => exact .drop hc ih

theorem of_spaces : ∀ {s : List Char}, (∀ c ∈ s, Text.isSpace c = true) → Thinned s []
  | [], _ => .nil
  | c :: _, h =>
    .drop (h c (List.mem_cons_self ..)) (of_spaces fun d hd => h d (List.mem_cons_of_mem _ hd))

/-- Trimming only takes space away. -/
theorem trim (s : List Char) : Thinned s (Text.trim s) := by
  obtain ⟨l, r, hs, hl, hr⟩ := Text.exists_trim s
  have h := ((of_spaces hl).append (refl (Text.trim s))).append (of_spaces hr)
  rwa [← hs, List.nil_append, List.append_nil] at h

/-- Behind thinning by lower case the rest of a text may be thinned once more. -/
theorem map_toLower {s t : List Char} (h : Thinned s t) : Thinned s (t.map Char.toLower) := by
  induction h with
  | nil => exact .nil
  | keep c _ ih => exact .lower c ih
  | lower c _ ih =>
    rw [List.map_cons, Text.toLower_toLower]
    exact .lower c ih
  | drop hc _ ih => exact .drop hc ih

/-- No character appears that is not a small letter. -/
theorem not_mem {s t : List Char} (h : Thinned s t) {d : Char}
    (hd : ¬(97 ≤ d.toNat ∧ d.toNat ≤ 122)) (hs : d ∉ s) : d ∉ t := by
  induction h with
  | nil => exact hs
  | keep c _ ih =>
    rw [List.mem_cons, not_or] at hs ⊢
    exact ⟨hs.1, ih hs.2⟩
  | lower c _ ih =>
    rw [List.mem_cons, not_or] at hs ⊢
    exact ⟨fun he => hs.1 (Text.eq_of_toLower_eq hd he.symm).symm, ih hs.2⟩
  | drop _ _ ih =>
    rw [List.mem_cons, not_or] at hs
    exact ih hs.2

/-- **Thinning makes no difference to what is cut.** -/
theorem scan {s t : List Char} (h : Thinned s t) (hs : '\\' ∉ s) {n : Nesting} (hn : n.Steady) :
    n.after t = n.after s ∧ (Undivided ';' n s → Undivided ';' n t) := by
  induction h generalizing n with
  | nil => exact ⟨rfl, id⟩
  | keep c _ ih =>
    rw [List.mem_cons, not_or] at hs
    obtain ⟨hafter, hcut⟩ := ih hs.2 (hn.next (Ne.symm hs.1))
    refine ⟨hafter, fun h => ?_⟩
    obtain ⟨hc, h⟩ := undivided_cons.1 h
    exact undivided_cons.2 ⟨hc, hcut h⟩
  | lower c _ ih =>
    rw [List.mem_cons, not_or] at hs
    obtain ⟨hafter, hcut⟩ := ih hs.2 (hn.next (Ne.symm hs.1))
    have hnext := hn.next_toLower c
    refine ⟨by rw [Nesting.after_cons, Nesting.after_cons, hnext, hafter], fun h => ?_⟩
    obtain ⟨hc, h⟩ := undivided_cons.1 h
    refine undivided_cons.2 ⟨fun hl => hc ⟨hl.1, Text.eq_of_toLower_eq (by decide) hl.2⟩, ?_⟩
    rw [hnext]
    exact hcut h
  | drop hc _ ih =>
    rw [List.mem_cons, not_or] at hs
    obtain ⟨hafter, hcut⟩ := ih hs.2 hn
    -- a space that is left out changes no standing outside of escapes
    have hnext := hn.next_eq_self (Nesting.not_mem_marks_of_isSpace hc)
    refine ⟨by rw [Nesting.after_cons, hnext, hafter], fun h => ?_⟩
    obtain ⟨-, h⟩ := undivided_cons.1 h
    rw [hnext] at h
    exact hcut h

end Thinned

/-! ## Clean texts -/

/-- A text without backslashes and braces, in which no comment begins and every string and bracket
that it opens is closed. -/
structure CleanText (s : List Char) : Prop where
  noBackslash : '\\' ∉ s
  noBrace : '{' ∉ s ∧ '}' ∉ s
  noComment : ¬"/*".toList <:+: s
  closed : Nesting.top.after s = .top

/-- The conditions on a clean text, as they are decided. -/
theorem cleanText_iff {s : List Char} : CleanText s ↔
    '\\' ∉ s ∧ ('{' ∉ s ∧ '}' ∉ s) ∧ ¬"/*".toList <:+: s ∧ Nesting.top.after s = .top :=
  ⟨fun h => ⟨h.noBackslash, h.noBrace, h.noComment, h.closed⟩,
    fun ⟨hback, hbrace, hcomment, hclosed⟩ => ⟨hback, hbrace, hcomment, hclosed⟩⟩

instance (s : List Char) : Decidable (CleanText s) := decidable_of_iff _ cleanText_iff.symm

theorem CleanText.uncommented {s : List Char} (h : CleanText s) : Uncommented s :=
  uncommented_iff.2 h.noComment

theorem cleanText_nil : CleanText [] := by
  refine ⟨List.not_mem_nil, ⟨List.not_mem_nil, List.not_mem_nil⟩, ?_, rfl⟩
  exact uncommented_iff.1 List.isChain_nil

/-- Clean texts with a character between them that neither counts nor belongs to a comment. -/
theorem CleanText.append_cons {c : Char} {s t : List Char} (hs : CleanText s) (ht : CleanText t)
    (hc : c ∉ ['\\', '{', '}', '/', '*']) (hnext : Nesting.top.next c = .top) :
    CleanText (s ++ c :: t) := by
  simp only [List.mem_cons, List.not_mem_nil, or_false, not_or] at hc
  obtain ⟨hback, hopen, hclose, hslash, hstar⟩ := hc
  refine ⟨?_, ⟨?_, ?_⟩, ?_, ?_⟩
  · simp [hs.noBackslash, ht.noBackslash, Ne.symm hback]
  · simp [hs.noBrace, ht.noBrace, Ne.symm hopen]
  · simp [hs.noBrace, ht.noBrace, Ne.symm hclose]
  · have hrest := uncommented_cons hslash ht.uncommented
    exact uncommented_iff.1 (hs.uncommented.append_cons hstar hrest)
  · rw [Nesting.after_append, hs.closed, Nesting.after_cons, hnext, ht.closed]

/-- A part of a clean text that is closed itself. -/
theorem CleanText.part {s part : List Char} (h : CleanText s) (hpart : part <:+: s)
    (hclosed : Nesting.top.after part = .top) : CleanText part where
  noBackslash hmem := h.noBackslash (hpart.subset hmem)
  noBrace :=
    ⟨fun hmem => h.noBrace.1 (hpart.subset hmem), fun hmem => h.noBrace.2 (hpart.subset hmem)⟩
  noComment hcomment := h.noComment (hcomment.trans hpart)
  closed := hclosed

/-! ## Clean declarations -/

/-- A declaration that is clean as it is written, has no semicolon that counts, and is read as it
is written. -/
structure Declaration.Clean (d : Declaration) : Prop where
  text : CleanText d.chars
  undivided : Undivided ';' .top d.chars
  read : declaration? d.chars = some d

section propertyName

variable (p : List Char)

/-- Lower case does not make a name that of a custom property, nor the other way round. -/
theorem isPrefixOf_map_toLower :
    "--".toList.isPrefixOf (p.map Char.toLower) = "--".toList.isPrefixOf p := by
  have hbeq : ∀ c : Char, ('-' == c.toLower) = ('-' == c) := by
    intro c
    rw [Bool.eq_iff_iff, beq_iff_eq, beq_iff_eq, eq_comm,
      Text.toLower_eq_iff (by decide) (by decide), eq_comm]
  match p with
  | [] => rfl
  | [c] => simp [List.isPrefixOf]
  | c :: d :: p => simp [List.isPrefixOf, hbeq]

/-- A name is written as it was read. -/
theorem propertyName_propertyName : propertyName (propertyName p) = propertyName p := by
  by_cases h : "--".toList.isPrefixOf p = true
  · have hself : propertyName p = p := if_pos h
    rw [hself, hself]
  · have hlower : ∀ q, q = p ∨ q = p.map Char.toLower → propertyName q = q.map Char.toLower := by
      rintro q (rfl | rfl)
      · exact if_neg h
      · exact if_neg (by rwa [isPrefixOf_map_toLower])
    rw [hlower p (.inl rfl), hlower _ (.inr rfl), List.map_map]
    exact List.map_congr_left fun c _ => Text.toLower_toLower c

/-- The name of a trimmed property is trimmed. -/
theorem trim_propertyName :
    Text.trim (propertyName (Text.trim p)) = propertyName (Text.trim p) := by
  rw [propertyName]
  split
  · exact Text.trim_trim p
  · rw [Text.trim_map_toLower, Text.trim_trim]

end propertyName

theorem propertyName_ne_nil {p : List Char} (h : p ≠ []) : propertyName p ≠ [] := by
  rw [propertyName]
  split
  · exact h
  · simpa using h

/-- No comment begins because a name is put into lower case. -/
theorem Uncommented.propertyName {p : List Char} (h : Uncommented p) :
    Uncommented (propertyName p) := by
  rw [Style.propertyName]
  split
  · exact h
  · refine List.isChain_map_of_isChain Char.toLower (fun c d hcd => ?_) h
    rwa [Text.toLower_eq_iff (by decide) (by decide), Text.toLower_eq_iff (by decide) (by decide)]

theorem Thinned.propertyName {s p : List Char} (h : Thinned s p) : Thinned s (propertyName p) := by
  rw [Style.propertyName]
  split
  · exact h
  · exact h.map_toLower

/-- What is left of a clean text is clean if no comment begins in it. -/
theorem CleanText.thinned {s t : List Char} (hs : CleanText s) (h : Thinned s t)
    (ht : Uncommented t) : CleanText t where
  noBackslash := h.not_mem (by decide) hs.noBackslash
  noBrace := ⟨h.not_mem (by decide) hs.noBrace.1, h.not_mem (by decide) hs.noBrace.2⟩
  noComment := uncommented_iff.1 ht
  closed := by rw [(h.scan hs.noBackslash Nesting.steady_top).1, hs.closed]

theorem Declaration.chars_ofList (name value : List Char) :
    (⟨String.ofList name, String.ofList value⟩ : Declaration).chars = name ++ ':' :: value := by
  simp [Declaration.chars]

/-- A declaration is what stands around the first colon of a part, without spaces. -/
theorem of_declaration?_eq_some {s : List Char} {d : Declaration} (h : declaration? s = some d) :
    ∃ p v, s = p ++ ':' :: v ∧ ':' ∉ p ∧ Text.trim p ≠ [] ∧ Text.trim v ≠ [] ∧
      d = ⟨String.ofList (propertyName (Text.trim p)), String.ofList (Text.trim v)⟩ := by
  rw [declaration?] at h
  split at h
  · cases h
  · next p v hsplit =>
    obtain ⟨rfl, hcolon⟩ := Text.splitFirst_eq_some hsplit
    dsimp only at h
    split at h
    · cases h
    · next hne =>
      rw [not_or] at hne
      exact ⟨p, v, rfl, hcolon, hne.1, hne.2, (Option.some.inj h).symm⟩

/-- The declaration of a clean text is clean. -/
theorem clean_declaration? {s : List Char} {d : Declaration} (hs : CleanText s)
    (hcut : Undivided ';' .top s) (h : declaration? s = some d) : d.Clean := by
  obtain ⟨p, v, rfl, hcolon, hpne, hvne, rfl⟩ := of_declaration?_eq_some h
  have hname : Thinned p (propertyName (Text.trim p)) := (Thinned.trim p).propertyName
  have hthin := hname.append (.keep ':' (Thinned.trim v))
  have hfree : Uncommented (propertyName (Text.trim p) ++ ':' :: Text.trim v) := by
    have hp : Uncommented (Text.trim p) :=
      Uncommented.part hs.uncommented.left_of_append (Text.infix_trim p)
    have hv : Uncommented (Text.trim v) :=
      Uncommented.part hs.uncommented.right_of_append.tail (Text.infix_trim v)
    exact hp.propertyName.append_cons (by decide) (uncommented_cons (by decide) hv)
  refine ⟨?_, ?_, ?_⟩
  · rw [Declaration.chars_ofList]
    exact hs.thinned hthin hfree
  · rw [Declaration.chars_ofList]
    exact (hthin.scan hs.noBackslash Nesting.steady_top).2 hcut
  · rw [Declaration.chars_ofList, declaration?,
      Text.splitFirst_append (hname.not_mem (by decide) hcolon)]
    dsimp only
    rw [trim_propertyName, Text.trim_trim, propertyName_propertyName,
      if_neg (not_or.2 ⟨propertyName_ne_nil hpne, hvne⟩)]

/-- **The declarations of a clean block are clean.** -/
theorem clean_readDeclarations {body : List Char} (h : CleanText body) :
    ∀ d ∈ readDeclarations body, d.Clean := by
  intro d hd
  obtain ⟨part, hpart, hread⟩ := List.mem_filterMap.1 hd
  obtain ⟨hcut, hclosed⟩ := of_mem_cutTopLevel (by decide) h.closed hpart
  have hwithin : part <:+: body := by
    rw [← joinChars_cutTopLevel ';' body]
    exact infix_joinChars hpart
  exact clean_declaration? (h.part hwithin hclosed) hcut hread

/-- Clean declarations are written as clean text. -/
theorem cleanText_declarationChars {ds : List Declaration} (h : ∀ d ∈ ds, d.Clean) :
    CleanText (declarationChars ds) := by
  induction ds with
  | nil => exact cleanText_nil
  | cons d ds ih =>
    obtain ⟨hd, hds⟩ := List.forall_mem_cons.1 h
    cases ds with
    | nil => exact hd.text
    | cons d' ds =>
      have happend := hd.text.append_cons (c := ';') (ih hds) (by decide) (by decide)
      simpa [declarationChars, joinChars] using happend

end Pane.Style
