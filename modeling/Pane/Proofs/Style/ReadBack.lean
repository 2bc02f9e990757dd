import Pane.Proofs.Style.Clean

/-!
# How written rules and groups are cut off

A sheet of rules and of groups that apply from a width upward is written as a text.  Its outline has
one block for each item if the selectors of a rule are closed and its block leaves the braces around
it alone; the body of a group has one block for each of its rules, and the prelude of a group is
read as its width.

* `Enclosed` — a text that leaves the braces around it alone.
* **`outlineFrom_block`** — a prelude and a block, cut off from what follows.
* `outline_groupChars` — the rules of a group, cut off one by one.
* `readMinWidth_minWidthPrelude` — the width of a group.
* `CleanSelector`, `Rule.Clean` — selectors and rules of clean text.
* `Item.OfRules` — an item whose rules are all as asked.
-/

namespace Pane.Style

/-! ## Stretches without a piece -/

namespace Reading

/-- A text that completes no piece leads from one state to another. -/
def Passes (r : Reading) (s : List Char) (r' : Reading) : Prop :=
  outlineFrom r s = [] ∧ r.after s = r'

variable {r r' r'' : Reading} {s t : List Char}

theorem passes_nil (r : Reading) : r.Passes [] r := ⟨rfl, rfl⟩

theorem passes_cons {c : Char} (hc : r.next c = (r', none)) (h : r'.Passes s r'') :
    r.Passes (c :: s) r'' := by
  constructor
  · rw [outlineFrom, hc, h.1]
    rfl
  · rw [after, List.foldl_cons, hc]
    exact h.2

/-- Texts that are passed one behind the other are passed together. -/
theorem Passes.append (h : r.Passes s r') (h' : r'.Passes t r'') : r.Passes (s ++ t) r'' := by
  constructor
  · rw [outlineFrom_append, h.1, h.2, h'.1, List.append_nil]
  · rw [after, List.foldl_append]
    exact (congrArg (fun x => after x t) h.2).trans h'.2

/-- What is passed adds nothing to the outline. -/
theorem Passes.outlineFrom (h : r.Passes s r') (t : List Char) :
    outlineFrom r (s ++ t) = outlineFrom r' t := by
  rw [outlineFrom_append, h.1, h.2, List.nil_append]

theorem Passes.after (h : r.Passes s r') (t : List Char) : r.after (s ++ t) = r'.after t := by
  rw [Reading.after, List.foldl_append]
  exact congrArg (fun x => Reading.after x t) h.2

end Reading

open Reading

/-- A text without a brace and a semicolon that count stays in the prelude. -/
theorem passes_prelude {s : List Char} {n : Nesting} (seen : List Char) (hbrace : Undivided '{' n s)
    (hcut : Undivided ';' n s) :
    (Reading.inPrelude seen n).Passes s (.inPrelude (s.reverse ++ seen) (n.after s)) := by
  induction s generalizing seen n with
  | nil => exact passes_nil _
  | cons c s ih =>
    obtain ⟨hopen, hbrace⟩ := undivided_cons.1 hbrace
    obtain ⟨hc, hs⟩ := undivided_cons.1 hcut
    have hnext : (Reading.inPrelude seen n).next c = (.inPrelude (c :: seen) (n.next c), none) := by
      rw [Reading.next, if_neg hc, if_neg hopen]
    have hrest := ih (c :: seen) hbrace hs
    rw [List.reverse_cons, List.append_assoc, List.singleton_append, Nesting.after_cons]
    exact passes_cons hnext hrest

/-! ## Blocks -/

/-- A text that leaves the braces around it alone: no piece ends in it, and behind it as many braces
are open as in front of it. -/
def Enclosed (s : List Char) : Prop :=
  ∀ prelude seen depth, (Reading.inBody prelude seen .plain depth).Passes s
    (.inBody prelude (s.reverse ++ seen) .plain depth)

/-- Enclosed texts are so one behind the other. -/
theorem Enclosed.append {s t : List Char} (hs : Enclosed s) (ht : Enclosed t) :
    Enclosed (s ++ t) := by
  intro prelude seen depth
  rw [List.reverse_append, List.append_assoc]
  exact (hs prelude seen depth).append (ht prelude _ depth)

/-- Braces around an enclosed text enclose it. -/
theorem Enclosed.braces {s : List Char} (h : Enclosed s) : Enclosed ('{' :: s ++ ['}']) := by
  intro prelude seen depth
  have hopen : (Reading.inBody prelude seen .plain depth).next '{' =
      (.inBody prelude ('{' :: seen) .plain (depth + 1), none) := rfl
  have hclose : (Reading.inBody prelude (s.reverse ++ '{' :: seen) .plain (depth + 1)).next '}' =
      (.inBody prelude ('}' :: (s.reverse ++ '{' :: seen)) .plain depth, none) := rfl
  have hpasses := passes_cons hopen ((h prelude ('{' :: seen) (depth + 1)).append
    (passes_cons hclose (passes_nil _)))
  simpa using hpasses

/-- **A prelude and a block are cut off from what follows.**  There may be spaces in front of the
prelude, which have been read already. -/
theorem outlineFrom_block {seen prelude body : List Char} (hbrace : Undivided '{' .top prelude)
    (hcut : Undivided ';' .top prelude) (hclosed : Nesting.top.after prelude = .top)
    (htrim : Text.trim (seen.reverse ++ prelude) = prelude) (hbody : Enclosed body)
    (t : List Char) :
    outlineFrom (.inPrelude seen .top) (prelude ++ '{' :: (body ++ '}' :: t)) =
      .block prelude body :: outline t := by
  have hprelude := passes_prelude seen hbrace hcut
  have hopen : (Reading.inPrelude (prelude.reverse ++ seen) .top).next '{' =
      (.inBody prelude [] .plain 0, none) := by
    rw [Reading.next, if_neg (by simp), if_pos ⟨rfl, rfl⟩, List.reverse_append,
      List.reverse_reverse, htrim]
  have hclose : (Reading.inBody prelude (body.reverse ++ []) .plain 0).next '}' =
      (.start, some (.block prelude body)) := by
    simp [Reading.next]
  rw [hclosed] at hprelude
  rw [hprelude.outlineFrom, outlineFrom, hopen]
  dsimp only
  rw [(hbody prelude [] 0).outlineFrom, outlineFrom, hclose]
  rfl

/-! ## Rules -/

/-- What is asked of a selector: it starts with a class and has no space at its ends, and neither a
comma nor a semicolon counts in it. -/
structure CleanSelector (s : List Char) : Prop where
  text : CleanText s
  noComma : Undivided ',' .top s
  noSemicolon : Undivided ';' .top s
  trimmed : Text.trim s = s
  startsClass : s.head? = some '.'

/-- What is asked of a rule: it has a single selector, and this and its declarations are clean. -/
structure Rule.Clean (r : Rule) : Prop where
  selector : ∃ sel : String, r.selectors = [sel] ∧ CleanSelector sel.toList
  declarations : ∀ d ∈ r.declarations, d.Clean

/-- An item that consists of rules: it is a rule or a group, and each of its rules is as asked. -/
def Item.OfRules (P : Rule → Prop) : Item → Prop
  | .rule r => P r
  | .media _ rules => ∀ r ∈ rules, P r
  | .verbatim _ => False

instance {P : Rule → Prop} [DecidablePred P] : DecidablePred (Item.OfRules P)
  | .rule r => inferInstanceAs (Decidable (P r))
  | .media _ rules => inferInstanceAs (Decidable (∀ r ∈ rules, P r))
  | .verbatim _ => inferInstanceAs (Decidable False)

/-- What is asked of rules may be weakened. -/
theorem Item.OfRules.imp {P Q : Rule → Prop} {i : Item} (h : i.OfRules P) (hPQ : ∀ r, P r → Q r) :
    i.OfRules Q := by
  cases i with
  | rule r => exact hPQ r h
  | media w rules => exact fun r hr => hPQ r (h r hr)
  | verbatim text => exact h

/-- A clean selector is not an at-rule, and is not empty. -/
theorem CleanSelector.not_isAtRule {s : List Char} (h : CleanSelector s) :
    isAtRule s = false ∧ s ≠ [] := by
  have hstart := h.startsClass
  cases s with
  | nil => cases hstart
  | cons c s =>
    obtain rfl : c = '.' := by simpa using hstart
    exact ⟨rfl, by simp⟩

/-- A line break that has been read in front of a text is no part of it. -/
theorem trim_reverse_append {seen s : List Char} (hseen : seen = [] ∨ seen = ['\n'])
    (h : Text.trim s = s) : Text.trim (seen.reverse ++ s) = s := by
  rcases hseen with rfl | rfl
  · exact h
  · have hspace : Text.isSpace '\n' = true := by decide
    show Text.trim ('\n' :: s) = s
    rw [Text.trim, Text.trimStart, List.dropWhile_cons_of_pos hspace]
    exact h

/-- A clean selector is read as the only one. -/
theorem CleanSelector.readSelectors_eq {sel : String} (h : CleanSelector sel.toList) :
    readSelectors sel.toList = [sel] := by
  have hne := h.not_isAtRule.2
  rw [readSelectors, cutTopLevel_eq_singleton h.noComma]
  simp [h.trimmed, hne]

/-- A rule with a clean selector is cut off as a block, if its body leaves the braces around it
alone. -/
theorem CleanSelector.outlineFrom_chars {r : Rule} {sel : String} (h : CleanSelector sel.toList)
    (hsel : r.selectors = [sel]) (hbody : Enclosed (declarationChars r.declarations))
    {seen : List Char} (hseen : seen = [] ∨ seen = ['\n']) (t : List Char) :
    outlineFrom (.inPrelude seen .top) (r.chars ++ t) =
      .block sel.toList (declarationChars r.declarations) :: outline t := by
  have hchars : r.chars ++ t =
      sel.toList ++ '{' :: (declarationChars r.declarations ++ '}' :: t) := by
    simp [Rule.chars, hsel, joinChars]
  rw [hchars]
  exact outlineFrom_block (undivided_of_not_mem h.text.noBrace.1) h.noSemicolon h.text.closed
    (trim_reverse_append hseen h.trimmed) hbody t

/-! ## Groups -/

section group

variable {rules : List Rule}

/-- The lines of a group. -/
def groupChars (rules : List Rule) : List Char :=
  '\n' :: rules.flatMap fun r => r.chars ++ ['\n']

/-- The rules of a group are enclosed if each of them is. -/
theorem enclosed_groupChars (h : ∀ r ∈ rules, Enclosed r.chars) : Enclosed (groupChars rules) := by
  have hnewline : Enclosed ['\n'] := fun _ _ _ => ⟨rfl, rfl⟩
  refine hnewline.append (t := rules.flatMap fun r => r.chars ++ ['\n']) ?_
  induction rules with
  | nil => exact fun _ _ _ => passes_nil _
  | cons r rules ih =>
    obtain ⟨hr, hrules⟩ := List.forall_mem_cons.1 h
    exact (hr.append hnewline).append (ih hrules)

theorem outline_newline (s : List Char) :
    outline ('\n' :: s) = outlineFrom (.inPrelude ['\n'] .top) s := rfl

/-- The rules of a group are read one by one, if each is cut off as a block of its own. -/
theorem outline_groupChars (read : Rule → Rule)
    (h : ∀ r ∈ rules, ∀ t, ∃ piece,
      outlineFrom (.inPrelude ['\n'] .top) (r.chars ++ t) = piece :: outline t ∧
        piece.rule? = some (read r)) :
    (outline (groupChars rules)).filterMap Piece.rule? = rules.map read := by
  induction rules with
  | nil => rfl
  | cons r rules ih =>
    obtain ⟨hr, hrules⟩ := List.forall_mem_cons.1 h
    obtain ⟨piece, houtline, hrule⟩ := hr (groupChars rules)
    have hlines : groupChars (r :: rules) = '\n' :: (r.chars ++ groupChars rules) := by
      simp [groupChars]
    rw [hlines, outline_newline, houtline, List.filterMap_cons, hrule, ih hrules, List.map_cons]

end group

/-! ## Widths -/

/-- A number is read back from its digits. -/
theorem decimalValue_toDigits (n : Nat) : Text.decimalValue (Nat.toDigits 10 n) = n :=
  Nat.ofDigitChars_toDigits (by decide) (by decide)

/-- A whole number of pixels is read as it is written. -/
theorem amount?_toDigits (n : Nat) : amount? (Nat.toDigits 10 n ++ "px)".toList) =
    some ((n, 1), "px)".toList) := by
  have hdigits : ∀ c ∈ Nat.toDigits 10 n, c.isDigit = true := fun c hc =>
    Nat.isDigit_of_mem_toDigits (by decide) (by decide) hc
  have htake : (Nat.toDigits 10 n ++ "px)".toList).takeWhile Char.isDigit = Nat.toDigits 10 n := by
    rw [List.takeWhile_append_of_pos hdigits]
    exact List.append_nil _
  have hdrop : (Nat.toDigits 10 n ++ "px)".toList).dropWhile Char.isDigit = "px)".toList :=
    List.dropWhile_append_of_pos hdigits
  rw [amount?, htake, hdrop]
  dsimp only
  rw [if_neg Nat.toDigits_ne_nil, decimalValue_toDigits]
  rfl

/-- There is no space in front of digits. -/
theorem trimStart_toDigits (n : Nat) (s : List Char) :
    Text.trimStart (Nat.toDigits 10 n ++ s) = Nat.toDigits 10 n ++ s := by
  cases h : Nat.toDigits 10 n with
  | nil => exact absurd h Nat.toDigits_ne_nil
  | cons c cs =>
    have hc : c.isDigit = true :=
      Nat.isDigit_of_mem_toDigits (b := 10) (by decide) (by decide) (h ▸ List.mem_cons_self ..)
    simp only [Char.isDigit, Bool.and_eq_true, decide_eq_true_eq] at hc
    have hn : 48 ≤ c.toNat ∧ c.toNat ≤ 57 := hc
    exact Text.trimStart_cons (Text.isSpace_eq_false (by omega))

/-- A keyword in lower case is spelled by itself. -/
theorem keyword?_of_all {k : List Char} (h : (k.all fun c => decide (c.toLower = c)) = true)
    (s : List Char) : Text.keyword? k (k ++ s) = some s :=
  Text.keyword?_self k s fun c hc => of_decide_eq_true (List.all_eq_true.1 h c hc)

/-- The feature of a least width is read back. -/
theorem feature?_minWidth (w : UInt32) :
    feature? ("(min-width: ".toList ++ (Nat.toDigits 10 w.toNat ++ "px)".toList)) = some w := by
  generalize ht : Nat.toDigits 10 w.toNat ++ "px)".toList = t
  have hbracket : Text.keyword? ['('] ("(min-width: ".toList ++ t) =
      some ("min-width".toList ++ (": ".toList ++ t)) := rfl
  have hname : Text.keyword? "min-width".toList
      (Text.trimStart ("min-width".toList ++ (": ".toList ++ t))) = some (": ".toList ++ t) := by
    have htrim : Text.trimStart ("min-width".toList ++ (": ".toList ++ t)) = _ :=
      Text.trimStart_cons (by decide)
    rw [htrim]
    exact @keyword?_of_all "min-width".toList (by decide) _
  have hcolon : Text.keyword? [':'] (Text.trimStart (": ".toList ++ t)) = some (' ' :: t) := by
    have htrim : Text.trimStart (": ".toList ++ t) = _ := Text.trimStart_cons (by decide)
    rw [htrim]
    rfl
  have hspace : Text.trimStart (' ' :: t) = t := by
    have hdrop : Text.trimStart (' ' :: t) = Text.trimStart t :=
      List.dropWhile_cons_of_pos (by decide)
    rw [hdrop, ← ht, trimStart_toDigits]
  have hamount : amount? t = some ((w.toNat, 1), "px)".toList) := ht ▸ amount?_toDigits w.toNat
  have hunit : unit? "px)".toList = some (1, [')']) := rfl
  have hend : Text.trimStart [')'] = [')'] := Text.trimStart_cons (by decide)
  have hpixels : UInt32.ofNat (pixels 1 w.toNat 1) = w := by
    have hlt := w.toNat_lt
    rw [pixels_whole 1 w.toNat (by decide), Nat.mul_one, Nat.min_eq_left (by rw [maxWidth]; omega),
      UInt32.ofNat_toNat]
  simp only [feature?, bind, Option.bind, hbracket, hname, hcolon, hspace, hamount, hunit, hend,
    if_true, hpixels]

theorem minWidthPrelude_eq (w : UInt32) : minWidthPrelude w =
    "@media ".toList ++ ("(min-width: ".toList ++ (Nat.toDigits 10 w.toNat ++ "px)".toList)) := by
  have hstart : "@media (min-width: ".toList = "@media ".toList ++ "(min-width: ".toList := by
    decide
  have hwhole := congrArg (fun s => s ++ Nat.toDigits 10 w.toNat ++ "px)".toList) hstart
  exact hwhole.trans ((List.append_assoc ..).trans (List.append_assoc ..))

/-- The prelude of a group is trimmed. -/
theorem trim_minWidthPrelude (w : UInt32) : Text.trim (minWidthPrelude w) = minWidthPrelude w := by
  have hstart : Text.trimStart (minWidthPrelude w) = minWidthPrelude w := by
    rw [minWidthPrelude_eq]
    exact Text.trimStart_cons (s := "media ".toList ++ _) (by decide)
  have hend : Text.trimEnd "px)".toList = "px)".toList := by decide
  rw [Text.trim, hstart]
  exact Text.trimEnd_append (by decide) hend

/-- The width of a group is read as it is written. -/
theorem readMinWidth_minWidthPrelude (w : UInt32) : readMinWidth (minWidthPrelude w) = some w := by
  have hmedia : ∀ t,
      keywordSpace? "@media".toList ("@media ".toList ++ ("(min-width: ".toList ++ t)) =
        some ("(min-width: ".toList ++ t) := by
    intro t
    have hkeyword :
        Text.keyword? "@media".toList ("@media ".toList ++ ("(min-width: ".toList ++ t)) =
          some (' ' :: ("(min-width: ".toList ++ t)) :=
      @keyword?_of_all "@media".toList (by decide) (' ' :: _)
    rw [keywordSpace?, hkeyword]
    rfl
  have htype : ∀ t, mediaType? ("(min-width: ".toList ++ t) = none := fun t => rfl
  rw [readMinWidth, trim_minWidthPrelude, minWidthPrelude_eq, hmedia]
  simp only [bind, Option.bind, htype, Option.getD_none]
  exact feature?_minWidth w

/-- The prelude of a group is made of digits and of what is printed around them. -/
theorem mem_minWidthPrelude {w : UInt32} {c : Char} (h : c ∈ minWidthPrelude w) :
    c ∈ "@media (min-width: px)".toList ∨ c.isDigit = true := by
  have hfirst : "@media (min-width: ".toList ⊆ "@media (min-width: px)".toList := by decide
  have hlast : "px)".toList ⊆ "@media (min-width: px)".toList := by decide
  rcases List.mem_append.1 h with h | h
  · rcases List.mem_append.1 h with h | h
    · exact .inl (hfirst h)
    · exact .inr (Nat.isDigit_of_mem_toDigits (by decide) (by decide) h)
  · exact .inl (hlast h)

theorem not_mem_minWidthPrelude {w : UInt32} {c : Char}
    (hc : c ∉ "@media (min-width: px)".toList ∧ c.isDigit = false) : c ∉ minWidthPrelude w := by
  intro hmem
  rcases mem_minWidthPrelude hmem with h | h
  · exact hc.1 h
  · rw [hc.2] at h
    exact Bool.noConfusion h

/-- The prelude of a group closes what it opens. -/
theorem closed_minWidthPrelude (w : UInt32) : Nesting.top.after (minWidthPrelude w) = .top := by
  have hopen : Nesting.top.after "@media (min-width: ".toList = ⟨.plain, 1⟩ := by decide
  have hdigits : (⟨.plain, 1⟩ : Nesting).after (Nat.toDigits 10 w.toNat) = ⟨.plain, 1⟩ := by
    have hsteady : (⟨.plain, 1⟩ : Nesting).Steady := .inl rfl
    exact hsteady.after_eq_self fun c hc => Text.not_mem_of_all (by decide)
      (Nat.isDigit_of_mem_toDigits (by decide) (by decide) hc)
  have hclose : (⟨.plain, 1⟩ : Nesting).after "px)".toList = .top := by decide
  have hfront : Nesting.top.after ("@media (min-width: ".toList ++ Nat.toDigits 10 w.toNat) =
      ⟨.plain, 1⟩ :=
    (Nesting.after_append ..).trans ((congrArg (fun n => Nesting.after n _) hopen).trans hdigits)
  exact (Nesting.after_append ..).trans
    ((congrArg (fun n => Nesting.after n _) hfront).trans hclose)

/-! ## Items -/

/-- A group is cut off as a block with its width and its lines. -/
theorem outlineFrom_media (w : UInt32) {rules : List Rule} (h : ∀ r ∈ rules, Enclosed r.chars)
    {seen : List Char} (hseen : seen = [] ∨ seen = ['\n']) (t : List Char) :
    outlineFrom (.inPrelude seen .top) ((Item.media w rules).chars ++ t) =
      .block (minWidthPrelude w) (groupChars rules) :: outline t := by
  have hbrace : Undivided '{' .top (minWidthPrelude w) :=
    undivided_of_not_mem (not_mem_minWidthPrelude (by decide))
  have hcut : Undivided ';' .top (minWidthPrelude w) :=
    undivided_of_not_mem (not_mem_minWidthPrelude (by decide))
  have hchars : (Item.media w rules).chars ++ t =
      minWidthPrelude w ++ '{' :: (groupChars rules ++ '}' :: t) := by
    simp [Item.chars, groupChars]
  rw [hchars]
  exact outlineFrom_block hbrace hcut (closed_minWidthPrelude w)
    (trim_reverse_append hseen (trim_minWidthPrelude w)) (enclosed_groupChars h) t

/-- The block of a group is read as its rules with the width. -/
theorem item?_minWidthPrelude (w : UInt32) (body : List Char) :
    Piece.item? (.block (minWidthPrelude w) body) =
      some (.media w ((outline body).filterMap Piece.rule?)) := by
  have hat : isAtRule (minWidthPrelude w) = true := by
    rw [minWidthPrelude_eq]
    rfl
  simp [Piece.item?, hat, readMinWidth_minWidthPrelude]

/-! ## Blank texts -/

/-- Stripping comments adds nothing. -/
theorem mem_of_mem_stripFrom {c : Char} : ∀ {state : CommentState} {s : List Char},
    c ∈ stripFrom state s → c ∈ s := by
  intro state s h
  fun_induction stripFrom state s with
  | case1 => exact h
  | case2 cs ih => exact List.mem_cons_of_mem _ (List.mem_cons_of_mem _ (ih h))
  | case3 d cs _ ih => exact List.mem_cons.2 ((List.mem_cons.1 h).imp_right ih)
  | case4 q d cs ih => exact List.mem_cons.2 ((List.mem_cons.1 h).imp_right ih)
  | case5 q d cs ih => exact List.mem_cons.2 ((List.mem_cons.1 h).imp_right ih)
  | case6 cs ih => exact List.mem_cons_of_mem _ (List.mem_cons_of_mem _ (ih h))
  | case7 d cs _ ih => exact List.mem_cons_of_mem _ (ih h)

/-- A blank text has no items. -/
theorem read_of_isBlank {text : String} (h : Text.isBlank text.toList = true) :
    Sheet.read text = ⟨[]⟩ := by
  have hspace : ∀ c ∈ stripComments text.toList, Text.isSpace c = true := fun c hc =>
    List.all_eq_true.1 h c (mem_of_mem_stripFrom hc)
  have hbrace : Undivided '{' .top (stripComments text.toList) :=
    undivided_of_not_mem fun hmem => absurd (hspace _ hmem) (by decide)
  have hcut : Undivided ';' .top (stripComments text.toList) :=
    undivided_of_not_mem fun hmem => absurd (hspace _ hmem) (by decide)
  have hpieces : outline (stripComments text.toList) = [] := (passes_prelude [] hbrace hcut).1
  rw [Sheet.read, Sheet.readChars, readItems, hpieces]
  rfl

end Pane.Style
