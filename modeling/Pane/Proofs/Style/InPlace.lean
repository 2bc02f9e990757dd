import Pane.Proofs.Text.Offsets
import Pane.Style.Sheet.Reader
import Pane.Style.ViewportUnits

/-!
# Reading style text in place

Style text can be read without taking it apart: the bytes are searched for the offset of a mark, and
the text is sliced there.  A search steps over the byte behind a backslash, so it may go on within a
character or beyond the end.  A slice can only be made between characters, and where it cannot be
made there is no result.

A byte is looked at as the character of its number.

* `search` — the search for a bare byte at some depth.  `findTopLevel` and `findBlockEnd` are
  searches with a depth of thirty-two bits, which wraps around.
* `quotedEnd`, `urlEnd`, `literalEnd?` — the ends of literals.
* `splitTopLevel?`, `itemsFrom?`, `percentagesFrom?`, `stripFrom?` — the readers that slice.
* `sheetInPlace?`, `declarationsInPlace?`, `percentagesInPlace?` — a whole text.
-/

namespace Pane.Style

open Text (bytes size slice? sliceFrom?)

/-! ## Depths -/

section depths

variable {δ : Type} [Add δ] [Sub δ] [Max δ] [OfNat δ 0] [OfNat δ 1] [DecidableEq δ]

/-- The depth of brackets behind a bare character, unless this is a target at depth zero. -/
def bracketStep (targets : List Char) (depth : δ) (c : Char) : Option δ :=
  if c = '(' ∨ c = '[' then some (depth + 1)
  else if c = ')' ∨ c = ']' then some (max (depth - 1) 0)
  else if depth = 0 ∧ c ∈ targets then none
  else some depth

/-- The depth of braces behind a bare character, unless this is the brace that closes the block. -/
def braceStep (depth : δ) (c : Char) : Option δ :=
  if c = '{' then some (depth + 1)
  else if c = '}' then if depth - 1 = 0 then none else some (depth - 1)
  else some depth

theorem mem_of_bracketStep {targets : List Char} {depth : δ} {c : Char}
    (h : bracketStep targets depth c = none) : c ∈ targets := by
  rw [bracketStep] at h
  split_ifs at h with hopen hclose htarget
  exact htarget.2

omit [Max δ] in
theorem eq_of_braceStep {depth : δ} {c : Char} (h : braceStep depth c = none) : c = '}' := by
  rw [braceStep] at h
  split_ifs at h with hopen hclose hzero
  exact hclose

end depths

/-! ## Searches -/

/-- The offset of the first bare byte at which `step` ends, from an offset on, in a string of the
given quote or outside strings. -/
def search (step : Int32 → Char → Option Int32) (bs : List UInt8) (quote : Option UInt8)
    (depth : Int32) (i : Nat) : Option Nat :=
  match _h : bs[i]? with
  | none => none
  | some b =>
    if Char.ofUInt8 b = '\\' then search step bs quote depth (i + 2)
    else
      match quote with
      | some q => search step bs (if b = q then none else quote) depth (i + 1)
      | none =>
        if Char.ofUInt8 b = '"' ∨ Char.ofUInt8 b = '\'' then
          search step bs (some b) depth (i + 1)
        else
          match step depth (Char.ofUInt8 b) with
          | none => some i
          | some depth => search step bs none depth (i + 1)
termination_by bs.length - i
decreasing_by
  all_goals
    have hlt := (List.getElem?_eq_some_iff.1 _h).1
    omega

/-- The offset of the first target at depth zero, outside strings. -/
def findTopLevel (source : List Char) (targets : List Char) (start : Nat) : Option Nat :=
  search (bracketStep targets) (bytes source) none 0 start

/-- The offset of the brace that closes the block opened at an offset. -/
def findBlockEnd (source : List Char) (opening : Nat) : Option Nat :=
  search braceStep (bytes source) none 0 opening

/-- What a search finds is not in front of where it starts, and `step` ends there. -/
theorem of_search_eq_some {step : Int32 → Char → Option Int32} {bs : List UInt8}
    {quote : Option UInt8} {depth : Int32} {i j : Nat} (h : search step bs quote depth i = some j) :
    i ≤ j ∧ ∃ b depth, bs[j]? = some b ∧ step depth (Char.ofUInt8 b) = none := by
  fun_induction search step bs quote depth i with
  | case1 => cases h
  | case5 depth i b hb hbackslash hquote hstep =>
    cases h
    exact ⟨Nat.le_refl _, b, _, hb, hstep⟩
  | case2 _ _ _ _ _ _ ih | case3 _ _ _ _ _ _ ih | case4 _ _ _ _ _ _ ih
  | case6 _ _ _ _ _ _ _ _ ih =>
    obtain ⟨hle, hfound⟩ := ih h
    exact ⟨by omega, hfound⟩

/-- A target is found, not in front of where the search starts. -/
theorem of_findTopLevel_eq_some {source targets : List Char} {start i : Nat}
    (h : findTopLevel source targets start = some i) :
    start ≤ i ∧ ∃ b, (bytes source)[i]? = some b ∧ Char.ofUInt8 b ∈ targets := by
  obtain ⟨hle, b, depth, hb, hstep⟩ := of_search_eq_some h
  exact ⟨hle, b, hb, mem_of_bracketStep hstep⟩

/-- A closing brace is found, not in front of where the block is opened. -/
theorem of_findBlockEnd_eq_some {source : List Char} {opening i : Nat}
    (h : findBlockEnd source opening = some i) :
    opening ≤ i ∧ ∃ b, (bytes source)[i]? = some b ∧ Char.ofUInt8 b = '}' := by
  obtain ⟨hle, b, depth, hb, hstep⟩ := of_search_eq_some h
  exact ⟨hle, b, hb, eq_of_braceStep hstep⟩

/-! ## Ends of literals -/

/-- The offset behind a string of the given quote, from an offset within it. -/
def quotedEnd (bs : List UInt8) (quote : UInt8) (i : Nat) : Nat :=
  match _h : bs[i]? with
  | none => bs.length
  | some b =>
    if Char.ofUInt8 b = '\\' then quotedEnd bs quote (i + 2)
    else if b = quote then i + 1
    else quotedEnd bs quote (i + 1)
termination_by bs.length - i
decreasing_by
  all_goals
    have hlt := (List.getElem?_eq_some_iff.1 _h).1
    omega

/-- A string ends with its quote, or where the text ends. -/
theorem quotedEnd_eq (bs : List UInt8) (quote : UInt8) (i : Nat) :
    quotedEnd bs quote i = bs.length ∨
      ∃ j, i ≤ j ∧ bs[j]? = some quote ∧ quotedEnd bs quote i = j + 1 := by
  fun_induction quotedEnd bs quote i with
  | case1 => exact .inl rfl
  | case3 i hb => exact .inr ⟨i, Nat.le_refl i, hb, rfl⟩
  | case2 _ _ _ _ ih | case4 _ _ _ _ _ ih =>
    refine ih.imp_right ?_
    rintro ⟨j, hle, hj, heq⟩
    exact ⟨j, by omega, hj, heq⟩

theorem lt_quotedEnd {bs : List UInt8} {i : Nat} (hi : i < bs.length) (quote : UInt8) :
    i < quotedEnd bs quote (i + 1) := by
  rcases quotedEnd_eq bs quote (i + 1) with heq | ⟨j, hle, -, heq⟩ <;> omega

/-- The offset behind the bracket that closes a reference, from an offset within it. -/
def urlEnd (bs : List UInt8) (i : Nat) : Nat :=
  match _h : bs[i]? with
  | none => bs.length
  | some b =>
    if Char.ofUInt8 b = '"' ∨ Char.ofUInt8 b = '\'' then urlEnd bs (quotedEnd bs b (i + 1))
    else if Char.ofUInt8 b = '\\' then urlEnd bs (i + 2)
    else if Char.ofUInt8 b = ')' then i + 1
    else urlEnd bs (i + 1)
termination_by bs.length - i
decreasing_by
  all_goals
    have hlt := (List.getElem?_eq_some_iff.1 _h).1
  · have hlater := lt_quotedEnd hlt b
    omega
  · omega
  · omega

/-- A reference ends with a bracket, or where the text ends. -/
theorem urlEnd_eq (bs : List UInt8) (i : Nat) :
    urlEnd bs i = bs.length ∨
      ∃ j b, i ≤ j ∧ bs[j]? = some b ∧ Char.ofUInt8 b = ')' ∧ urlEnd bs i = j + 1 := by
  fun_induction urlEnd bs i with
  | case1 => exact .inl rfl
  | case4 i b hb hquote hbackslash hclose => exact .inr ⟨i, b, Nat.le_refl i, hb, hclose, rfl⟩
  | case2 i b hb hquote ih =>
    have hlater := lt_quotedEnd (List.getElem?_eq_some_iff.1 hb).1 b
    refine ih.imp_right ?_
    rintro ⟨j, d, hle, hj⟩
    exact ⟨j, d, by omega, hj⟩
  | case3 _ _ _ _ _ ih | case5 _ _ _ _ _ _ ih =>
    refine ih.imp_right ?_
    rintro ⟨j, d, hle, hj⟩
    exact ⟨j, d, by omega, hj⟩

/-- Whether a reference opens at an offset. -/
def isUrlOpen (bs : List UInt8) (i : Nat) : Bool :=
  opensUrl (if i = 0 then none else bs[i - 1]?.map Char.ofUInt8)
    (((bs.drop i).take 4).map Char.ofUInt8)

/-- The end of a literal that opens at an offset. -/
def literalEnd? (bs : List UInt8) (i : Nat) : Option Nat :=
  match bs[i]? with
  | none => none
  | some b =>
    if Char.ofUInt8 b = '"' ∨ Char.ofUInt8 b = '\'' then some (quotedEnd bs b (i + 1))
    else if isUrlOpen bs i then some (urlEnd bs (i + 4))
    else none

theorem lt_of_literalEnd? {bs : List UInt8} {i stop : Nat} (h : literalEnd? bs i = some stop) :
    i < stop := by
  rw [literalEnd?] at h
  split at h
  · cases h
  · next b hb =>
    have hlt := (List.getElem?_eq_some_iff.1 hb).1
    split_ifs at h with hquote hurl
    · cases h
      exact lt_quotedEnd hlt b
    · cases h
      rcases urlEnd_eq bs (i + 4) with heq | ⟨j, b, hle, -, -, heq⟩ <;> omega

/-! ## Readers -/

theorem length_lt_of_sliceFrom? {s t : List Char} {i : Nat} (hi : 0 < i)
    (h : sliceFrom? s i = some t) : t.length < s.length := by
  obtain ⟨p, rfl, rfl⟩ := Text.sliceFrom?_eq_some_iff.1 h
  cases p with
  | nil => exact absurd hi (Nat.lt_irrefl 0)
  | cons c p =>
    rw [List.length_append, List.length_cons]
    omega

/-- The offset of the first occurrence of a text. -/
def find? (pattern : List Char) : List Char → Option Nat
  | [] => if pattern = [] then some 0 else none
  | c :: s =>
    if pattern.isPrefixOf (c :: s) then some 0
    else (find? pattern s).map fun i => c.utf8Size + i

/-- A text without its comments, from outside strings or from within one of the given quote. -/
def stripFrom? (quote : Option Char) (s : List Char) : Option (List Char) :=
  match s.head? with
  | none => some []
  | some c =>
    match quote with
    | some q =>
      match _h : sliceFrom? s c.utf8Size with
      | none => none
      | some behind =>
        if c = '\\' then
          match behind.head? with
          | none => (stripFrom? quote behind).map (c :: ·)
          | some d =>
            match _h' : sliceFrom? behind d.utf8Size with
            | none => none
            | some behind => (stripFrom? quote behind).map (c :: d :: ·)
        else (stripFrom? (if c = q then none else quote) behind).map (c :: ·)
    | none =>
      if "/*".toList.isPrefixOf s then
        match (sliceFrom? s 2).map (find? "*/".toList) with
        | none => none
        | some none => some []
        | some (some i) =>
          match _h : sliceFrom? s (2 + i + 2) with
          | none => none
          | some behind => stripFrom? none behind
      else
        match _h : sliceFrom? s c.utf8Size with
        | none => none
        | some behind =>
          (stripFrom? (if c = '"' ∨ c = '\'' then some c else none) behind).map (c :: ·)
termination_by s.length
decreasing_by
  · exact length_lt_of_sliceFrom? c.utf8Size_pos _h
  · exact Nat.lt_trans (length_lt_of_sliceFrom? d.utf8Size_pos _h')
      (length_lt_of_sliceFrom? c.utf8Size_pos _h)
  · exact length_lt_of_sliceFrom? c.utf8Size_pos _h
  · exact length_lt_of_sliceFrom? (by omega) _h
  · exact length_lt_of_sliceFrom? c.utf8Size_pos _h

/-- The parts of a text between the separators that stand bare and outside brackets, from an offset
on. -/
def splitTopLevel? (source : List Char) (separator : Char) (start : Nat) :
    Option (List (List Char)) :=
  match _h : findTopLevel source [separator] start with
  | none => (sliceFrom? source start).map ([·])
  | some i => do
    let part ← slice? source start i
    let parts ← splitTopLevel? source separator (i + 1)
    some (part :: parts)
termination_by size source - start
decreasing_by
  obtain ⟨hle, b, hb, -⟩ := of_findTopLevel_eq_some _h
  have hlt : i < size source := (List.getElem?_eq_some_iff.1 hb).1
  omega

/-- The declarations of a block. -/
def declarationsFrom? (body : List Char) : Option (List Declaration) :=
  (splitTopLevel? body ';' 0).map (List.filterMap declaration?)

/-- The selectors of a prelude, without blank ones. -/
def selectorsFrom? (prelude : List Char) : Option (List String) :=
  (splitTopLevel? prelude ',' 0).map fun parts =>
    ((parts.map Text.trim).filter fun s => !s.isEmpty).map String.ofList

/-- The offset of the first byte that is no white space. -/
def skipSpaces (bs : List UInt8) (i : Nat) : Nat :=
  match _h : bs[i]? with
  | none => i
  | some b => if Text.isAsciiSpace (Char.ofUInt8 b) then skipSpaces bs (i + 1) else i
termination_by bs.length - i
decreasing_by
  have hlt := (List.getElem?_eq_some_iff.1 _h).1
  omega

theorem le_skipSpaces (bs : List UInt8) (i : Nat) : i ≤ skipSpaces bs i := by
  fun_induction skipSpaces bs i <;> omega

/-- The rule of an item, if it is one. -/
def Item.rule? : Item → Option Rule
  | .rule r => some r
  | _ => none

/-- The item of a block, if it has a meaning, given the items within its body. -/
def blockItem? (prelude body : List Char) (nested : Option (List Item)) : Option (Option Item) :=
  if isAtRule prelude then
    match readMinWidth prelude with
    | some width => nested.map fun items => some (.media width (items.filterMap Item.rule?))
    | none => some (some (.verbatim (String.ofList (prelude ++ '{' :: Text.trim body ++ ['}']))))
  else if prelude = [] then some none
  else do
    let selectors ← selectorsFrom? prelude
    let declarations ← declarationsFrom? body
    some (some (.rule ⟨selectors, declarations⟩))

/-- The items of a text without comments, from an offset on. -/
def itemsFrom? (source : List Char) (pos : Nat) : Option (List Item) :=
  match _hopen : findTopLevel source ['{', ';'] (skipSpaces (bytes source) pos) with
  | none => some []
  | some i =>
    match slice? source (skipSpaces (bytes source) pos) i with
    | none => none
    | some before =>
      if (bytes source)[i]? = some ';'.toUInt8 then
        (itemsFrom? source (i + 1)).map ((Piece.item? (.statement (Text.trim before))).toList ++ ·)
      else
        match _hclose : findBlockEnd source i with
        | none => some []
        | some j =>
          match _hbody : slice? source (i + 1) j with
          | none => none
          | some body => do
            let item ← blockItem? (Text.trim before) body (itemsFrom? body 0)
            let items ← itemsFrom? source (j + 1)
            some (item.toList ++ items)
termination_by (size source, size source - pos)
decreasing_by
  all_goals
    have hskip := le_skipSpaces (bytes source) pos
    obtain ⟨hle, b, hb, -⟩ := of_findTopLevel_eq_some _hopen
    have hlt : i < size source := (List.getElem?_eq_some_iff.1 hb).1
  · exact Prod.Lex.right _ (by omega)
  · obtain ⟨p, q, hs, hp, -⟩ := Text.slice?_eq_some_iff.1 _hbody
    refine Prod.Lex.left _ _ ?_
    rw [← hs, Text.size_append, Text.size_append]
    omega
  · obtain ⟨hle', b, hb', -⟩ := of_findBlockEnd_eq_some _hclose
    have hlt' : j < size source := (List.getElem?_eq_some_iff.1 hb').1
    exact Prod.Lex.right _ (by omega)

/-- A text with percentages from an offset on, of which the plain text at hand starts at another. -/
def percentagesFrom? (s : List Char) (start i : Nat) : Option (List Char) :=
  if i < size s then
    match _h : literalEnd? (bytes s) i with
    | none => percentagesFrom? s start (i + 1)
    | some stop => do
      let plain ← slice? s start i
      let literal ← slice? s i stop
      let rest ← percentagesFrom? s stop stop
      some (percentPlain plain ++ literal ++ rest)
  else (sliceFrom? s start).map percentPlain
termination_by size s - i
decreasing_by
  · omega
  · have hlater := lt_of_literalEnd? _h
    omega

/-! ## Whole texts -/

def sheetInPlace? (text : String) : Option Sheet := do
  let source ← stripFrom? none text.toList
  let items ← itemsFrom? source 0
  some ⟨items⟩

def declarationsInPlace? (body : String) : Option (List Declaration) :=
  declarationsFrom? body.toList

def percentagesInPlace? (s : String) : Option String :=
  (percentagesFrom? s.toList 0 0).map String.ofList

end Pane.Style
