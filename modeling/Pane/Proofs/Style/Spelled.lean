import Pane.Proofs.Style.Hashes
import Pane.Proofs.Style.Interchangeable

/-!
# The spellings of a class name

A style text may spell a class name in many ways: each character as it is, if names may hold it,
behind a backslash, if it is no hexadecimal digit, or as the digits of its code point.  Behind the
digits one space belongs to the escape, and it may be left out where the escape ends without it.
What a spelling may be thus depends on the character that follows, be it of the name or of the
suffix.

**The notation.**  `IsCode` — the digits of a code point.  `Spells` — a text that spells a name in
front of a suffix, one rule for each way of spelling a character.

**Reading.**  `readName_done`, `readName_digits`, `readName_code_space` and `readName_code_end` —
what an escape comes to, and where it ends.  **`readName_of_spells`** — a spelling is read as the
name.

**Trimming.**  `Spells.trimEnd` — without the spaces at its end a spelling is a spelling still: only
a space behind digits can be lost.

**Result.**  **`Registry.spellings_name_one_class`**.
-/

namespace Pane.Style

/-! ## The notation -/

/-- One to six hexadecimal digits, in either case and with zeros in front or not, that are the code
point of a character. -/
structure IsCode (digits : List Char) (c : Char) : Prop where
  ne_nil : digits ≠ []
  length_le : digits.length ≤ 6
  isHexDigit : digits.all Text.isHexDigit = true
  value : Text.hexadecimalValue digits = c.toNat

instance (digits : List Char) (c : Char) : Decidable (IsCode digits c) :=
  decidable_of_iff (digits ≠ [] ∧ digits.length ≤ 6 ∧ digits.all Text.isHexDigit = true ∧
      Text.hexadecimalValue digits = c.toNat)
    ⟨fun ⟨hne, hlength, hdigits, hvalue⟩ => ⟨hne, hlength, hdigits, hvalue⟩,
      fun h => ⟨h.ne_nil, h.length_le, h.isHexDigit, h.value⟩⟩

/-- Whether the digits of a code point end where another text begins, without a space between. -/
def EndsCode (digits rest : List Char) : Prop :=
  rest.head? ≠ some ' ' ∧ (digits.length = 6 ∨ ∀ d ∈ rest.head?, Text.isHexDigit d = false)

/-- The texts that spell a class name in front of a suffix, character by character. -/
inductive Spells (suffix : List Char) : List Char → List Char → Prop
  | nil : Spells suffix [] []
  /-- A letter, a digit, a hyphen, an underscore or a character beyond ASCII as it is. -/
  | plain {c : Char} {name text : List Char} (hc : isNameChar c = true)
      (h : Spells suffix name text) : Spells suffix (c :: name) (c :: text)
  /-- A character behind a backslash. -/
  | escaped {c : Char} {name text : List Char} (hc : Text.isHexDigit c = false)
      (h : Spells suffix name text) : Spells suffix (c :: name) ('\\' :: c :: text)
  /-- A code point with a space behind it. -/
  | code {c : Char} {digits name text : List Char} (hdigits : IsCode digits c)
      (h : Spells suffix name text) : Spells suffix (c :: name) ('\\' :: (digits ++ ' ' :: text))
  /-- A code point without one, where it ends all the same. -/
  | openCode {c : Char} {digits name text : List Char} (hdigits : IsCode digits c)
      (hend : EndsCode digits (text ++ suffix)) (h : Spells suffix name text) :
      Spells suffix (c :: name) ('\\' :: (digits ++ text))

/-! ## Reading -/

theorem charOfCode_toNat (c : Char) : charOfCode c.toNat = c := by
  have hvalid : c.toNat.isValidChar := c.valid
  have hself := Char.ofNat_toNat c
  rw [Char.ofNat, dif_pos hvalid] at hself
  rw [charOfCode, dif_pos hvalid, hself]

/-- Behind an escape that is complete the name goes on with what it spells. -/
theorem readName_done (c : Char) (s : List Char) :
    readName (.done c) s = (readName .plain s).map fun (name, rest) => (c :: name, rest) := by
  cases s with
  | nil => rfl
  | cons d s =>
    simp only [readName, Spelling.absorb, Spelling.spelled]
    split
    · cases readName .backslash s <;> rfl
    · split
      · cases readName .plain s <;> rfl
      · rfl

theorem readName_backslash (s : List Char) :
    readName .plain ('\\' :: s) = readName .backslash s := by
  simp only [readName, Spelling.absorb, Spelling.spelled, if_true, List.nil_append]
  exact Option.map_id'

theorem readName_escaped {c : Char} (hc : Text.isHexDigit c = false) (s : List Char) :
    readName .backslash (c :: s) = readName (.done c) s := by
  simp [readName, Spelling.absorb, hc]

/-- Digits add to the code point as long as there is room. -/
theorem readName_digits {digits : List Char} {room : Nat} (hlength : digits.length ≤ room)
    (hdigits : ∀ d ∈ digits, Text.isHexDigit d = true) (value : Nat) (s : List Char) :
    readName (.code value room) (digits ++ s) =
      readName (.code (digits.foldl (fun n d => 16 * n + Text.hexValue d) value)
        (room - digits.length)) s := by
  induction digits generalizing value room with
  | nil => rfl
  | cons d digits ih =>
    obtain ⟨hd, hdigits⟩ := List.forall_mem_cons.1 hdigits
    rw [List.length_cons] at hlength
    have hroom : room - 1 - digits.length = room - (digits.length + 1) := by omega
    have hstep : (Spelling.code value room).absorb d =
        some (.code (16 * value + Text.hexValue d) (room - 1)) := by
      rw [Spelling.absorb, if_pos ⟨by omega, hd⟩]
    rw [List.cons_append, readName, hstep, List.foldl_cons, List.length_cons, ← hroom]
    exact ih (by omega) hdigits _

/-- A space behind digits ends the escape and belongs to it. -/
theorem readName_code_space (value room : Nat) (s : List Char) :
    readName (.code value room) (' ' :: s) = readName (.done (charOfCode value)) s := by
  have hspace : Text.isHexDigit ' ' = false := by decide
  simp [readName, Spelling.absorb, hspace]

/-- The escape also ends where neither a space follows nor a digit that it has room for. -/
theorem readName_code_end {value room : Nat} {s : List Char} (hspace : s.head? ≠ some ' ')
    (hdigit : room = 0 ∨ ∀ d ∈ s.head?, Text.isHexDigit d = false) :
    readName (.code value room) s = readName (.done (charOfCode value)) s := by
  cases s with
  | nil => rfl
  | cons d s =>
    have hd : d ≠ ' ' := fun he => hspace (congrArg some he)
    have hstop : ¬(0 < room ∧ Text.isHexDigit d = true) := by
      rintro ⟨hroom, hhex⟩
      rcases hdigit with rfl | hdigit
      · omega
      · rw [hdigit d rfl] at hhex
        cases hhex
    simp [readName, Spelling.absorb, hstop, hd, Spelling.spelled]

/-- **The digits of a code point are read as its character**, up to where they end. -/
theorem readName_code {c : Char} {digits : List Char} (h : IsCode digits c) (s : List Char) :
    readName .plain ('\\' :: (digits ++ s)) = readName (.code c.toNat (6 - digits.length)) s := by
  obtain ⟨hne, hlength, hdigits, hvalue⟩ := h
  cases digits with
  | nil => exact absurd rfl hne
  | cons d digits =>
    obtain ⟨hd, hmore⟩ := List.forall_mem_cons.1 (List.all_eq_true.1 hdigits)
    rw [List.length_cons] at hlength ⊢
    have hfirst : Spelling.backslash.absorb d = some (.code (Text.hexValue d) 5) := by
      rw [Spelling.absorb, if_pos hd]
    have hroom : 5 - digits.length = 6 - (digits.length + 1) := by omega
    rw [readName_backslash, List.cons_append, readName, hfirst]
    dsimp only
    rw [readName_digits (by omega) hmore, hroom, ← hvalue, Text.hexadecimalValue, List.foldl_cons]
    simp

/-- **A spelling is read as the name**, and the suffix is what is left. -/
theorem readName_of_spells {suffix name text : List Char} (hsuffix : EndsName suffix)
    (h : Spells suffix name text) : readName .plain (text ++ suffix) = some (name, suffix) := by
  induction h with
  | nil => exact readName_append (List.forall_mem_nil _) hsuffix
  | @plain c name text hc h ih =>
    have hbackslash : c ≠ '\\' := by
      rintro rfl
      exact absurd hc (by decide)
    simp [readName, Spelling.absorb, Spelling.spelled, hbackslash, hc, ih]
  | @escaped c name text hc h ih =>
    rw [List.cons_append, List.cons_append, readName_backslash, readName_escaped hc, readName_done,
      ih]
    rfl
  | @code c digits name text hdigits h ih =>
    rw [List.cons_append, List.append_assoc, List.cons_append, readName_code hdigits,
      readName_code_space, charOfCode_toNat, readName_done, ih]
    rfl
  | @openCode c digits name text hdigits hend h ih =>
    have hroom : 6 - digits.length = 0 ∨
        ∀ d ∈ (text ++ suffix).head?, Text.isHexDigit d = false := by
      rcases hend.2 with hlength | hdigit
      · exact .inl (by omega)
      · exact .inr hdigit
    rw [List.cons_append, List.append_assoc, readName_code hdigits,
      readName_code_end hend.1 hroom, charOfCode_toNat, readName_done, ih]
    rfl

/-! ## Trimming -/

theorem trimEnd_append_digits {digits : List Char}
    (hdigits : ∀ d ∈ digits, Text.isHexDigit d = true) (s : List Char) :
    Text.trimEnd (digits ++ s) = digits ++ Text.trimEnd s := by
  induction digits with
  | nil => rfl
  | cons d digits ih =>
    obtain ⟨hd, hdigits⟩ := List.forall_mem_cons.1 hdigits
    rw [List.cons_append, Text.trimEnd_cons (Text.isSpace_of_isHexDigit hd), ih hdigits,
      List.cons_append]

/-- Where digits end in front of a text they end in front of it without the spaces at its end. -/
theorem EndsCode.trimEnd {digits text : List Char} (h : EndsCode digits text) :
    EndsCode digits (Text.trimEnd text) := by
  have hhead : ∀ c ∈ (Text.trimEnd text).head?, c ∈ text.head? := by
    obtain ⟨r, hr, -⟩ := Text.exists_trimEnd text
    intro c hc
    rw [hr, List.head?_append, Option.mem_def.1 hc]
    rfl
  exact ⟨fun hspace => h.1 (hhead _ hspace), h.2.imp_right fun hno d hd => hno d (hhead d hd)⟩

/-- **A spelling without the spaces at its end** is a spelling of the name, if the name has none. -/
theorem Spells.trimEnd {name text : List Char} (hname : ∀ c ∈ name, Text.isSpace c = false)
    (h : Spells [] name text) : Spells [] name (Text.trimEnd text) := by
  have hbackslash : Text.isSpace '\\' = false := by decide
  induction h with
  | nil => exact .nil
  | plain hc h ih =>
    obtain ⟨hspace, hname⟩ := List.forall_mem_cons.1 hname
    rw [Text.trimEnd_cons hspace]
    exact .plain hc (ih hname)
  | escaped hc h ih =>
    obtain ⟨hspace, hname⟩ := List.forall_mem_cons.1 hname
    rw [Text.trimEnd_cons hbackslash, Text.trimEnd_cons hspace]
    exact .escaped hc (ih hname)
  | @code c digits name text hdigits h ih =>
    have ih := ih (List.forall_mem_cons.1 hname).2
    have hhex := List.all_eq_true.1 hdigits.isHexDigit
    rw [Text.trimEnd_cons hbackslash, trimEnd_append_digits hhex,
      Text.trimEnd_space_cons (by decide)]
    split
    · -- the space was the last character, and nothing follows the digits any more
      next hnil =>
      rw [hnil] at ih
      exact .openCode hdigits ⟨by simp, .inr (by simp)⟩ ih
    · exact .code hdigits ih
  | @openCode c digits name text hdigits hend h ih =>
    have ih := ih (List.forall_mem_cons.1 hname).2
    have hhex := List.all_eq_true.1 hdigits.isHexDigit
    rw [Text.trimEnd_cons hbackslash, trimEnd_append_digits hhex]
    rw [List.append_nil] at hend
    exact .openCode hdigits (by simpa using hend.trimEnd) ih

/-! ## Selectors -/

/-- What may stand behind a class name: nothing, or a text that begins with a character which ends
the name and does not end in a space. -/
structure IsSuffix (suffix : List Char) : Prop where
  ends_name : EndsName suffix
  no_space : ∀ c ∈ suffix.getLast?, Text.isSpace c = false

/-- **A spelling is read as the name of its class**, and what stands behind it as the suffix. -/
theorem ClassSelector.read?_of_spells {name text suffix : String} (hhyphen : name ≠ "-")
    (hname : Text.IsToken Text.isSpace name.toList) (hsuffix : IsSuffix suffix.toList)
    (h : Spells suffix.toList name.toList text.toList) :
    read? ("." ++ text ++ suffix) = some ⟨name, suffix⟩ := by
  have htrimmed : Text.trimEnd suffix.toList = suffix.toList :=
    Text.trimEnd_eq_self hsuffix.no_space
  have hread : readName .plain (Text.trimEnd (text.toList ++ suffix.toList)) =
      some (name.toList, suffix.toList) := by
    by_cases hnil : suffix.toList = []
    · rw [hnil] at h ⊢
      have hnothing : EndsName [] := by simp [EndsName]
      have hspells := readName_of_spells hnothing (h.trimEnd hname.2)
      simpa using hspells
    · rw [Text.trimEnd_append hnil htrimmed]
      exact readName_of_spells hsuffix.ends_name h
  have hchars : Text.trim ("." ++ text ++ suffix).toList =
      '.' :: Text.trimEnd (text.toList ++ suffix.toList) := by
    have hdot : Text.isSpace '.' = false := by decide
    simp only [String.toList_append, List.append_assoc]
    exact (congrArg Text.trimEnd (Text.trimStart_cons hdot)).trans (Text.trimEnd_cons hdot _)
  have hnot : ¬(name.toList = [] ∨ name.toList = ['-']) := by
    rintro (hnil | hlone)
    · exact hname.1 hnil
    · exact hhyphen (String.toList_inj.1 hlone)
  simp only [read?, readChars?, hchars, hread, if_neg hnot, htrimmed, String.ofList_toList]

/-- What is registered under a class selector is listed under the name of its class. -/
theorem Registry.mem_hashesOf_register {r : Registry} {selector body hash : String}
    {width : Option UInt32} {s : ClassSelector} (hs : ClassSelector.read? selector = some s)
    (h : (r.register selector body width).1 = some hash) :
    hash ∈ (r.register selector body width).2.hashesOf s.name := by
  obtain ⟨p, hp, rfl, hregistry⟩ := of_register_eq_some h
  have hname : p.name = some s.name := by
    simp only [Registration.ofClass?, hs] at hp
    split at hp
    · cases hp
    · obtain rfl := Option.some.inj hp
      rfl
  rw [hregistry]
  exact (r.settled_enter p).indexed s.name hname

/-- **All spellings name one class.**  Take a class name without spaces, other than a lone hyphen,
and a suffix.  Every text that spells the name in front of the suffix is read, in a class selector,
as this name and this suffix.  So two spellings share what is registered under them: in any registry
a block is given the same hash under the one and the other, and leads to the same registry, it
changes nothing to register it under the other afterwards, and the hash is listed under the name. -/
theorem Registry.spellings_name_one_class {name suffix : String}
    (hname : Text.IsToken Text.isSpace name.toList) (hhyphen : name ≠ "-")
    (hsuffix : IsSuffix suffix.toList) :
    (∀ text : String, Spells suffix.toList name.toList text.toList →
      ClassSelector.read? ("." ++ text ++ suffix) = some ⟨name, suffix⟩) ∧
    ∀ text text' : String, Spells suffix.toList name.toList text.toList →
      Spells suffix.toList name.toList text'.toList →
      ∀ (r : Registry) (body : String) (width : Option UInt32),
        let selector := "." ++ text ++ suffix
        let selector' := "." ++ text' ++ suffix
        r.register selector' body width = r.register selector body width ∧
        (r.register selector body width).2.register selector' body width =
          r.register selector body width ∧
        ∀ hash, (r.register selector body width).1 = some hash →
          hash ∈ (r.register selector body width).2.hashesOf name := by
  have hread : ∀ text : String, Spells suffix.toList name.toList text.toList →
      ClassSelector.read? ("." ++ text ++ suffix) = some ⟨name, suffix⟩ := by
    intro text htext
    exact ClassSelector.read?_of_spells hhyphen hname hsuffix htext
  refine ⟨hread, ?_⟩
  intro text text' htext htext' r body width selector selector'
  have hsame : ClassSelector.read? selector' = ClassSelector.read? selector :=
    (hread text' htext').trans (hread text htext).symm
  refine ⟨?_, register_register hsame rfl r width, ?_⟩
  · simp only [register, registerDeclarations, hsame]
  · intro hash hhash
    exact mem_hashesOf_register (hread text htext) hhash

/-- A digit at the start of a name, a colon and a letter beyond ASCII, in front of a space: the
first spelling leaves the letter as it is, the second gives code points only, of which the first one
has six digits and the last one needs its space. -/
theorem Registry.two_spellings_name_one_class :
    Spells " > b".toList "1:é".toList "\\31 \\:é".toList ∧
      Spells " > b".toList "1:é".toList "\\000031\\3A \\E9 ".toList ∧
      ClassSelector.read? ("." ++ "\\000031\\3A \\E9 " ++ " > b") = some ⟨"1:é", " > b"⟩ ∧
      (empty true).register ("." ++ "\\000031\\3A \\E9 " ++ " > b") "color:red" none =
        (empty true).register ("." ++ "\\31 \\:é" ++ " > b") "color:red" none := by
  have hname : Text.IsToken Text.isSpace "1:é".toList := ⟨by simp, by simp [Text.isSpace]⟩
  have hsuffix : IsSuffix " > b".toList := by
    constructor <;>
    · intro c hc
      obtain rfl := Option.some.inj hc
      decide
  have hone : IsCode ['3', '1'] '1' := by decide
  have hone' : IsCode ['0', '0', '0', '0', '3', '1'] '1' := by decide
  have hcolon : IsCode ['3', 'A'] ':' := by decide
  have hletter : IsCode ['E', '9'] 'é' := by decide
  have hfirst : Spells " > b".toList "1:é".toList "\\31 \\:é".toList :=
    .code hone (.escaped (by decide) (.plain (by decide) .nil))
  have hsecond : Spells " > b".toList "1:é".toList "\\000031\\3A \\E9 ".toList :=
    .openCode hone' ⟨by decide, .inl rfl⟩ (.code hcolon (.code hletter .nil))
  obtain ⟨hread, hshared⟩ := spellings_name_one_class hname (by decide) hsuffix
  exact ⟨hfirst, hsecond, hread _ hsecond, (hshared _ _ hfirst hsecond _ _ _).1⟩

end Pane.Style
