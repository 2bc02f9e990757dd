import Pane.Proofs.Style.Replaced

/-!
# References that are turned in their place

A background is turned to another address where it is read.  The first declaration that shows an
address is the one that is changed, and of its value the reference alone.  What is around the
reference is its *place*, and the declarations are this place with a reference in it, the old one
before and the new one afterwards.

The new reference is in double quotes, so it ends where it should whatever its address is, and is
read from the same place if nothing in front of it begins like a reference.  With `url(` in front
the old reference may have been the first one and the new one not.

**Addresses.**  `encodedAddress` — an address in double quotes.  `trimmed?_encodedAddress` — its
spaces at the ends are those of the address.  **`findUrl?_urlReference`** — it is found where it was
put.

**Places.**  `Declaration.Shows` — what a declaration shows.  `ValuePlace`, `ValuePlace.Shows` — a
place, and that a reference shows its address from there.  **`backgroundUrl?_eq_some_iff`** — there
is such a place if an address is read.  `ValuePlace.Shows.replaceBackground?_fill` — the reference
is turned there.  `ValuePlace.Shows.turned` — the new one shows its address from there too.

**Result.**  **`background_is_turned_where_it_is_shown`**.
-/

namespace Pane.Style

/-! ## Addresses in double quotes -/

/-- A character of an address in double quotes, where a quote is written by its code. -/
def encodedChar (c : Char) : List Char := if c = '"' then "%22".toList else [c]

/-- An address as it stands in double quotes. -/
def encodedAddress (address : String) : String := String.ofList (address.toList.flatMap encodedChar)

theorem toList_encodedAddress (address : String) :
    (encodedAddress address).toList = address.toList.flatMap encodedChar :=
  String.toList_ofList

theorem not_mem_encodedAddress (address : String) : '"' ∉ (encodedAddress address).toList := by
  rw [toList_encodedAddress, List.mem_flatMap]
  rintro ⟨c, -, hc⟩
  rw [encodedChar] at hc
  split at hc
  · exact absurd hc (by decide)
  · next hne => exact hne (List.mem_singleton.1 hc).symm

/-- What is encoded is written as it is. -/
theorem urlReference_encodedAddress (address : String) :
    urlReference (encodedAddress address) = urlReference address := by
  rw [urlReference_eq (not_mem_encodedAddress address), toList_encodedAddress]
  show _ = "url(\"".toList ++ address.toList.flatMap encodedChar ++ "\")".toList
  simp

/-- Encoding an address leaves the spaces at its ends as they are. -/
theorem trimmed?_encodedAddress (address : String) :
    Text.trimmed? (encodedAddress address) = (Text.trimmed? address).map encodedAddress := by
  have hspace : ∀ c, Text.isSpace c = true → encodedChar c = [c] := by
    rintro c hc
    rw [encodedChar, if_neg]
    rintro rfl
    exact absurd hc (by decide)
  have hother : ∀ c, Text.isSpace c = false →
      encodedChar c ≠ [] ∧ ∀ d ∈ encodedChar c, Text.isSpace d = false := by
    intro c hc
    rw [encodedChar]
    split
    · simp [Text.isSpace]
    · simp [hc]
  have htrim : Text.trimmed (encodedAddress address) = encodedAddress (Text.trimmed address) := by
    simp only [Text.trimmed, encodedAddress, String.toList_ofList, Text.trim_flatMap hspace hother]
  have hempty : ∀ s : String, encodedAddress s = "" ↔ s = "" := by
    intro s
    have hne : ∀ c, encodedChar c ≠ [] := by
      intro c
      rw [encodedChar]
      split <;> simp
    rw [← String.toList_eq_nil_iff, toList_encodedAddress, List.flatMap_eq_nil_iff,
      ← String.toList_eq_nil_iff, List.eq_nil_iff_forall_not_mem]
    simp only [hne, imp_false]
  simp only [Text.trimmed?, htrim, hempty]
  split <;> rfl

/-- **A reference that is put in place is found there** if nothing in front begins like one. -/
theorem findUrl?_urlReference {before : List Char} (h : ¬"url(".toList <:+: before)
    (address : String) (rest : List Char) : findUrl? (before ++ (urlReference address ++ rest)) =
      some ⟨before, (encodedAddress address).toList, rest⟩ := by
  have hencoded := not_mem_encodedAddress address
  rw [← urlReference_encodedAddress]
  induction before with
  | nil => exact findUrl?_of_urlAt? (urlAt?_urlReference hencoded rest)
  | cons c before ih =>
    have hfront : ∀ back, c :: before ≠ "url(".toList ++ back :=
      fun back hback => h ⟨[], back, by rw [hback]; rfl⟩
    have hnone :
        urlAt? (c :: before ++ (urlReference (encodedAddress address) ++ rest)) = none := by
      rw [urlReference_eq hencoded, List.append_assoc, urlAt?,
        dropFront?_front (List.cons_ne_nil c before) hfront]
      rfl
    rw [List.cons_append] at hnone ⊢
    rw [findUrl?, hnone, ih fun hinfix => h (List.infix_cons hinfix)]
    rfl

/-! ## Declarations -/

/-- A declaration shows an address: it is a background, and the first reference of its value has the
address in it. -/
structure Declaration.Shows (d : Declaration) (m : UrlMatch) (reference : List Char)
    (address : String) : Prop where
  background : isBackground d.property = true
  found : m.Found d.value.toList reference
  trimmed : Text.trimmed? (String.ofList m.address) = some address

theorem Declaration.backgroundUrl?_eq_some_iff {d : Declaration} {address : String} :
    d.backgroundUrl? = some address ↔ ∃ m reference, d.Shows m reference address := by
  constructor
  · intro h
    rw [backgroundUrl?] at h
    split at h
    · next hbackground =>
      rw [urlOf?] at h
      split at h
      · next m hm =>
        obtain ⟨reference, hfound⟩ := findUrl?_eq_some_iff.1 hm
        exact ⟨m, reference, hbackground, hfound, h⟩
      · cases h
    · cases h
  · rintro ⟨m, reference, hbackground, hfound, htrimmed⟩
    rw [backgroundUrl?, if_pos hbackground, urlOf?, findUrl?_eq_some_iff.2 ⟨reference, hfound⟩]
    exact htrimmed

theorem Declaration.backgroundUrl?_eq_none_iff {d : Declaration} :
    d.backgroundUrl? = none ↔ ∀ m reference address, ¬d.Shows m reference address := by
  rw [Option.eq_none_iff_forall_ne_some]
  simp only [ne_eq, backgroundUrl?_eq_some_iff, not_exists]
  exact ⟨fun h m reference address => h address m reference,
    fun h address m reference => h m reference address⟩

/-- Where a stretch of a value stands in a list of declarations: what is in front of it, and what is
behind. -/
structure ValuePlace where
  front : List Declaration
  property : String
  before : List Char
  rest : List Char
  back : List Declaration

namespace ValuePlace

/-- The declaration with a text in the place. -/
def declaration (p : ValuePlace) (text : List Char) : Declaration :=
  ⟨p.property, String.ofList (p.before ++ (text ++ p.rest))⟩

/-- The declarations with a text in the place. -/
def fill (p : ValuePlace) (text : List Char) : List Declaration :=
  p.front ++ p.declaration text :: p.back

/-- A reference shows its address from a place: it is what the declaration shows, and no declaration
in front of that one shows any. -/
structure Shows (p : ValuePlace) (reference : List Char) (address : String) : Prop where
  here : ∃ inner, (p.declaration reference).Shows ⟨p.before, inner, p.rest⟩ reference address
  first : ∀ d ∈ p.front, ∀ m t a, ¬d.Shows m t a

theorem shows_iff {p : ValuePlace} {reference : List Char} {address : String} :
    p.Shows reference address ↔
      (isBackground p.property = true ∧ ∃ m ∈ findUrl? (p.before ++ (reference ++ p.rest)),
        m.before = p.before ∧ m.rest = p.rest ∧
          Text.trimmed? (String.ofList m.address) = some address) ∧
      ∀ d ∈ p.front, d.backgroundUrl? = none := by
  constructor
  · rintro ⟨⟨inner, hbackground, hfound, htrimmed⟩, hfirst⟩
    rw [UrlMatch.found_iff, declaration, String.toList_ofList] at hfound
    exact ⟨⟨hbackground, _, hfound.2, rfl, rfl, htrimmed⟩,
      fun d hd => Declaration.backgroundUrl?_eq_none_iff.2 (hfirst d hd)⟩
  · rintro ⟨⟨hbackground, ⟨before, inner, rest⟩, hm, rfl, rfl, htrimmed⟩, hfirst⟩
    refine ⟨⟨inner, hbackground, ?_, htrimmed⟩,
      fun d hd => Declaration.backgroundUrl?_eq_none_iff.1 (hfirst d hd)⟩
    rw [UrlMatch.found_iff, declaration, String.toList_ofList]
    exact ⟨rfl, hm⟩

instance (p : ValuePlace) (reference : List Char) (address : String) :
    Decidable (p.Shows reference address) :=
  decidable_of_iff _ shows_iff.symm

variable {p : ValuePlace} {reference : List Char} {address : String}

theorem Shows.backgroundUrl?_fill (h : p.Shows reference address) :
    backgroundUrl? (p.fill reference) = some address := by
  obtain ⟨⟨inner, hhere⟩, hfirst⟩ := h
  have hfront : p.front.findSome? Declaration.backgroundUrl? = none :=
    List.findSome?_eq_none_iff.2 fun d hd => Declaration.backgroundUrl?_eq_none_iff.2 (hfirst d hd)
  have hshown := Declaration.backgroundUrl?_eq_some_iff.2 ⟨_, reference, hhere⟩
  rw [backgroundUrl?, fill, List.findSome?_append, hfront, List.findSome?_cons, hshown]
  rfl

/-- **The reference is turned in its place**, and everything around it stays. -/
theorem Shows.replaceBackground?_fill (h : p.Shows reference address) (url : String) :
    replaceBackground? url (p.fill reference) = some (p.fill (urlReference url)) := by
  obtain ⟨⟨inner, hhere⟩, hfirst⟩ := h
  rw [replaceBackground?_eq_replaceFirst?]
  refine replaceFirst?_of_front (fun d hd => ?_) ?_
  · rw [Declaration.backgroundUrl?_eq_none_iff.2 (hfirst d hd)]
    rfl
  · have hfind := findUrl?_eq_some_iff.2 ⟨reference, hhere.found⟩
    have hvalue : replaceUrl url (p.declaration reference).value =
        String.ofList (p.before ++ (urlReference url ++ p.rest)) := by
      rw [replaceUrl, hfind, ← List.append_assoc]
    rw [Declaration.backgroundUrl?_eq_some_iff.2 ⟨_, _, hhere⟩, hvalue]
    rfl

/-- **A turned reference shows its address from the same place**, with the quotes encoded. -/
theorem Shows.turned (h : p.Shows reference address) (hbefore : ¬"url(".toList <:+: p.before)
    {url shown : String} (hurl : Text.trimmed? url = some shown) :
    p.Shows (urlReference url) (encodedAddress shown) := by
  obtain ⟨⟨inner, hhere⟩, hfirst⟩ := h
  have hfound : UrlMatch.Found ⟨p.before, (encodedAddress url).toList, p.rest⟩
      (p.declaration (urlReference url)).value.toList (urlReference url) := by
    rw [UrlMatch.found_iff, declaration, String.toList_ofList]
    exact ⟨rfl, findUrl?_urlReference hbefore url p.rest⟩
  refine ⟨⟨_, hhere.background, hfound, ?_⟩, hfirst⟩
  rw [String.ofList_toList, trimmed?_encodedAddress, hurl]
  rfl

end ValuePlace

/-- **The address that declarations show** stands in a place that shows it. -/
theorem backgroundUrl?_eq_some_iff {ds : List Declaration} {address : String} :
    backgroundUrl? ds = some address ↔
      ∃ p reference, ds = p.fill reference ∧ ValuePlace.Shows p reference address := by
  constructor
  · intro h
    obtain ⟨front, d, back, rfl, hd, hfront⟩ := List.findSome?_eq_some_iff.1 h
    obtain ⟨m, reference, hshows⟩ := Declaration.backgroundUrl?_eq_some_iff.1 hd
    let p : ValuePlace := ⟨front, d.property, m.before, m.rest, back⟩
    have hdeclaration : p.declaration reference = d := by
      show Declaration.mk d.property (String.ofList (m.before ++ (reference ++ m.rest))) = d
      rw [← hshows.found.text, String.ofList_toList]
    refine ⟨p, reference, ?_, ⟨m.address, hdeclaration.symm ▸ hshows⟩, fun x hx => ?_⟩
    · rw [ValuePlace.fill, hdeclaration]
    · exact Declaration.backgroundUrl?_eq_none_iff.1 (hfront x hx)
  · rintro ⟨p, reference, rfl, hshows⟩
    exact hshows.backgroundUrl?_fill

/-- **A background is turned where it is shown.**  Declarations are changed exactly if an address is
read from them, and are what they were if none is.  The address is read from a reference in its
place, and this is what is changed: the same place has the new reference in it afterwards, so that
all other declarations, the property and the rest of the value stay as they were.  If the address is
not blank, and nothing in front of the reference begins like one, then the address is read back,
without the spaces at its ends and with `%22` for each of its double quotes. -/
theorem background_is_turned_where_it_is_shown (ds : List Declaration) (url : String) :
    let after := (replaceBackground? url ds).getD ds
    (replaceBackground? url ds).isSome = (backgroundUrl? ds).isSome ∧
    (backgroundUrl? ds = none → after = ds) ∧
    (∀ address, backgroundUrl? ds = some address ↔
      ∃ p reference, ds = p.fill reference ∧ ValuePlace.Shows p reference address) ∧
    ∀ (p : ValuePlace) (reference : List Char) (address : String),
      ds = p.fill reference → p.Shows reference address →
        after = p.fill (urlReference url) ∧
        ∀ shown, Text.trimmed? url = some shown → ¬"url(".toList <:+: p.before →
          backgroundUrl? after = some (encodedAddress shown) := by
  intro after
  have hsome := isSome_replaceBackground? url ds
  refine ⟨hsome, fun hnone => ?_, fun address => backgroundUrl?_eq_some_iff, ?_⟩
  · rw [hnone] at hsome
    have hunchanged : replaceBackground? url ds = none := by simpa using hsome
    simp only [after, hunchanged, Option.getD_none]
  · rintro p reference address rfl hshows
    have hafter : after = p.fill (urlReference url) := by
      simp only [after, hshows.replaceBackground?_fill url, Option.getD_some]
    refine ⟨hafter, fun shown hurl hbefore => ?_⟩
    rw [hafter]
    exact (hshows.turned hbefore hurl).backgroundUrl?_fill

/-- The second background is changed, as the first shows nothing and the third is not the first that
shows something; the address has quotes, brackets, a dollar sign, a backslash and spaces. -/
theorem background_with_marks_is_turned :
    let place : ValuePlace := ⟨[⟨"color", "red"⟩, ⟨"background", "none"⟩], "background",
      "#fff ".toList, " no-repeat".toList, [⟨"background-image", "url(c.png)"⟩]⟩
    let ds := place.fill "url( 'a b.png' )".toList
    let url := "it's (\"$1\") \\ x"
    place.Shows "url( 'a b.png' )".toList "a b.png" ∧ backgroundUrl? ds = some "a b.png" ∧
      (replaceBackground? url ds).getD ds = place.fill "url(\"it's (%22$1%22) \\ x\")".toList ∧
      backgroundUrl? ((replaceBackground? url ds).getD ds) = some "it's (%22$1%22) \\ x" := by
  intro place ds url
  have hshows : place.Shows "url( 'a b.png' )".toList "a b.png" := by decide +kernel
  obtain ⟨-, -, hplace, hturned⟩ := background_is_turned_where_it_is_shown ds url
  obtain ⟨hafter, hread⟩ := hturned place _ _ rfl hshows
  have hreference : urlReference url = "url(\"it's (%22$1%22) \\ x\")".toList := by decide +kernel
  have hurl : Text.trimmed? url = some url := by decide +kernel
  have hbefore : ¬"url(".toList <:+: place.before := by decide +kernel
  have hshown : encodedAddress url = "it's (%22$1%22) \\ x" := by decide +kernel
  rw [hreference] at hafter
  exact ⟨hshows, (hplace _).2 ⟨place, _, rfl, hshows⟩, hafter, hshown ▸ hread url hurl hbefore⟩

end Pane.Style
