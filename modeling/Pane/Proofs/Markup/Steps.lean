import Pane.Proofs.Markup.Body
import Pane.Proofs.Markup.Source

/-!
# From one stretch to the whole text

The construction takes one stretch of the text after the other, within a bound on their number.  As
every stretch has at least one character, the bound is never met, and what holds of single stretches
adds up.

**Stretches.**  `Leads`: some stretches lead from one state and text to another.
**`run_of_leads`**: if they lead to the end of the text, the run ends in the same state.

**Parts of a text.**  `Reading.leads_token`: a part that the lexer takes as one token.
**`Reading.leads_text`**: a run of text becomes one node.

**The beginning.**  `entered`: the state in which the body begins.  **`Leads.of_entered`**: a text
that starts with something for the body is read as if it had begun.
-/

namespace Pane.Markup

variable {source : Source}

/-! ## Stretches -/

/-- Some stretches of the text, none of them empty, lead from a state to another, which has the rest
of the text ahead. -/
inductive Leads (source : Source) : Construction → List Char → Construction → List Char → Prop where
  | refl (s : Construction) (text : List Char) : Leads source s text s text
  | step {s s' s'' : Construction} {c : Char} {cs rest text : List Char}
      (hadvance : advance source s (c :: cs) = (s', rest)) (hshorter : rest.length ≤ cs.length)
      (hmore : Leads source s' rest s'' text) : Leads source s (c :: cs) s'' text

theorem Leads.trans {s s' s'' : Construction} {text text' text'' : List Char}
    (h : Leads source s text s' text') (h' : Leads source s' text' s'' text'') :
    Leads source s text s'' text'' := by
  induction h with
  | refl => exact h'
  | step hadvance hshorter _ ih => exact .step hadvance hshorter (ih h')

/-- **Where stretches lead to the end of the text, the run ends.** -/
theorem run_of_leads {s s' : Construction} {text text' : List Char}
    (h : Leads source s text s' text') (hend : text' = []) :
    ∀ fuel, text.length ≤ fuel → run source fuel s text = s' := by
  induction h with
  | refl =>
    subst hend
    intro fuel _
    cases fuel <;> rfl
  | step hadvance hshorter _ ih =>
    intro fuel hfuel
    rw [List.length_cons] at hfuel
    obtain ⟨n, rfl⟩ : ∃ n, fuel = n + 1 := ⟨fuel - 1, by omega⟩
    rw [run, hadvance]
    exact ih hend n (by omega)

/-! ## Parts of a text -/

/-- The last of some nodes is a run of text. -/
def EndsInText (ns : List Grown) : Prop := ∃ before reversed, ns = before ++ [.text reversed]

theorem appendChar_text (c : Char) (reversed : List Char) :
    ∀ ns : List Grown, appendChar c (ns ++ [.text reversed]) = ns ++ [.text (c :: reversed)]
  | [] => rfl
  | [n] => by cases n <;> rfl
  | n :: m :: ns => by
      have ih := appendChar_text c reversed (m :: ns)
      simp only [List.cons_append] at ih ⊢
      rw [appendChar, ih]
      simp

theorem appendChar_of_not_endsInText {c : Char} :
    ∀ {ns : List Grown}, ¬EndsInText ns → appendChar c ns = ns ++ [.text [c]]
  | [], _ => rfl
  | [.text reversed], h => absurd ⟨[], reversed, rfl⟩ h
  | [.comment _], _ => rfl
  | [.element ..], _ => rfl
  | n :: m :: ns, h => by
      have hrest : ¬EndsInText (m :: ns) := fun ⟨before, reversed, he⟩ =>
        h ⟨n :: before, reversed, by rw [he]; rfl⟩
      have ih := appendChar_of_not_endsInText (c := c) hrest
      rw [appendChar, ih]
      · rfl
      · simp

namespace Reading

variable {f : Frame} {fs : List Frame} {kids : List Grown} {s : Construction}

theorem advance_eq (h : Reading (f :: fs) kids s) {text rest : List Char} {tokens : List Token}
    (hlex : lexMarkup false text = ⟨tokens, rest⟩) :
    advance source s text = (tokens.foldl process s, rest) := by
  have hsections : knowsSections s = false := by
    rw [knowsSections, h.stack]
    rfl
  have hkind : { s with textKind := .markup } = s := by
    have := h.kind
    cases s
    cases this
    rfl
  simp only [advance, lex, h.kind, hsections, hlex, hkind]
  simp

/-- A part of the text that the lexer takes as one token is one stretch. -/
theorem leads_token (h : Reading (f :: fs) kids s) {part rest : List Char} {t : Token}
    (hpart : part ≠ []) (hlex : lexMarkup false (part ++ rest) = ⟨[t], rest⟩) :
    Leads source s (part ++ rest) (process s t) rest := by
  cases part with
  | nil => exact absurd rfl hpart
  | cons c part =>
    exact .step (h.advance_eq hlex) (by simp) (.refl _ _)

theorem leads_char (h : Reading (f :: fs) kids s) (c : Char) (rest : List Char) :
    Leads source s (escapeTextChar c ++ rest) (process s (.char c)) rest :=
  h.leads_token (escapeTextChar_ne_nil c) (lexMarkup_escapeTextChar false c rest)

/-- Characters join the run of text that stands last. -/
theorem leads_chars (rest text : List Char) {reversed : List Char}
    (h : Reading (f :: fs) (kids ++ [.text reversed]) s) (hskip : s.skipNewline = false)
    (hnull : ∀ c ∈ text, c ≠ '\x00') :
    ∃ s', Leads source s (escapeText text ++ rest) s' rest ∧
      Reading (f :: fs) (kids ++ [.text (text.reverse ++ reversed)]) s' := by
  induction text generalizing s reversed with
  | nil => exact ⟨s, .refl _ _, h⟩
  | cons c text ih =>
    obtain ⟨hc, hnull⟩ := List.forall_mem_cons.1 hnull
    obtain ⟨h₁, hskip₁⟩ := h.process_char hc (by simp [hskip])
    rw [appendChar_text] at h₁
    obtain ⟨s', hleads, h'⟩ := ih h₁ hskip₁ hnull
    refine ⟨s', ?_, by simpa using h'⟩
    rw [escapeText, List.flatMap_cons, List.append_assoc]
    exact (h.leads_char c _).trans hleads

/-- **A run of text becomes one node**, unless it starts with a line feed or stands right behind
another one. -/
theorem leads_text (h : Reading (f :: fs) kids s) {text : List Char} (rest : List Char)
    (hne : text ≠ []) (hfirst : text.head? ≠ some '\n') (hnull : ∀ c ∈ text, c ≠ '\x00')
    (hlast : ¬EndsInText kids) :
    ∃ s', Leads source s (escapeText text ++ rest) s' rest ∧
      Reading (f :: fs) (kids ++ [.text text.reverse]) s' := by
  cases text with
  | nil => exact absurd rfl hne
  | cons c text =>
    obtain ⟨hc, hnull⟩ := List.forall_mem_cons.1 hnull
    obtain ⟨h₁, hskip₁⟩ := h.process_char hc fun _ he => hfirst (by rw [he]; rfl)
    rw [appendChar_of_not_endsInText hlast] at h₁
    obtain ⟨s', hleads, h'⟩ := leads_chars rest text h₁ hskip₁ hnull
    refine ⟨s', ?_, by simpa using h'⟩
    rw [escapeText, List.flatMap_cons, List.append_assoc]
    exact (h.leads_char c _).trans hleads

end Reading

/-! ## The beginning -/

/-- The frames of a document whose head is empty and whose body begins. -/
def enteredFrames : List Frame :=
  [⟨2, "body", [], [.element 1 .html "head" [] []]⟩, ⟨0, "html", [], []⟩]

/-- The state in which the body begins where nothing of it is written. -/
def entered : Construction :=
  { document := plug enteredFrames [], nextKey := 3, stack := enteredFrames.map Frame.opened,
    mode := .inBody, head := some ⟨1, .html, "head", false⟩, legacy := true }

theorem reading_entered : Reading enteredFrames [] entered where
  document := rfl
  stack := rfl
  mode := rfl
  templates := rfl
  fostering := rfl
  kind := rfl
  formatting := List.nil_sublist _
  ascending := ⟨by decide, by simp [keysIn, Grown.keys], by decide, by simp [keysIn], trivial⟩
  below := by simp [keysIn]

/-- Opening tags that are not for the body where nothing has begun. -/
def wrapperTags : List String := ["html", "head", "body", "frameset", "noscript"] ++ headTags

/-- Whether a token is for the body where nothing has begun. -/
def begins : Token → Bool
  | .startTag tag => decide (tag.name ∉ wrapperTags)
  | .char c => !Text.isAsciiSpace c
  | .eof => true
  | .endTag _ | .comment _ | .doctype _ | .malformed => false

/-- Where the innermost element is one of documents, the mode decides. -/
theorem dispatch_of_html {s : Construction} {e : Opened} {stack : List Opened}
    (hstack : s.stack = e :: stack) (he : e.space = .html) (t : Token) :
    dispatch s t = inMode s t := by
  have hforeign : usesForeignRules e t = false := by
    rw [usesForeignRules]
    simp [he]
  simp [dispatch, hstack, hforeign]

/-- What is missing in front of the body is made up, mode by mode. -/
theorem processSteps_of_begins {t : Token} (ht : begins t = true) (fuel : Nat) :
    processSteps (fuel + 5) {} t = processSteps fuel entered t := by
  -- the states from one mode to the next, up to that of the body
  let s₁ : Construction := { legacy := true, mode := .beforeHtml }
  let s₂ : Construction := (s₁.insertRoot []).enter .beforeHead
  let s₃ : Construction := s₂.openHead { name := "head" }
  let s₄ : Construction := s₃.pop.enter .afterHead
  have h₁ : dispatch {} t = .again s₁ := by
    show initial {} t = .again s₁
    unfold initial
    cases t <;> simp_all [begins, s₁]
  have h₂ : dispatch s₁ t = .again s₂ := by
    show beforeHtml s₁ t = .again s₂
    unfold beforeHtml
    cases t <;> simp_all [begins, s₁, s₂, wrapperTags]
  have h₃ : dispatch s₂ t = .again s₃ := by
    rw [dispatch_of_html rfl rfl]
    show beforeHead s₂ t = .again s₃
    unfold beforeHead
    cases t <;> simp_all [begins, s₃, wrapperTags]
  have h₄ : dispatch s₃ t = .again s₄ := by
    rw [dispatch_of_html rfl rfl]
    show inHead s₃ t = .again s₄
    unfold inHead
    cases t <;> simp_all [begins, s₄, wrapperTags, headTags]
  have h₅ : dispatch s₄ t = .again entered := by
    rw [dispatch_of_html rfl rfl]
    show afterHead s₄ t = .again ((s₄.insertImplied "body").enter .inBody)
    unfold afterHead
    cases t <;> simp_all [begins, wrapperTags]
  simp only [processSteps, h₁, h₂, h₃, h₄, h₅]

/-- A token for the body is processed at the beginning as in the body. -/
theorem process_of_begins {t : Token} {s' : Construction} (ht : begins t = true)
    (hdone : inBody entered t = .done s') : process {} t = process entered t := by
  have hdispatch : dispatch entered t = .done s' := by
    rw [dispatch_of_html rfl rfl]
    exact hdone
  have hbegin : processSteps (stepBound {}) {} t = s' := by
    rw [show stepBound {} = 10 + 1 + 5 from rfl, processSteps_of_begins ht, processSteps, hdispatch]
  have hbody : processSteps (stepBound entered) entered t = s' := by
    rw [show stepBound entered = 31 + 1 from rfl, processSteps, hdispatch]
  cases t with
  | malformed => simp [begins] at ht
  | doctype d => simp [begins] at ht
  | _ => exact hbegin.trans hbody.symm

/-- **A text that starts with something for the body is read as if it had begun.** -/
theorem Leads.of_entered {s s' : Construction} {text rest : List Char} {t : Token}
    (h : Leads source entered text s []) (hne : text ≠ [])
    (hlex : lexMarkup false text = ⟨[t], rest⟩) (ht : begins t = true)
    (hdone : inBody entered t = .done s') : Leads source {} text s [] := by
  cases h with
  | refl => exact absurd rfl hne
  | step hadvance hshorter hmore =>
    refine .step ?_ hshorter hmore
    rw [← hadvance, reading_entered.advance_eq hlex]
    simp only [advance, lex, knowsSections, List.head?_nil, Option.any_none, hlex, List.foldl_cons,
      List.foldl_nil]
    rw [process_of_begins ht hdone]
    rfl

end Pane.Markup
