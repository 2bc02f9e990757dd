import Pane.Proofs.Style.Contents

/-!
# What a hash stands for

A content is found again by its fingerprint, which is its declarations, its cascade key and its
suffix with a separator between them.  A key never has the separator in it, but the other two may,
and then one fingerprint may be read in two ways: the second content is taken for the first and its
rule is lost.  This takes a suffix and declarations that both have the separator.  Without such a
pair a fingerprint tells its parts, and a hash stands for the content that was registered.

**Fingerprints.**  `parts_of_joined` — when the parts can be told.  `Unmixed` — a condition on what
is registered, under which they always can (`Unmixed.of_fingerprint`, from
`Registration.parts_of_fingerprint`).

**Hashes.**  **`Registry.hash_stands_for_its_content`**, and
**`Registry.one_hash_for_two_contents`**, two contents of one fingerprint.
-/

namespace Pane.Style

/-! ## Fingerprints -/

/-- What the front of one text has more than that of another brings the separator into both the
longer front and what stands behind the key of the text with the shorter one. -/
theorem eq_nil_of_joined {separator : Char} {k s t k' s' : List Char} (hk : separator ∉ k)
    (hmixed : ¬(separator ∈ s ∧ separator ∈ t))
    (h : separator :: (k ++ separator :: s) = t ++ separator :: (k' ++ separator :: s')) :
    t = [] := by
  cases t with
  | nil => rfl
  | cons c t =>
    obtain ⟨rfl, h⟩ := List.cons.inj h
    have hcount := congrArg (List.count separator) h
    simp only [List.count_append, List.count_cons_self, List.count_eq_zero.2 hk] at hcount
    have hs : separator ∈ s := List.count_pos_iff.1 (by omega)
    exact absurd ⟨hs, List.mem_cons_self ..⟩ hmixed

/-- A text of three parts tells them, if there is no separator in the key in the middle and none in
the last part of one text while there is one in the first part of the other. -/
theorem parts_of_joined {separator : Char} {a k s a' k' s' : List Char} (hk : separator ∉ k)
    (hk' : separator ∉ k') (hlength : k.length = k'.length)
    (hmixed : ¬(separator ∈ s ∧ separator ∈ a')) (hmixed' : ¬(separator ∈ s' ∧ separator ∈ a))
    (h : a ++ separator :: (k ++ separator :: s) = a' ++ separator :: (k' ++ separator :: s')) :
    a = a' ∧ s = s' := by
  have hfront : a = a' := by
    rcases List.append_eq_append_iff.1 h with ⟨t, rfl, ht⟩ | ⟨t, rfl, ht⟩
    · have hnil := eq_nil_of_joined hk (fun ⟨hs, hm⟩ => hmixed ⟨hs, by simp [hm]⟩) ht
      rw [hnil, List.append_nil]
    · have hnil := eq_nil_of_joined hk' (fun ⟨hs, hm⟩ => hmixed' ⟨hs, by simp [hm]⟩) ht
      rw [hnil, List.append_nil]
  subst hfront
  obtain ⟨-, hback⟩ := List.cons.inj (List.append_cancel_left h)
  exact ⟨rfl, (List.cons.inj (List.append_inj hback hlength).2).2⟩

/-- No suffix of some registrations has the separator of fingerprints while declarations have it. -/
def Unmixed (ps : List Registration) : Prop :=
  ∀ p ∈ ps, ∀ q ∈ ps, ¬('\x1f' ∈ p.suffix.toList ∧ '\x1f' ∈ q.text.toList)

instance (ps : List Registration) : Decidable (Unmixed ps) :=
  inferInstanceAs (Decidable
    (∀ p ∈ ps, ∀ q ∈ ps, ¬('\x1f' ∈ p.suffix.toList ∧ '\x1f' ∈ q.text.toList)))

theorem Registration.toList_fingerprint (p : Registration) :
    p.fingerprint.toList =
      p.text.toList ++ '\x1f' :: (p.key.toList ++ '\x1f' :: p.suffix.toList) := by
  have hjoin : p.fingerprint = p.text ++ "\x1f" ++ p.key ++ "\x1f" ++ p.suffix := rfl
  simp [hjoin]

/-- **A fingerprint tells its parts**, unless it is read in two ways. -/
theorem Registration.parts_of_fingerprint {p q : Registration}
    (hpq : ¬('\x1f' ∈ p.suffix.toList ∧ '\x1f' ∈ q.text.toList))
    (hqp : ¬('\x1f' ∈ q.suffix.toList ∧ '\x1f' ∈ p.text.toList))
    (heq : p.fingerprint = q.fingerprint) : p.text = q.text ∧ p.suffix = q.suffix := by
  have hkey : ∀ r : Registration, '\x1f' ∉ r.key.toList := fun r hmem =>
    absurd (r.keyed.2 _ hmem) (by decide)
  have hlength : p.key.toList.length = q.key.toList.length := by
    rw [String.length_toList, String.length_toList, p.keyed.1, q.keyed.1]
  have hlists := congrArg String.toList heq
  rw [toList_fingerprint, toList_fingerprint] at hlists
  obtain ⟨htext, hsuffix⟩ := parts_of_joined (hkey p) (hkey q) hlength hpq hqp hlists
  exact ⟨String.toList_inj.1 htext, String.toList_inj.1 hsuffix⟩

theorem Unmixed.of_fingerprint {ps : List Registration} {p q : Registration} (h : Unmixed ps)
    (hp : p ∈ ps) (hq : q ∈ ps) (heq : p.fingerprint = q.fingerprint) :
    p.text = q.text ∧ p.suffix = q.suffix :=
  Registration.parts_of_fingerprint (h p hp q hq) (h q hq p hp) heq

namespace Registry

variable {r : Registry} {p : Registration} {hash : String} {ps : List Registration}

/-! ## Hashes -/

/-- A hash stands for a content: the declarations are found under the hash, and the rule that is
written for the hash, from the width on, has them and the suffix. -/
structure StandsFor (r : Registry) (hash : String) (width : Option UInt32)
    (text suffix : String) : Prop where
  declarations : r.declarationsFor? hash = some text
  written : ∃ rule, (width, rule) ∈ r.compiledSheet.rules ∧
    rule.selectors = ["." ++ hash ++ suffix] ∧ renderDeclarations rule.declarations = text

theorem Within.standsFor (h : r.Within ps) (hunmixed : Unmixed ps) (hp : p ∈ ps)
    (hsettled : r.Settled p hash) : r.StandsFor hash p.width p.text p.suffix := by
  obtain ⟨e, he, hprint⟩ := Option.any_eq_true _ _ |>.1 hsettled.holds
  obtain ⟨q, hq, rfl⟩ := h.among hash e he
  obtain ⟨htext, hsuffix⟩ := hunmixed.of_fingerprint hq hp (of_decide_eq_true hprint)
  refine ⟨?_, q.entry.rule hash, ?_, ?_, htext⟩
  · rw [declarationsFor?, he, ← htext]
    rfl
  · exact mem_rules_compiledSheet_iff.2 ⟨hash, q.entry, hsettled.layered, he, rfl⟩
  · rw [← hsuffix]
    rfl

theorem fst_mem_of_mem_log {x : Registration × String} (hx : x ∈ r.log ps) : x.1 ∈ ps := by
  induction ps generalizing r with
  | nil => exact absurd hx List.not_mem_nil
  | cons p ps ih =>
    rcases List.mem_cons.1 hx with rfl | hx
    · exact List.mem_cons_self ..
    · exact List.mem_cons_of_mem _ (ih hx)

/-- Two registrations that were given one hash have one fingerprint, if no digest is shared. -/
theorem Within.fingerprint_of_mem_log (h : r.Within ps) (hdigests : DigestsDiffer ps)
    {x y : Registration × String} (hx : x ∈ r.log ps) (hy : y ∈ r.log ps) (hhash : x.2 = y.2) :
    x.1.fingerprint = y.1.fingerprint := by
  obtain ⟨p, hash⟩ := x
  obtain ⟨q, hash'⟩ := y
  obtain rfl : hash = hash' := hhash
  have hself : ∀ p ∈ ps, p ∈ ps := fun _ hp => hp
  have hp := (settled_of_mem_log hdigests h hself hx).holds
  have hq := (settled_of_mem_log hdigests h hself hy).holds
  obtain ⟨e, he, hep⟩ := Option.any_eq_true _ _ |>.1 hp
  obtain ⟨e', he', heq⟩ := Option.any_eq_true _ _ |>.1 hq
  obtain rfl : e = e' := Option.some.inj (he.symm.trans he')
  exact (of_decide_eq_true hep).symm.trans (of_decide_eq_true heq)

end Registry

/-- **A hash stands for the content that was registered**, unless a suffix and declarations that
both have the separator of fingerprints are registered.  Behind whatever calls a block is registered
under a selector: the hash leads to its declarations, and the rule that is written for the hash has
the suffix of the selector.  And registrations that share a hash, of whatever kind they are, have
the same declarations and the same suffix; here it is taken for granted that no two fingerprints of
what is registered have the same digest. -/
theorem Registry.hash_stands_for_its_content (percentUnits : Bool) (calls : List Call) :
    (∀ (selector body : String) (width : Option UInt32) (hash : String),
      Unmixed (registrations (calls ++ [.rule selector body width])) →
      (((empty percentUnits).run calls).register selector body width).1 = some hash →
      ∃ s, ClassSelector.read? selector = some s ∧
        (((empty percentUnits).run calls).register selector body width).2.StandsFor hash width
          (renderDeclarations (declarationsOf body)) s.suffix) ∧
    (Unmixed (registrations calls) → DigestsDiffer (registrations calls) →
      let log := (empty percentUnits).log (registrations calls)
      ∀ x ∈ log, ∀ y ∈ log, x.2 = y.2 → x.1.text = y.1.text ∧ x.1.suffix = y.1.suffix) := by
  constructor
  · intro selector body width hash hunmixed hreg
    obtain ⟨p, hp, rfl, henter⟩ := of_register_eq_some hreg
    obtain ⟨s, hs, hsuffix, hwidth, hds⟩ := Registration.of_ofClass?_eq_some hp
    have hmem : p ∈ registrations (calls ++ [.rule selector body width]) :=
      mem_registrations.2 ⟨.rule selector body width, by simp, by simp [Call.registrations, hp]⟩
    have hwithin := within_run_front percentUnits calls [.rule selector body width]
    have hstands := (hwithin.enter hmem).standsFor hunmixed hmem (settled_enter _ p)
    refine ⟨s, hs, ?_⟩
    rw [henter, ← hds, ← hwidth, ← hsuffix]
    exact hstands
  · intro hunmixed hdigests log x hx y hy hhash
    have hwithin := within_empty percentUnits (registrations calls)
    exact hunmixed.of_fingerprint (fst_mem_of_mem_log hx) (fst_mem_of_mem_log hy)
      (hwithin.fingerprint_of_mem_log hdigests hx hy hhash)

/-- A hash stands for a block with a separator, and a rule that is registered at two widths has one
hash for both. -/
theorem Registry.hash_of_two_widths_stands_for_its_content :
    (∃ s, ClassSelector.read? ".b:hover" = some s ∧
      (((empty true).run []).register ".b:hover" "color:red\x1f" (some 801)).2.StandsFor
        "s29174f936a25a21e3a5c" (some 801) (renderDeclarations (declarationsOf "color:red\x1f"))
        s.suffix) ∧
    let calls : List Call := [.rule ".a" "color:red" none, .rule ".a" "color:red" (some 801)]
    let log := (empty true).log (registrations calls)
    ∃ x ∈ log, ∃ y ∈ log, x.1.width ≠ y.1.width ∧ x.2 = y.2 ∧
      x.1.text = y.1.text ∧ x.1.suffix = y.1.suffix := by
  constructor
  · exact (hash_stands_for_its_content true []).1 ".b:hover" "color:red\x1f" (some 801)
      "s29174f936a25a21e3a5c" (by decide +kernel) (by decide +kernel)
  · intro calls log
    have htwo : log.length = 2 := by decide +kernel
    have hx : log[0] ∈ log := List.getElem_mem ..
    have hy : log[1] ∈ log := List.getElem_mem ..
    have hhash : log[0].2 = log[1].2 := by decide +kernel
    exact ⟨log[0], hx, log[1], hy, by decide +kernel, hhash,
      (hash_stands_for_its_content true calls).2 (by decide +kernel) (by decide +kernel)
        log[0] hx log[1] hy hhash⟩

/-- **Two contents may have one fingerprint.**  A suffix and a block with the separator: the rule
registered first is the only one that is stored and written. -/
theorem Registry.one_hash_for_two_contents :
    let first := (empty true).register ".saaaaaaaa000000000000\x1faaaaaaaa\x1f" "color:red" none
    let second := first.2.register ".saaaaaaaa000000000000" "color:red\x1faaaaaaaa\x1f" none
    second.1 = some "saaaaaaaa27894624c6a0" ∧
      second.2.declarationsFor? "saaaaaaaa27894624c6a0" = some "color:red" ∧
      renderDeclarations (declarationsOf "color:red\x1faaaaaaaa\x1f") =
        "color:red\x1faaaaaaaa\x1f" ∧
      second.2.compiledSheet = first.2.compiledSheet := by
  decide +kernel

end Pane.Style
