import Mathlib.Data.List.Forall2
import Pane.Proofs.Style.Runs
import Pane.Style.Registry.Snapshot

/-!
# Snapshots are the cascade

A snapshot is computed with a table of winners that start over from layer to layer.  What it shows
can be said without them: of the rules that a viewport sees, those that no later layer has a rule of
the same subject for.

* `Registry.subject?`, `Registry.visible` — the subject of a hash, and the rules that no later layer
  overrides.
* `Registry.Tallied` — what the winners say of the rules met so far.  `Tallied.meet` keeps it from
  rule to rule, and **`Registry.mem_survivors_contest_iff`** reads the survivors off it at the end.
* **`Registry.mem_listed_iff`** — which rules a viewport sees, and in which layers.
* **`Registry.snapshot_shows_last_layers`** — the snapshot of every registry that calls lead to.
-/

namespace Pane.Style

/-! ## Tables of winners -/

namespace Winners

/-- Entering a rule is meeting the winner of its subject. -/
theorem lookup_enter (subject s : Subject) (layer : Nat) (hash : String) :
    ∀ ws : Winners, (ws.enter subject layer hash).lookup s =
      if s = subject then some (((ws.lookup subject).getD ⟨layer, []⟩).meet layer hash)
      else ws.lookup s
  | [] => by
      rw [enter, Table.lookup_cons_ite]
      rfl
  | (s', w) :: rest => by
      have ih := lookup_enter subject s layer hash rest
      rw [enter]
      split
      · next he =>
        subst he
        rw [Table.lookup_cons_ite, Table.lookup_cons_ite, Table.lookup_cons_ite, if_pos rfl]
        split <;> rfl
      · next hne =>
        rw [Table.lookup_cons_ite, Table.lookup_cons_ite, Table.lookup_cons_ite, ih,
          if_neg (Ne.symm hne)]
        by_cases hs : s = s'
        · rw [if_pos hs, if_pos hs, if_neg (hs ▸ hne)]
        · rw [if_neg hs, if_neg hs]

/-- No other subject is entered. -/
theorem mem_keys_enter {subject s : Subject} {layer : Nat} {hash : String} :
    ∀ {ws : Winners}, s ∈ (ws.enter subject layer hash).map (·.1) → s = subject ∨ s ∈ ws.map (·.1)
  | [], h => .inl (List.mem_singleton.1 h)
  | (s', w) :: rest, h => by
      rw [enter] at h
      split at h
      · exact .inr h
      · rcases List.mem_cons.1 h with rfl | h
        · exact .inr (List.mem_cons_self ..)
        · exact (mem_keys_enter h).imp_right (List.mem_cons_of_mem _)

/-- No subject is entered twice. -/
theorem nodup_enter (subject : Subject) (layer : Nat) (hash : String) :
    ∀ {ws : Winners}, (ws.map (·.1)).Nodup → ((ws.enter subject layer hash).map (·.1)).Nodup
  | [], _ => List.pairwise_singleton ..
  | (s', w) :: rest, h => by
      obtain ⟨hs, hr⟩ := List.nodup_cons.1 h
      rw [enter]
      split
      · exact h
      · next hne =>
        refine List.nodup_cons.2 ⟨fun hm => ?_, nodup_enter subject layer hash hr⟩
        rcases mem_keys_enter hm with he | hm
        · exact hne he
        · exact hs hm

/-- In a table without repeated subjects, a winner is in it exactly if it is found. -/
theorem mem_iff_lookup {s : Subject} {w : Winner} :
    ∀ {ws : Winners}, (ws.map (·.1)).Nodup → ((s, w) ∈ ws ↔ ws.lookup s = some w)
  | [], _ => by simp
  | (s', w') :: rest, h => by
      obtain ⟨hs, hr⟩ := List.nodup_cons.1 h
      rw [List.mem_cons, Table.lookup_cons_ite, Prod.mk.injEq]
      split
      · next he =>
        subst he
        have hn : (s, w) ∉ rest := fun hm => hs (List.mem_map.2 ⟨_, hm, rfl⟩)
        simp [hn, eq_comm]
      · next hne => rw [mem_iff_lookup hr, or_iff_right fun hh => hne hh.1]

/-- Survivors are the hashes of the winners, each in the layer of its winner. -/
theorem mem_survivors {ws : Winners} {layer : Nat} {hash : String} :
    (layer, hash) ∈ ws.survivors ↔ ∃ s w, (s, w) ∈ ws ∧ w.layer = layer ∧ hash ∈ w.hashes := by
  simp only [survivors, List.mem_flatMap, List.mem_map, Prod.mk.injEq]
  constructor
  · rintro ⟨⟨s, w⟩, hw, k, hk, hl, rfl⟩
    exact ⟨s, w, hw, hl, hk⟩
  · rintro ⟨s, w, hw, hl, hk⟩
    exact ⟨(s, w), hw, hash, hk, hl, rfl⟩

end Winners

namespace Registry

variable {r : Registry} {target : UInt32}

/-- What the rule under a hash is about. -/
def subject? (r : Registry) (hash : String) : Option Subject :=
  (r.rules.get? hash).map Entry.subject

/-- The rules that a viewport sees and no later layer has a rule of the same subject for. -/
def visible (r : Registry) (target : UInt32) : List (Nat × String) :=
  (r.listed target).filter fun p =>
    !(r.listed target).any fun q => p.1 < q.1 && r.subject? q.2 = r.subject? p.2

/-- A rule is visible if no later layer has a rule on its subject. -/
theorem mem_visible {p : Nat × String} : p ∈ r.visible target ↔
    p ∈ r.listed target ∧ ∀ q ∈ r.listed target, r.subject? q.2 = r.subject? p.2 → q.1 ≤ p.1 := by
  simp only [visible, List.mem_filter, Bool.not_eq_true', List.any_eq_false, Bool.and_eq_true,
    decide_eq_true_eq, not_and]
  refine and_congr_right fun _ => forall₂_congr fun q _ => ?_
  constructor
  · exact fun h hs => Nat.le_of_not_lt fun hlt => h hlt hs
  · exact fun h hlt hs => absurd (h hs) (Nat.not_le.2 hlt)

/-! ## The layers in order -/

/-- Of breakpoints in ascending order, those that are at most as wide as one of them are it and the
ones in front of it. -/
theorem length_filter_width {w : UInt32} {b : Bucket} : ∀ {bs : List (UInt32 × Bucket)} {i : Nat},
    (bs.Pairwise fun p q => p.1 < q.1) → bs[i]? = some (w, b) →
      (bs.filter fun p => p.1 ≤ w).length = i + 1
  | p :: bs, 0, h, hi => by
      obtain rfl : p = (w, b) := Option.some.inj hi
      have hbehind : bs.filter (fun q => q.1 ≤ w) = [] := List.filter_eq_nil_iff.2 fun q hq => by
        simpa using UInt32.not_le.2 ((List.pairwise_cons.1 h).1 q hq)
      simp [hbehind]
  | p :: bs, i + 1, h, hi => by
      obtain ⟨hp, hbs⟩ := List.pairwise_cons.1 h
      have hle : p.1 ≤ w := UInt32.le_of_lt (hp _ (List.mem_of_getElem? hi))
      rw [List.filter_cons_of_pos (by simpa using hle), List.length_cons,
        length_filter_width hbs hi]

/-- **What a viewport sees**: the unconditional rules in the first layer, and those of every
breakpoint that is not wider than it, each in a layer behind those of all lesser widths. -/
theorem mem_listed_iff (h : r.Orderly) {layer : Nat} {hash : String} :
    (layer, hash) ∈ r.listed target ↔ layer = 0 ∧ hash ∈ r.unconditional ∨
      ∃ w bucket, (w, bucket) ∈ r.breakpoints ∧ w ≤ target ∧ hash ∈ bucket ∧
        layer = (r.breakpoints.filter fun b => b.1 ≤ w).length := by
  have hseen : (r.breakpoints.filter fun b => b.1 ≤ target).Pairwise fun p q => p.1 < q.1 :=
    h.ascending.filter _
  have hnumber : ∀ {w : UInt32}, w ≤ target →
      ((r.breakpoints.filter fun b => b.1 ≤ target).filter fun b => b.1 ≤ w) =
        r.breakpoints.filter fun b => b.1 ≤ w := by
    intro w hw
    rw [List.filter_filter]
    refine List.filter_congr fun b _ => ?_
    simpa using fun hb => UInt32.le_trans hb hw
  have hsplit : (layer, hash) ∈ r.listed target ↔ layer = 0 ∧ hash ∈ r.unconditional ∨
      ∃ bucket, (bucket, layer) ∈ ((r.breakpoints.filter fun b => b.1 ≤ target).map
        Prod.snd).zipIdx 1 ∧ hash ∈ bucket := by
    simp [listed, layers, List.zipIdx_cons, and_comm, eq_comm]
  rw [hsplit]
  refine or_congr_right ⟨?_, ?_⟩
  · rintro ⟨bucket, hbucket, hhash⟩
    obtain ⟨hone, hplace⟩ := List.mk_mem_zipIdx_iff_le_and_getElem?_sub.1 hbucket
    rw [List.getElem?_map, Option.map_eq_some_iff] at hplace
    obtain ⟨⟨w, b⟩, hplace, rfl⟩ := hplace
    obtain ⟨hmem, hw⟩ := List.mem_filter.1 (List.mem_of_getElem? hplace)
    have hw : w ≤ target := of_decide_eq_true hw
    refine ⟨w, b, hmem, hw, hhash, ?_⟩
    rw [← hnumber hw, length_filter_width hseen hplace]
    omega
  · rintro ⟨w, bucket, hmem, hw, hhash, rfl⟩
    have hmem' : (w, bucket) ∈ r.breakpoints.filter fun b => b.1 ≤ target :=
      List.mem_filter.2 ⟨hmem, decide_eq_true hw⟩
    obtain ⟨i, hplace⟩ := List.mem_iff_getElem?.1 hmem'
    refine ⟨bucket, List.mk_mem_zipIdx_iff_le_and_getElem?_sub.2 ?_, hhash⟩
    rw [← hnumber hw, length_filter_width hseen hplace, List.getElem?_map, Nat.add_sub_cancel,
      hplace]
    exact ⟨by omega, rfl⟩

/-- Layer by layer: what is listed later is of the same layer or a later one. -/
theorem pairwise_listed (r : Registry) (target : UInt32) :
    (r.listed target).Pairwise fun p q => p.1 ≤ q.1 := by
  rw [listed, List.pairwise_flatMap]
  refine ⟨fun bl _ => List.pairwise_map.2 (List.pairwise_of_forall fun _ _ => Nat.le_refl _), ?_⟩
  have hnum : ((r.layers target).zipIdx.map (·.2)).Pairwise (· < ·) := by
    rw [List.zipIdx_map_snd]
    exact List.pairwise_lt_range'
  refine (List.pairwise_map.1 hnum).imp fun {bl bl'} hlt p hp q hq => ?_
  obtain ⟨k, -, rfl⟩ := List.mem_map.1 hp
  obtain ⟨k', -, rfl⟩ := List.mem_map.1 hq
  exact Nat.le_of_lt hlt

/-- What is listed is in a layer, so that a sound registry has a rule for it. -/
theorem Sound.isSome_subject? (h : r.Sound) {p : Nat × String} (hp : p ∈ r.listed target) :
    (r.subject? p.2).isSome = true := by
  rw [subject?, Option.isSome_map]
  obtain ⟨⟨b, n⟩, hb, hp⟩ := List.mem_flatMap.1 hp
  obtain ⟨k, hk, rfl⟩ := List.mem_map.1 hp
  rcases List.mem_cons.1 (List.fst_mem_of_mem_zipIdx hb) with rfl | hb
  · exact h.layered none k hk
  · obtain ⟨⟨w, b'⟩, hw, rfl⟩ := List.mem_map.1 hb
    exact h.layered (some w) k ⟨b', (List.mem_filter.1 hw).1, hk⟩

/-! ## The first pass -/

/-- Whether a rule is among those met so far and is about a subject. -/
def About (r : Registry) (met : List (Nat × String)) (s : Subject) (p : Nat × String) : Prop :=
  p ∈ met ∧ r.subject? p.2 = some s

/-- What the winner of a subject has to be once some rules were met: it names exactly the rules of
the subject in the last layer that has any. -/
def Wins (r : Registry) (met : List (Nat × String)) (s : Subject) : Option Winner → Prop
  | none => ∀ p, ¬r.About met s p
  | some w => w.hashes ≠ [] ∧ (∀ p, r.About met s p → p.1 ≤ w.layer) ∧
      ∀ hash, hash ∈ w.hashes ↔ r.About met s (w.layer, hash)

/-- Each subject has the winner that it has to have, and no other. -/
structure Tallied (r : Registry) (met : List (Nat × String)) (ws : Winners) : Prop where
  keys : (ws.map (·.1)).Nodup
  wins : ∀ s, r.Wins met s (ws.lookup s)

theorem tallied_nil (r : Registry) : r.Tallied [] [] where
  keys := List.nodup_nil
  wins _ _ h := List.not_mem_nil h.1

variable {met : List (Nat × String)} {ws : Winners} {s : Subject} {p : Nat × String}

/-- A rule on another subject is not about this one. -/
theorem about_append_of_ne (h : r.subject? p.2 ≠ some s) :
    r.About (met ++ [p]) s = r.About met s := by
  funext q
  refine propext (and_congr_left fun hq => ?_)
  rw [List.mem_append, List.mem_singleton]
  refine or_iff_left ?_
  rintro rfl
  exact h hq

/-- One on this subject is. -/
theorem about_append (h : r.subject? p.2 = some s) (q : Nat × String) :
    r.About (met ++ [p]) s q ↔ r.About met s q ∨ q = p := by
  rw [About, List.mem_append, List.mem_singleton, or_and_right]
  refine or_congr_right ⟨And.left, ?_⟩
  rintro rfl
  exact ⟨rfl, h⟩

/-- A rule of another subject leaves the winner what it is. -/
theorem Wins.of_ne {w : Option Winner} (h : r.Wins met s w) (hne : r.subject? p.2 ≠ some s) :
    r.Wins (met ++ [p]) s w := by
  cases w <;> simpa only [Wins, about_append_of_ne hne] using h

/-- The hashes that a winner keeps when a rule of its subject is met: those of the same layer. -/
theorem Wins.mem_kept {w : Option Winner} (h : r.Wins met s w) {layer : Nat}
    (hlast : ∀ q ∈ met, q.1 ≤ layer) (hash : String) :
    hash ∈ (if (w.getD ⟨layer, []⟩).layer = layer then (w.getD ⟨layer, []⟩).hashes else []) ↔
      r.About met s (layer, hash) := by
  cases w with
  | none =>
    rw [Option.getD_none, if_pos rfl]
    exact ⟨fun hm => absurd hm List.not_mem_nil, fun hm => absurd hm (h _)⟩
  | some w =>
    obtain ⟨hheld, hlatest, hnames⟩ := h
    rw [Option.getD_some]
    split
    · next hl => rw [hnames, hl]
    · next hl =>
      refine ⟨fun hm => absurd hm List.not_mem_nil, fun hm => ?_⟩
      -- the winner has a rule of its own, so its layer is not behind this one
      obtain ⟨k, hk⟩ := List.exists_mem_of_ne_nil _ hheld
      have hle := hlast _ ((hnames k).1 hk).1
      exact absurd (Nat.le_antisymm hle (hlatest _ hm)) hl

/-- A rule of the subject is met, in the layer of the last one or a later one. -/
theorem Wins.meet {w : Option Winner} (h : r.Wins met s w) {layer : Nat} {hash : String}
    (hlast : ∀ q ∈ met, q.1 ≤ layer) (hs : r.subject? hash = some s) :
    r.Wins (met ++ [(layer, hash)]) s (some ((w.getD ⟨layer, []⟩).meet layer hash)) := by
  refine ⟨by simp [Winner.meet], fun q hq => ?_, fun k => ?_⟩
  · rcases (about_append hs q).1 hq with hq | rfl
    · exact hlast q hq.1
    · exact Nat.le_refl _
  · show k ∈ _ ++ [hash] ↔ r.About (met ++ [(layer, hash)]) s (layer, k)
    rw [about_append hs, ← h.mem_kept hlast k, List.mem_append, List.mem_singleton, Prod.mk.injEq,
      eq_self, true_and]

/-- **One more rule is met.** -/
theorem Tallied.meet (h : r.Tallied met ws) (hlast : ∀ q ∈ met, q.1 ≤ p.1) :
    r.Tallied (met ++ [p]) (r.meet ws p) := by
  obtain ⟨layer, hash⟩ := p
  cases he : r.rules.get? hash with
  | none =>
    have hn : r.subject? hash = none := by rw [subject?, he, Option.map_none]
    have hws : r.meet ws (layer, hash) = ws := by simp only [Registry.meet, he]
    rw [hws]
    exact ⟨h.keys, fun s => (h.wins s).of_ne (by simp [hn])⟩
  | some e =>
    have hs : r.subject? hash = some e.subject := by rw [subject?, he, Option.map_some]
    have hws : r.meet ws (layer, hash) = ws.enter e.subject layer hash := by
      simp only [Registry.meet, he]
    rw [hws]
    refine ⟨Winners.nodup_enter _ _ _ h.keys, fun s => ?_⟩
    rw [Winners.lookup_enter]
    split
    · next heq => exact heq ▸ (h.wins e.subject).meet hlast hs
    · next hne => exact (h.wins s).of_ne fun he => hne (Option.some.inj (he.symm.trans hs))

/-- All the rest is met, rule by rule. -/
theorem Tallied.foldl (h : r.Tallied met ws) {rest : List (Nat × String)}
    (hsorted : (met ++ rest).Pairwise fun p q => p.1 ≤ q.1) :
    r.Tallied (met ++ rest) (rest.foldl r.meet ws) := by
  induction rest generalizing met ws with
  | nil =>
    rw [List.append_nil]
    exact h
  | cons p rest ih =>
    have hlast : ∀ q ∈ met, q.1 ≤ p.1 := fun q hq =>
      (List.pairwise_append.1 hsorted).2.2 q hq p (List.mem_cons_self ..)
    rw [List.append_cons] at hsorted ⊢
    exact ih (h.meet hlast) hsorted

/-- The contest has tallied everything that is listed. -/
theorem tallied_contest (r : Registry) (target : UInt32) :
    r.Tallied (r.listed target) (r.contest target) :=
  (tallied_nil r).foldl (r.pairwise_listed target)

/-- **The survivors are the rules of their subject's last layer.** -/
theorem mem_survivors_contest_iff :
    p ∈ (r.contest target).survivors ↔ p ∈ r.visible target ∧ (r.subject? p.2).isSome = true := by
  have h := r.tallied_contest target
  obtain ⟨layer, hash⟩ := p
  rw [Winners.mem_survivors, mem_visible]
  constructor
  · rintro ⟨s, w, hw, rfl, hk⟩
    have hwins := h.wins s
    rw [(Winners.mem_iff_lookup h.keys).1 hw] at hwins
    obtain ⟨-, hlatest, hnames⟩ := hwins
    obtain ⟨hm, hs⟩ := (hnames hash).1 hk
    exact ⟨⟨hm, fun q hq hqs => hlatest q ⟨hq, hqs.trans hs⟩⟩, by rw [hs]; rfl⟩
  · rintro ⟨⟨hm, hlast⟩, hs⟩
    obtain ⟨s, hs⟩ := Option.isSome_iff_exists.1 hs
    have hwins := h.wins s
    cases hw : (r.contest target).lookup s with
    | none =>
      rw [hw] at hwins
      exact absurd ⟨hm, hs⟩ (hwins (layer, hash))
    | some w =>
      rw [hw] at hwins
      obtain ⟨hheld, hlatest, hnames⟩ := hwins
      obtain ⟨k, hk⟩ := List.exists_mem_of_ne_nil _ hheld
      obtain ⟨hkm, hks⟩ := (hnames k).1 hk
      have hl : w.layer = layer :=
        Nat.le_antisymm (hlast _ hkm (hks.trans hs.symm)) (hlatest _ ⟨hm, hs⟩)
      refine ⟨s, w, (Winners.mem_iff_lookup h.keys).2 hw, hl, ?_⟩
      rw [hnames, hl]
      exact ⟨hm, hs⟩

/-! ## The second pass -/

/-- The rules that are listed and survive are the visible ones. -/
theorem filter_survivors (h : r.Sound) :
    ((r.listed target).filter fun p => p ∈ (r.contest target).survivors) = r.visible target := by
  rw [visible]
  refine List.filter_congr fun p hp => ?_
  have hmem : p ∈ (r.contest target).survivors ↔ p ∈ r.visible target :=
    mem_survivors_contest_iff.trans (and_iff_left (h.isSome_subject? hp))
  rw [Bool.eq_iff_iff, decide_eq_true_iff, hmem, visible, List.mem_filter, and_iff_right hp]

/-- What is written depends on which rules survive, not on the order they were found in. -/
theorem showing_perm {ws : Winners} (h : ws.Perm (r.contest target)) :
    r.showing target ws.survivors = r.snapshotSheet target := by
  have hs : ws.survivors.Perm (r.contest target).survivors := h.flatMap_right _
  rw [snapshotSheet, showing, showing]
  simp only [hs.mem_iff]

/-- Every subject that a viewport sees is visible in some layer. -/
theorem exists_visible (h : r.Sound) (hp : p ∈ r.listed target) :
    ∃ q ∈ r.visible target, r.subject? q.2 = r.subject? p.2 := by
  obtain ⟨s, hs⟩ := Option.isSome_iff_exists.1 (h.isSome_subject? hp)
  have hwins := (r.tallied_contest target).wins s
  cases hw : (r.contest target).lookup s with
  | none =>
    rw [hw] at hwins
    exact absurd ⟨hp, hs⟩ (hwins p)
  | some w =>
    rw [hw] at hwins
    obtain ⟨hheld, hlatest, hnames⟩ := hwins
    obtain ⟨k, hk⟩ := List.exists_mem_of_ne_nil _ hheld
    obtain ⟨hm, hks⟩ := (hnames k).1 hk
    refine ⟨(w.layer, k), mem_visible.2 ⟨hm, fun q hq hqs => ?_⟩, hks.trans hs.symm⟩
    exact hlatest q ⟨hq, hqs.trans hks⟩

/-- A rule as a snapshot shows it: the rule stored under a hash, its values in percentages if these
are wanted. -/
def ShowsAs (r : Registry) (hash : String) (rule : Rule) : Prop :=
  ∃ e, r.rules.get? hash = some e ∧ rule.selectors = ["." ++ hash ++ e.suffix] ∧
    rule.declarations =
      if r.percentUnits then e.declarations.map Declaration.withPercentages else e.declarations

/-- What is on record is shown as it is, or with percentages. -/
theorem showsAs_shown {hash : String} {e : Entry} (h : r.rules.get? hash = some e) :
    r.ShowsAs hash (r.shown hash e) := by
  refine ⟨e, h, ?_⟩
  rw [shown]
  split <;> exact ⟨rfl, rfl⟩

/-- Some hashes with rules are shown as these rules, in order. -/
theorem exists_rules_shown :
    ∀ ps : List (Nat × String), (∀ p ∈ ps, (r.subject? p.2).isSome = true) →
      ∃ rules, List.Forall₂ (fun p rule => r.ShowsAs p.2 rule) ps rules ∧
        (ps.filterMap fun p => (r.rules.get? p.2).map fun e => .rule (r.shown p.2 e)) =
          rules.map Item.rule
  | [], _ => ⟨[], .nil, rfl⟩
  | p :: ps, h => by
      obtain ⟨hp, hps⟩ := List.forall_mem_cons.1 h
      obtain ⟨rules, hrules, heq⟩ := exists_rules_shown ps hps
      rw [subject?, Option.isSome_map] at hp
      obtain ⟨e, he⟩ := Option.isSome_iff_exists.1 hp
      refine ⟨r.shown p.2 e :: rules, .cons (showsAs_shown he) hrules, ?_⟩
      rw [List.filterMap_cons, he, Option.map_some, List.map_cons, heq]

/-- **Snapshots are exactly the cascade.**  In every registry that calls lead to, and for every
width, the breakpoints ascend, and the layers are the unconditional bucket and then those of the
breakpoints that are not wider, in ascending order, so that the number of a layer says how many
widths up to its own there are.  The snapshot is the text of the visible rules, in the order of the
layers and of the hashes in them.  Every subject that the viewport sees is among them, and with the
rules of one layer only; and the text is the same in whatever order the winners are gone through. -/
theorem snapshot_shows_last_layers (percentUnits : Bool) (calls : List Call) (target : UInt32) :
    let r := (empty percentUnits).run calls
    let layers := r.unconditional :: (r.breakpoints.filter fun b => b.1 ≤ target).map Prod.snd
    (r.breakpoints.Pairwise fun p q => p.1 < q.1) ∧
    (r.listed target = layers.zipIdx.flatMap fun b => b.1.map fun hash => (b.2, hash)) ∧
    (∀ layer hash, (layer, hash) ∈ r.listed target ↔ layer = 0 ∧ hash ∈ r.unconditional ∨
      ∃ w bucket, (w, bucket) ∈ r.breakpoints ∧ w ≤ target ∧ hash ∈ bucket ∧
        layer = (r.breakpoints.filter fun b => b.1 ≤ w).length) ∧
    (∃ rules, List.Forall₂ (fun p rule => r.ShowsAs p.2 rule) (r.visible target) rules ∧
      r.snapshot target = Sheet.render ⟨rules.map .rule⟩) ∧
    (∀ p ∈ r.listed target, ∃ q ∈ r.visible target, r.subject? q.2 = r.subject? p.2) ∧
    (∀ p ∈ r.visible target, ∀ q ∈ r.visible target,
      r.subject? q.2 = r.subject? p.2 → q.1 = p.1) ∧
    ∀ ws : Winners, ws.Perm (r.contest target) →
      (r.showing target ws.survivors).render = r.snapshot target := by
  intro r layers
  have hsound : r.Sound := sound_run calls (sound_empty percentUnits)
  have horderly : r.Orderly := orderly_run calls (orderly_empty percentUnits)
  refine ⟨horderly.ascending, rfl, fun _ _ => mem_listed_iff horderly, ?_,
    fun p hp => exists_visible hsound hp, fun p hp q hq hs => ?_, fun ws hws => ?_⟩
  · obtain ⟨rules, hrules, heq⟩ := exists_rules_shown (r.visible target) fun p hp =>
      hsound.isSome_subject? (mem_visible.1 hp).1
    refine ⟨rules, hrules, ?_⟩
    rw [snapshot, snapshotSheet, showing, filter_survivors hsound, heq]
  · exact Nat.le_antisymm ((mem_visible.1 hp).2 q (mem_visible.1 hq).1 hs)
      ((mem_visible.1 hq).2 p (mem_visible.1 hp).1 hs.symm)
  · rw [showing_perm hws, snapshot]

/-- At a width of 801 a rule of the class `a` gives way to one from there on, and a rule of the
class `b` does not yet; its value is shown in percentages. -/
theorem snapshot_shows_second_layer :
    let r := (empty true).run [.rule ".a" "color:red" none, .rule ".b" "width:1vw" none,
      .rule ".a" "color:blue" (some 801), .rule ".b" "color:red" (some 802)]
    r.listed 801 = [(0, "s482524efcfc29a79e516"), (0, "s165caf0220e076df46ba"),
        (1, "s482524ef99dfc4ab2b20")] ∧
      r.snapshot 801 =
        ".s165caf0220e076df46ba\x7bwidth:1%\x7d\n.s482524ef99dfc4ab2b20\x7bcolor:blue\x7d" ∧
      ∃ rules, List.Forall₂ (fun p rule => r.ShowsAs p.2 rule)
          [(0, "s165caf0220e076df46ba"), (1, "s482524ef99dfc4ab2b20")] rules ∧
        r.snapshot 801 = Sheet.render ⟨rules.map .rule⟩ := by
  intro r
  obtain ⟨hlisted, hvisible, hsnapshot⟩ :
      r.listed 801 = [(0, "s482524efcfc29a79e516"), (0, "s165caf0220e076df46ba"),
          (1, "s482524ef99dfc4ab2b20")] ∧
        r.visible 801 = [(0, "s165caf0220e076df46ba"), (1, "s482524ef99dfc4ab2b20")] ∧
        r.snapshot 801 =
          ".s165caf0220e076df46ba\x7bwidth:1%\x7d\n.s482524ef99dfc4ab2b20\x7bcolor:blue\x7d" := by
    decide +kernel
  obtain ⟨-, -, -, hshown, -⟩ := snapshot_shows_last_layers true
    [.rule ".a" "color:red" none, .rule ".b" "width:1vw" none, .rule ".a" "color:blue" (some 801),
      .rule ".b" "color:red" (some 802)] 801
  refine ⟨hlisted, hsnapshot, ?_⟩
  rw [← hvisible]
  exact hshown

end Registry

end Pane.Style
