import Pane.Proofs.Style.Registration

/-!
# Registries that calls lead to

A registry begins empty and is changed by calls only.  What holds of the empty registry and is kept
by `Registry.place`, the one change that registration makes, therefore holds of every registry that
there is.

* `Call`, `Registry.perform`, `Registry.run` — the calls, and a run of them.
* **`Registry.sound_run`** — a run keeps a registry sound.
* `Registry.Orderly` — no bucket names a hash twice, the breakpoints ascend and none is without a
  hash, and every stored rule is in a layer.
* **`Registry.orderly_run`** — a run keeps a registry orderly.
-/

namespace Pane.Style

/-- The calls that change a registry. -/
inductive Call where
  /-- Snapshots show viewport units as percentages from now on, or do not. -/
  | units (percentages : Bool)
  /-- The rules of a style text are registered. -/
  | sheet (text : String)
  /-- A block is registered under a selector, from a width on. -/
  | rule (selector body : String) (width : Option UInt32)
  /-- The block of a `style` attribute is registered. -/
  | inline (body : String)
  deriving DecidableEq, Repr

namespace Registry

variable {r r' : Registry}

/-! ## Runs of calls -/

/-- The registry behind a call. -/
def perform (r : Registry) : Call → Registry
  | .units percentages => { r with percentUnits := percentages }
  | .sheet text => (r.ingest text).2
  | .rule selector body width => (r.register selector body width).2
  | .inline body => (r.registerInline body).2

/-- The registry behind some calls, one after the other. -/
def run (r : Registry) (calls : List Call) : Registry := calls.foldl perform r

theorem run_cons (r : Registry) (call : Call) (calls : List Call) :
    r.run (call :: calls) = (r.perform call).run calls := rfl

/-- What the change of units and every placed content keep is kept by a call. -/
theorem perform_keeps {P : Registry → Prop} (call : Call)
    (hunits : ∀ b, P { r with percentUnits := b }) (hreach : ∀ r', Reaches r r' → P r') :
    P (r.perform call) := by
  cases call with
  | units percentages => exact hunits percentages
  | sheet text => exact hreach _ (r.reaches_ingest text)
  | rule selector body width => exact hreach _ (r.reaches_registerDeclarations ..)
  | inline body => exact hreach _ (r.reaches_registerInline body)

/-- **A run keeps a registry sound.** -/
theorem sound_run (calls : List Call) (h : r.Sound) : (r.run calls).Sound := by
  induction calls generalizing r with
  | nil => exact h
  | cons call rest ih =>
    refine ih (perform_keeps call (fun b => ?_) fun r' hr => hr.sound h)
    exact ⟨h.wellKeyed, h.layered, h.indexed⟩

/-! ## Orderly registries -/

theorem nodup_push {b : Bucket} (h : b.Nodup) (hash : String) : (b.push hash).Nodup := by
  rw [Bucket.push]
  split
  · exact h
  · next hn =>
    refine List.nodup_append.2 ⟨h, List.pairwise_singleton .., ?_⟩
    rintro k hk k' hk' rfl
    exact hn (List.mem_singleton.1 hk' ▸ hk)

theorem push_ne_nil (b : Bucket) (hash : String) : b.push hash ≠ [] := by
  intro h
  have hm : hash ∈ b.push hash := mem_push.2 (.inr rfl)
  rw [h] at hm
  exact absurd hm List.not_mem_nil

/-- The widths with a bucket after a hash was pushed. -/
theorem fst_of_mem_pushAt {width : UInt32} {hash : String} :
    ∀ {l : List (UInt32 × Bucket)} {p : UInt32 × Bucket}, p ∈ pushAt width hash l →
      p.1 = width ∨ ∃ q ∈ l, p.1 = q.1
  | [], p, h => by
      rw [pushAt, List.mem_singleton] at h
      exact .inl (by rw [h])
  | (w, b) :: rest, p, h => by
      rw [pushAt] at h
      split at h
      · rcases List.mem_cons.1 h with rfl | h
        · exact .inl rfl
        · exact .inr ⟨p, h, rfl⟩
      · split at h
        · rcases List.mem_cons.1 h with rfl | h
          · exact .inr ⟨_, List.mem_cons_self .., rfl⟩
          · exact .inr ⟨p, List.mem_cons_of_mem _ h, rfl⟩
        · rcases List.mem_cons.1 h with rfl | h
          · exact .inr ⟨_, List.mem_cons_self .., rfl⟩
          · rcases fst_of_mem_pushAt h with h | ⟨q, hq, he⟩
            · exact .inl h
            · exact .inr ⟨q, List.mem_cons_of_mem _ hq, he⟩

theorem ascending_pushAt (width : UInt32) (hash : String) :
    ∀ {l : List (UInt32 × Bucket)}, l.Pairwise (fun p q => p.1 < q.1) →
      (pushAt width hash l).Pairwise fun p q => p.1 < q.1
  | [], _ => List.pairwise_singleton ..
  | (w, b) :: rest, h => by
      obtain ⟨hw, hr⟩ := List.pairwise_cons.1 h
      rw [pushAt]
      split
      · next hlt =>
        refine List.pairwise_cons.2 ⟨fun p hp => ?_, h⟩
        rcases List.mem_cons.1 hp with rfl | hp
        · exact hlt
        · exact UInt32.lt_trans hlt (hw p hp)
      · next hnlt =>
        split
        · exact List.pairwise_cons.2 ⟨hw, hr⟩
        · next hne =>
          refine List.pairwise_cons.2 ⟨fun p hp => ?_, ascending_pushAt width hash hr⟩
          rcases fst_of_mem_pushAt hp with he | ⟨q, hq, he⟩
          · show w < p.1
            rw [he]
            exact UInt32.lt_of_le_of_ne (UInt32.not_lt.1 hnlt) (Ne.symm hne)
          · show w < p.1
            rw [he]
            exact hw q hq

/-- What holds of every bucket and is kept by a push holds of every bucket after a push. -/
theorem bucket_pushAt {P : Bucket → Prop} {width : UInt32} {hash : String} (hnew : P [hash])
    (hpush : ∀ b, P b → P (b.push hash)) :
    ∀ {l : List (UInt32 × Bucket)}, (∀ p ∈ l, P p.2) → ∀ p ∈ pushAt width hash l, P p.2
  | [], _, p, hp => by
      rw [pushAt, List.mem_singleton] at hp
      exact hp ▸ hnew
  | (w, b) :: rest, h, p, hp => by
      obtain ⟨hb, hr⟩ := List.forall_mem_cons.1 h
      rw [pushAt] at hp
      split at hp
      · rcases List.mem_cons.1 hp with rfl | hp
        · exact hnew
        · exact h p hp
      · split at hp
        · rcases List.mem_cons.1 hp with rfl | hp
          · exact hpush b hb
          · exact hr p hp
        · rcases List.mem_cons.1 hp with rfl | hp
          · exact hb
          · exact bucket_pushAt hnew hpush hr p hp

/-- The layers of a registry are in order, and hold all its rules. -/
structure Orderly (r : Registry) : Prop where
  unconditional : r.unconditional.Nodup
  ascending : r.breakpoints.Pairwise fun p q => p.1 < q.1
  buckets : ∀ p ∈ r.breakpoints, p.2 ≠ [] ∧ p.2.Nodup
  placed : ∀ hash, (r.rules.get? hash).isSome = true → ∃ width, r.InLayer width hash

theorem orderly_empty (percentUnits : Bool) : (empty percentUnits).Orderly where
  unconditional := List.nodup_nil
  ascending := List.Pairwise.nil
  buckets p hp := absurd hp List.not_mem_nil
  placed hash h := by simp [empty, RuleTable.get?] at h

theorem Orderly.place (h : r.Orderly) (name : Option String) (width : Option UInt32) (e : Entry) :
    (r.place name width e).2.Orderly where
  unconditional := by
    cases name <;> cases width <;>
      first | exact h.unconditional | exact nodup_push h.unconditional _
  ascending := by
    cases name <;> cases width <;>
      first | exact h.ascending | exact ascending_pushAt _ _ h.ascending
  buckets := by
    have hpush (w : UInt32) (hash : String) :
        ∀ p ∈ pushAt w hash r.breakpoints, p.2 ≠ [] ∧ p.2.Nodup :=
      bucket_pushAt (P := fun b => b ≠ [] ∧ b.Nodup) ⟨by simp, List.pairwise_singleton ..⟩
        (fun b hb => ⟨push_ne_nil b hash, nodup_push hb.2 hash⟩) h.buckets
    cases name <;> cases width <;> first | exact h.buckets | exact hpush _ _
  placed k hk := by
    rw [place_rules] at hk
    by_cases he : k = (r.place name width e).1
    · exact ⟨width, (inLayer_place ..).2 (.inr ⟨rfl, he⟩)⟩
    · rw [RuleTable.get?_settle_of_ne he] at hk
      exact (h.placed k hk).imp fun w hw => (inLayer_place ..).2 (.inl hw)

/-- **A run of placed contents keeps a registry orderly.** -/
theorem Reaches.orderly (h : Reaches r r') (hr : r.Orderly) : r'.Orderly := by
  induction h with
  | refl => exact hr
  | place name width key suffix ds _ _ ih => exact ih.place name width _

/-- **A run of calls keeps a registry orderly.** -/
theorem orderly_run (calls : List Call) (h : r.Orderly) : (r.run calls).Orderly := by
  induction calls generalizing r with
  | nil => exact h
  | cons call rest ih =>
    refine ih (perform_keeps call (fun b => ?_) fun r' hr => hr.orderly h)
    exact ⟨h.unconditional, h.ascending, h.buckets, h.placed⟩

end Registry

end Pane.Style
