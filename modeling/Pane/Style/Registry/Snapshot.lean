import Pane.Style.Registry

/-!
# What a viewport shows of a registry

A viewport of some width sees the unconditional layer and then, in ascending order, the layers of
all breakpoints that are not wider than it.  Of the rules that share a cascade key and a suffix,
their *subject*, only those of the last layer that has any survive.

The survivors are found in two passes over the rules of all layers.  The first keeps a *winner* for
each subject: the last layer so far that has rules of it, and the hashes of these rules.  A winner
starts over when a later layer takes its subject up.  The second pass writes the rules that are
among the winners, in the order in which the cascade reads them.

* `Registry.listed` — the rules of the layers that apply, each with the number of its layer.
* `Winners.enter`, `Registry.contest` — the first pass.
* `Registry.showing` — the second pass, for any set of survivors.
* `Registry.snapshot` — the text of what a viewport shows.
* `Viewports`, `Registry.snapshots` — the same for the three canonical widths.
-/

namespace Pane.Style

/-- The least widths of the three canonical viewports, in pixels. -/
structure Viewports where
  xs : UInt32 := 0
  md : UInt32 := 801
  xl : UInt32 := 1367
  deriving DecidableEq, Repr

/-- What each of the three canonical viewports shows, as style text. -/
structure Snapshots where
  xs : String
  md : String
  xl : String
  deriving DecidableEq, Repr

/-- A cascade key and a suffix. -/
abbrev Subject := String × String

/-- What a stored rule is about: rules of one subject override each other. -/
def Entry.subject (e : Entry) : Subject := (e.cascadeKey, e.suffix)

/-! ## Winners -/

/-- The last layer that has rules of a subject, and the hashes of these rules. -/
structure Winner where
  layer : Nat
  hashes : List String
  deriving DecidableEq, Repr

/-- A winner when one more rule of its subject is met.  In a new layer it starts over. -/
def Winner.meet (layer : Nat) (hash : String) (w : Winner) : Winner :=
  ⟨layer, (if w.layer = layer then w.hashes else []) ++ [hash]⟩

/-- The winner of each subject. -/
abbrev Winners := List (Subject × Winner)

namespace Winners

/-- The winners when a rule of a subject is met. -/
def enter (subject : Subject) (layer : Nat) (hash : String) : Winners → Winners
  | [] => [(subject, Winner.meet layer hash ⟨layer, []⟩)]
  | (s, w) :: rest =>
    if s = subject then (s, w.meet layer hash) :: rest
    else (s, w) :: enter subject layer hash rest

/-- All rules that are among the winners, with their layers. -/
def survivors (ws : Winners) : List (Nat × String) :=
  ws.flatMap fun (_, w) => w.hashes.map fun hash => (w.layer, hash)

end Winners

namespace Registry

/-- The layers that a viewport sees, in order. -/
def layers (r : Registry) (target : UInt32) : List Bucket :=
  r.unconditional :: ((r.breakpoints.filter fun (w, _) => w ≤ target).map (·.2))

/-- The hashes of the layers that a viewport sees, each with the number of its layer. -/
def listed (r : Registry) (target : UInt32) : List (Nat × String) :=
  (r.layers target).zipIdx.flatMap fun (bucket, layer) => bucket.map fun hash => (layer, hash)

/-- The winners when a hash of a layer is met.  Hashes without a rule are passed over. -/
def meet (r : Registry) (ws : Winners) (p : Nat × String) : Winners :=
  match r.rules.get? p.2 with
  | some e => ws.enter e.subject p.1 p.2
  | none => ws

/-- The winners of all layers that a viewport sees. -/
def contest (r : Registry) (target : UInt32) : Winners := (r.listed target).foldl r.meet []

/-- A stored rule as a snapshot shows it. -/
def shown (r : Registry) (hash : String) (e : Entry) : Rule :=
  let rule := e.rule hash
  if r.percentUnits then
    { rule with declarations := rule.declarations.map Declaration.withPercentages }
  else rule

/-- The rules of the layers that are among some survivors, as a sheet. -/
def showing (r : Registry) (target : UInt32) (surviving : List (Nat × String)) : Sheet :=
  ⟨((r.listed target).filter fun p => p ∈ surviving).filterMap fun p =>
    (r.rules.get? p.2).map fun e => .rule (r.shown p.2 e)⟩

/-- The rules that a viewport shows, as a sheet. -/
def snapshotSheet (r : Registry) (target : UInt32) : Sheet :=
  r.showing target (r.contest target).survivors

def snapshot (r : Registry) (target : UInt32) : String := (r.snapshotSheet target).render

def snapshots (r : Registry) (v : Viewports) : Snapshots :=
  ⟨r.snapshot v.xs, r.snapshot v.md, r.snapshot v.xl⟩

end Registry

end Pane.Style
