import Pane.Digest.Sha256
import Pane.Style.Background
import Pane.Style.ViewportUnits

/-!
# The style registry

A pane has no class names of its own making.  Every rule that a pane may use is registered, and is
known from then on by a *hash*: the letter `s`, an eight-digit *cascade key*, and digits of the
digest of its content.  Rules of one class and suffix share the cascade key, so that a later one can
be seen to override an earlier one; a class name that is a hash already keeps its key, which is what
makes registering compiled text again change nothing.

Content is `(declarations, cascade key, suffix)`.  Its written form is the *fingerprint*, and a hash
is only ever reused for an equal fingerprint: if twelve digits are taken by other content, more are
used.

* `RuleTable.store` — a content stored under a hash, for any digest function.
* `Registry` — the stored rules, the hashes of each layer in order, and the hashes of each class.
* `Registry.register`, `Registry.registerInline`, `Registry.ingest` — registration.
* `Registry.resolve` — the hashes of a `class` attribute.
* `Registry.compiled` — all rules as a style text.
-/

namespace Pane.Style

/-! ## Content addresses -/

/-- A stored rule: the key and suffix under which it overrides others, its declarations, and the
text that its hash was computed from. -/
structure Entry where
  cascadeKey : String
  suffix : String
  declarations : List Declaration
  fingerprint : String
  deriving DecidableEq, Repr

/-- Stored rules by hash. -/
abbrev RuleTable := List (String × Entry)

/-- The rule that an entry is written as under its hash. -/
def Entry.rule (e : Entry) (hash : String) : Rule :=
  ⟨["." ++ hash ++ e.suffix], e.declarations⟩

/-- Parts of a fingerprint in one text, with a separator that no style text needs. -/
def joinParts (parts : List String) : String := String.intercalate "\x1f" parts

/-- The entry of a content. -/
def Entry.ofContent (cascadeKey suffix : String) (declarations : List Declaration) : Entry :=
  ⟨cascadeKey, suffix, declarations,
    joinParts [renderDeclarations declarations, cascadeKey, suffix]⟩

/-- The hash of a cascade key and the first `len` characters of a digest. -/
def hashOf (cascadeKey digest : String) (len : Nat) : String :=
  "s" ++ cascadeKey ++ String.ofList (digest.toList.take len)

namespace RuleTable

def get? (t : RuleTable) (hash : String) : Option Entry := t.lookup hash

/-- A table with an entry under a hash, in place of the one there. -/
def insert (hash : String) (e : Entry) : RuleTable → RuleTable
  | [] => [(hash, e)]
  | (h, e') :: t => if h = hash then (hash, e) :: t else (h, e') :: insert hash e t

/-- Stores an entry under the first free or fitting hash of `len`, `len + 4`, … digits; `more`
bounds how often the hash may grow.  At the full length of the digest the slot is taken in any
case. -/
def storeFrom (t : RuleTable) (e : Entry) (digest : String) (len : Nat) :
    Nat → String × RuleTable
  | 0 => (hashOf e.cascadeKey digest len, t.insert (hashOf e.cascadeKey digest len) e)
  | more + 1 =>
    let hash := hashOf e.cascadeKey digest len
    match t.get? hash with
    | none => (hash, t.insert hash e)
    | some e' =>
      if e'.fingerprint = e.fingerprint then (hash, t)
      else if len < digest.length then
        storeFrom t e digest (min (len + 4) digest.length) more
      else (hash, t.insert hash e)

/-- The least number of digits of content in a hash. -/
def minDigits : Nat := 12

/-- Stores an entry, and tells its hash. -/
def store (digest : String → String) (t : RuleTable) (e : Entry) : String × RuleTable :=
  let d := digest e.fingerprint
  storeFrom t e d minDigits (d.length + 1)

end RuleTable

/-! ## Buckets -/

/-- An ordered list of hashes without repetition. -/
abbrev Bucket := List String

/-- A bucket with a hash at its end, unless it is in it. -/
def Bucket.push (b : Bucket) (hash : String) : Bucket := if hash ∈ b then b else b ++ [hash]

/-- The bucket of each width, in ascending order, with a hash pushed onto one of them. -/
def pushAt (width : UInt32) (hash : String) :
    List (UInt32 × Bucket) → List (UInt32 × Bucket)
  | [] => [(width, [hash])]
  | (w, b) :: rest =>
    if width < w then (width, [hash]) :: (w, b) :: rest
    else if width = w then (w, Bucket.push b hash) :: rest
    else (w, b) :: pushAt width hash rest

/-- The bucket of each class with a hash pushed onto one of them. -/
def pushClass (name hash : String) : List (String × Bucket) → List (String × Bucket)
  | [] => [(name, [hash])]
  | (n, b) :: rest =>
    if n = name then (n, Bucket.push b hash) :: rest else (n, b) :: pushClass name hash rest

/-! ## The registry -/

/-- Registered rules.  `unconditional` and `breakpoints` are the layers of the cascade, `classes`
the hashes of each class name as its author wrote it. -/
structure Registry where
  rules : RuleTable
  unconditional : Bucket
  breakpoints : List (UInt32 × Bucket)
  classes : List (String × Bucket)
  /-- Whether snapshots show viewport units as percentages. -/
  percentUnits : Bool
  deriving DecidableEq, Repr

namespace Registry

def empty (percentUnits : Bool) : Registry := ⟨[], [], [], [], percentUnits⟩

def size (r : Registry) : Nat := r.rules.length

/-! ### Registration -/

/-- The first eight digits of the digest of some parts. -/
def shortDigest (parts : List String) : String :=
  String.ofList ((Digest.sha256Hex (joinParts parts)).toList.take 8)

/-- The cascade key within a class name that is a hash. -/
def hashedKey? (name : String) : Option String :=
  match name.toList with
  | 's' :: digits =>
    if 20 ≤ digits.length && digits.all Digest.isLowerHex then
      some (String.ofList (digits.take 8))
    else none
  | _ => none

/-- The cascade key of a class selector. -/
def cascadeKey (s : ClassSelector) : String :=
  (hashedKey? s.name).getD (shortDigest ["class", s.name, s.suffix])

/-- The registry with a content stored, and its hash. -/
def store (r : Registry) (e : Entry) : String × Registry :=
  let (hash, rules) := r.rules.store Digest.sha256Hex e
  (hash, { r with rules := rules })

/-- The registry with a hash in a layer: that of a width, or the unconditional one. -/
def pushLayer (r : Registry) (width : Option UInt32) (hash : String) : Registry :=
  match width with
  | some w => { r with breakpoints := pushAt w hash r.breakpoints }
  | none => { r with unconditional := Bucket.push r.unconditional hash }

/-- Registers declarations under a class selector that applies from a width, and tells the hash.
Selectors without a class and empty blocks are passed over. -/
def registerDeclarations (r : Registry) (selector : String) (declarations : List Declaration)
    (width : Option UInt32) : Option String × Registry :=
  match ClassSelector.read? selector with
  | none => (none, r)
  | some s =>
    if declarations = [] then (none, r)
    else
      let (hash, r) := r.store (Entry.ofContent (cascadeKey s) s.suffix declarations)
      let r := r.pushLayer width hash
      (some hash, { r with classes := pushClass s.name hash r.classes })

/-- Registers a block under a class selector that applies from a width, and tells the hash. -/
def register (r : Registry) (selector body : String) (width : Option UInt32) :
    Option String × Registry :=
  r.registerDeclarations selector (declarationsOf body) width

/-- Registers the block of a `style` attribute, and tells the hash.  Its cascade key is its own, so
that no rule of a class has the same one by design. -/
def registerInline (r : Registry) (body : String) : Option String × Registry :=
  let declarations := declarationsOf body
  if declarations = [] then (none, r)
  else
    let key := shortDigest ["inline", renderDeclarations declarations]
    let (hash, r) := r.store (Entry.ofContent key "" declarations)
    (some hash, r.pushLayer none hash)

/-- Registers each selector of a rule, and counts those that were registered. -/
def registerRule (r : Registry) (width : Option UInt32) (rule : Rule) : Nat × Registry :=
  rule.selectors.foldl
    (fun (n, r) selector =>
      let (hash, r) := r.registerDeclarations selector rule.declarations width
      (if hash.isSome then n + 1 else n, r))
    (0, r)

/-- Registers the rules of a sheet, and counts the selectors that were registered. -/
def registerSheet (r : Registry) (s : Sheet) : Nat × Registry :=
  s.rules.foldl
    (fun (n, r) (width, rule) =>
      let (k, r) := r.registerRule width rule
      (n + k, r))
    (0, r)

/-- Registers the rules of a text, and counts the selectors that were registered. -/
def ingest (r : Registry) (text : String) : Nat × Registry :=
  if Text.isBlank text.toList then (0, r) else r.registerSheet (Sheet.read text)

/-! ### Lookup -/

/-- The hashes of a class name. -/
def hashesOf (r : Registry) (name : String) : Bucket := (r.classes.lookup name).getD []

/-- The hashes of a class name in one text. -/
def lookupClass (r : Registry) (name : String) : String := Text.joinTokens (r.hashesOf name)

/-- The hashes of all tokens of a `class` attribute.  Tokens without a rule have none. -/
def resolve (r : Registry) (classAttribute : String) : List String :=
  Text.dedup ((Text.tokens classAttribute).flatMap r.hashesOf)

/-- The canonical declarations under a hash. -/
def declarationsFor? (r : Registry) (hash : String) : Option String :=
  (r.rules.get? hash).map fun e => renderDeclarations e.declarations

/-- The background address that the rule under a hash shows. -/
def backgroundFor? (r : Registry) (hash : String) : Option String :=
  (r.rules.get? hash).bind fun e => backgroundUrl? e.declarations

/-! ### Written form -/

/-- The rules of a bucket in order. -/
def rulesIn (r : Registry) (b : Bucket) : List Rule :=
  b.filterMap fun hash => (r.rules.get? hash).map fun e => e.rule hash

/-- All rules as a sheet: first those that always apply, then a group for each width, ascending. -/
def compiledSheet (r : Registry) : Sheet :=
  ⟨(r.rulesIn r.unconditional).map Item.rule ++
    r.breakpoints.map fun (w, b) => Item.media w (r.rulesIn b)⟩

def compiled (r : Registry) : String := r.compiledSheet.render

end Registry

end Pane.Style
