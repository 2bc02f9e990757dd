import Pane.Text.Basic
import Pane.Digest.Sha256
import Pane.Markup.Token

/-!
# Documents of old

A document without a type, or with one of a retired generation, is laid out by *legacy* rules.  Here
that matters in one place: a table then does not end an open paragraph.  The standard lists the
retired types by the beginnings of their public identifiers, in lower case and up to a double slash.
Only whether an identifier is in the list counts, so the list is kept as digests of its members.

* `Doctype.isLegacy` — whether a type asks for the legacy rules.
-/

namespace Pane.Markup

/-- The first digits of the digest of an identifier. -/
def identifierDigest (s : String) : String :=
  String.ofList ((Digest.sha256Hex s).toList.take 16)

/-- The digests of the beginnings of retired public identifiers. -/
def retiredBeginnings : List String :=
  ["a7aa37aad868d7b3", "b08a5215cd030be2", "5dcec23c100629b4", "2e9c2eed2b83e737",
    "33d2c9c27ddbfa61", "824eb76a7efbddd1", "8b3db9ef680427e4", "077e0c6a9fae6845",
    "fdfd0632f2731afc", "1a244705469d5bd1", "8bfc09efd34bd818", "131ec0ee5701a16f",
    "e98fd7036a557c79", "c0188d6193b8f7c9", "94138bfeabc4f8aa", "31afb3eb04e94448",
    "26e85a93820b3122", "bc15c6b9b0b05c87", "ffdc9b92db673070", "672d3280d0e24dd2",
    "707dab9e833fc461", "66058de430abd8ad", "393b26ec8bd99033", "c7b2f974888a24cf",
    "e9cb54a1b97343fe", "56c446b19dda3a17", "f41bdb2ea0a81829", "93a21d6396e4b092",
    "7ce3a793a1b1b9c7", "5cbf852846bb5a35", "0f028be08a4fc3b6", "f412f104245384a5",
    "4343406948184706", "abf5cde74a0b5308", "98ceb017d8c409e4", "eb689a6e4ce28ce8",
    "dce6266f0d30de1a", "f52e00b7d52692d5", "d6aa308786c426f7", "c2a6b54bb10657bd",
    "052a088d88cd1d81", "4500d578e2486ea4", "04f2d4a6373ad0ac", "d5bc4dc589ef33e7",
    "990936fd381f35e4", "e8043aaf8daf5eb0", "e9efbd43e3bc88b9", "38a165413eb4b705",
    "7a5d880314adbcff", "46bbf83270c34337", "c1a84b5661f62e85", "280fac7d5909893f",
    "134d3285b946a4db", "b8cd8567746036db"]

/-- The digests of retired public identifiers that count only as a whole. -/
def retiredIdentifiers : List String :=
  ["f28096f543bd6e84", "7f3c0a0d70f49edf", "e5e239560bc125a2"]

def retiredSystems : List String :=
  ["06d565b8871a5948"]

/-- The digests of the beginnings of public identifiers that are retired where there is no system
identifier. -/
def retiredWithoutSystem : List String :=
  ["37fd41e32b5f6885", "65cfe04d8e035247"]

/-- The beginnings of a text that end in a double slash. -/
def slashedBeginnings : List Char → List (List Char)
  | '/' :: '/' :: cs => ['/', '/'] :: (slashedBeginnings ('/' :: cs)).map ('/' :: ·)
  | c :: cs => (slashedBeginnings cs).map (c :: ·)
  | [] => []

/-- Whether a text begins with an identifier of which the digest is in a list. -/
def beginsWithOneOf (digests : List String) (s : String) : Bool :=
  (slashedBeginnings s.toList).any fun b =>
    decide (identifierDigest (String.ofList b) ∈ digests)

/-- Whether a document type asks for the legacy rules. -/
def Doctype.isLegacy (d : Doctype) : Bool :=
  let publicId := (d.publicId.map Text.lower).getD ""
  let systemId := (d.systemId.map Text.lower).getD ""
  d.broken || d.name ≠ some "html" ||
    (d.publicId.isSome && decide (identifierDigest publicId ∈ retiredIdentifiers)) ||
    (d.systemId.isSome && decide (identifierDigest systemId ∈ retiredSystems)) ||
    (d.publicId.isSome && beginsWithOneOf retiredBeginnings publicId) ||
    (d.publicId.isSome && d.systemId.isNone &&
      beginsWithOneOf retiredWithoutSystem publicId)

end Pane.Markup
