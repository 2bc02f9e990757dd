/-!
# What can go wrong with a pane

Each error is a cause with the details of the case.  What the outside world is told of it — a code,
a message, the guarantee that did not hold, the place and some advice — is computed from the cause.

* `CompileError` — the causes.
* `CompileError.code`, `message`, `guarantee`, `context`, `hints` — what is told.
-/

namespace Pane

/-- The causes of failure. -/
inductive CompileError where
  /-- Options that cannot be read; the decoder says why. -/
  | badOptions (reason : String)
  /-- A document without a body, that is, one of frames. -/
  | noBody
  /-- A node with an identity that an earlier node has. -/
  | duplicateIdentity (id tag : String)
  /-- A node with an attribute that no node may keep. -/
  | attributeNotAllowed (name tag : String)
  | textWithChildren
  /-- A node with an identity of no characters. -/
  | emptyIdentity (tag : String)
  deriving DecidableEq, Repr

namespace CompileError

def code : CompileError → String
  | badOptions _ => "CP-ERR-PARSE"
  | noBody => "CP-ERR-ROOT"
  | duplicateIdentity _ _ => "INV001"
  | attributeNotAllowed _ _ => "INV002"
  | textWithChildren => "INV003"
  | emptyIdentity _ => "INV004"

def message : CompileError → String
  | badOptions _ => "Compile options are not valid JSON"
  | noBody => "Parsed document has no <body> to host the fragment"
  | duplicateIdentity id _ => "Identity \"" ++ id ++ "\" is assigned to more than one node"
  | attributeNotAllowed name tag => "Attribute \"" ++ name ++ "\" is not allowed on <" ++ tag ++ ">"
  | textWithChildren => "Text run has children"
  | emptyIdentity tag => "<" ++ tag ++ "> carries an empty identity"

/-- What was promised and did not hold. -/
def guarantee : CompileError → String
  | badOptions _ => "Markup is readable as an HTML5 fragment."
  | noBody => "Every fragment is hosted by a document body."
  | duplicateIdentity _ _ => "Each node identity appears at most once in a tree."
  | attributeNotAllowed _ _ =>
    "AST nodes only retain allow-listed attributes; raw style never survives."
  | textWithChildren => "Text runs are leaves."
  | emptyIdentity _ => "Assigned identities are non-empty."

def context : CompileError → Option String
  | badOptions reason => some reason
  | duplicateIdentity _ tag => some tag
  | _ => none

/-- What to do about it. -/
def hints : CompileError → List String
  | badOptions _ => ["Keys are camelCase: viewports, rewriteViewportUnits, extractStyleBlocks"]
  | noBody => ["Frameset documents cannot be compiled into a pane."]
  | duplicateIdentity _ _ => ["Copy-pasted markup must drop its data-node-id attributes."]
  | _ => []

end CompileError

end Pane
