import LintLayer.Layer.Basic

/-!
# Services

A service answers the queries of an editor.  It is the host alone, or the
host with one layer in front of it; a second layer is never added.
-/

namespace LintLayer

/-- A query about one file. -/
inductive Query where
  | semantic (file : Path)
  | syntactic (file : Path)
  | fixesAt (file : Path) (span : Span) (codes : List String)
  | combinedFix (file : Path) (group : String)
  | sourceText (file : Path)
  deriving DecidableEq, Repr

/-- The answer to a query. -/
inductive Reply where
  | diagnostics (found : List Diagnostic)
  | actions (offered : List CodeAction)
  | combined (actions : CombinedActions)
  | text (text : Option String)
  deriving Repr

variable {σ lib : Type}

/-- The host's own answer. -/
def Host.answer (host : Host σ) : Query → StateM σ Reply
  | .semantic file => .diagnostics <$> host.semantic file
  | .syntactic file => .diagnostics <$> host.syntactic file
  | .fixesAt file span codes => .actions <$> host.fixesAt file span codes
  | .combinedFix file group => .combined <$> host.combinedFix file group
  | .sourceText file => .text <$> host.sourceText file

/-- The answer of the layer. -/
def Layer.answer (host : Host σ) (tools : Toolchain σ lib) : Query → Layer.Action σ lib Reply
  | .semantic file => .diagnostics <$> Layer.semantic host tools file
  | .syntactic file => .diagnostics <$> Layer.syntactic host file
  | .fixesAt file span codes => .actions <$> Layer.fixesAt host file span codes
  | .combinedFix file group => .combined <$> Layer.combinedFix host file group
  | .sourceText file => .text <$> Layer.sourceText host file

/-- The host alone, or the host with a layer. -/
inductive Service (lib : Type) where
  | plain
  | layered (layer : Layer lib)

namespace Service

/-- Whether a layer stands in front of the host. -/
def isLayered : Service lib → Bool
  | .plain => false
  | .layered _ => true

/-- Puts a layer in front of the host, unless there is one. -/
def decorate (host : Host σ) (options : Options) : Service lib → StateM σ (Service lib)
  | .plain => .layered <$> Layer.create host options
  | service => pure service

/-- The answer of the service, and the service after it. -/
def answer (host : Host σ) (tools : Toolchain σ lib) (query : Query) :
    Service lib → StateM σ (Reply × Service lib)
  | .plain => (·, .plain) <$> host.answer query
  | .layered layer => do
    let (reply, layer) ← (Layer.answer host tools query).run layer
    return (reply, .layered layer)

end Service

end LintLayer
