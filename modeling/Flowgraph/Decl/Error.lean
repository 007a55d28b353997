import Flowgraph.Decl.Token
import Flowgraph.Graph.Error

namespace Flowgraph

namespace Decl

inductive Flaw where
  | strangeChar (c : Char)
  | openText
  | digitLed (digits : String)
  | strangeInNode (text : String)
deriving DecidableEq, Repr

inductive Role where
  | source
  | target
deriving DecidableEq, Repr

inductive Fault where
  | noNodes
  | noStart
  | manyStarts (nodes : List NodeId)
  | unknownEndpoint (line : Nat) (role : Role) (node : NodeId)
  | duplicateTransition (id : TransitionId)
deriving DecidableEq, Repr

inductive Misfit where
  | notNumber (text : String)
  | outsideLimit (n : Int)
  | notSequence (n : Int)
  | outOfRange (n : Int)
deriving DecidableEq, Repr

end Decl

inductive DeclError where
  | unreadable (place : Place) (flaw : Decl.Flaw)
  | unexpected (expected : Decl.Kind) (found : String) (line : Nat)
  | cutShort (expected : Decl.Kind)
  | unknownKeyword (text : String)
  | unknownNodeKind (word : String)
  | unknownGate (word : String)
  | duplicateNode (id : NodeId)
  | invalid (fault : Decl.Fault)
  | missing (field : String)
  | misfit (field : String) (why : Decl.Misfit)
  | graph (error : GraphError)
deriving DecidableEq, Repr

namespace Decl

def Flaw.message : Flaw → String
  | .strangeChar c => s!"Unexpected character: '{c}'"
  | .openText => "Unterminated string literal"
  | .digitLed ds => s!"Identifiers cannot start with a digit: '{ds}...'"
  | .strangeInNode t => s!"Unexpected token in node body: '{t}'"

def Role.word : Role → String
  | .source => "source"
  | .target => "target"

def Fault.message : Fault → String
  | .noNodes => "Workflow must have at least one node"
  | .noStart => "Workflow must have a start node (NODE ... TYPE start)"
  | .manyStarts ns => "Workflow must have exactly one start node, found: " ++ ", ".intercalate ns
  | .unknownEndpoint l r n =>
      s!"Transition on line {l} references non-existent {r.word} node: '{n}'"
  | .duplicateTransition t => s!"Duplicate transition ID: '{t}'"

def Misfit.message : Misfit → String
  | .notNumber t => s!"'{t}' is not a valid number"
  | .outsideLimit n => s!"{n} is outside 1..=4294967295"
  | .notSequence n => s!"{n} does not fit in a 32-bit sequence"
  | .outOfRange n => s!"{n} is out of range"

end Decl

def DeclError.message : DeclError → String
  | .unreadable p f => s!"Parse error at line {p.line}, column {p.column}: {f.message}"
  | .unexpected e f l => s!"Unexpected token at line {l}: expected {e.name}, found '{f}'"
  | .cutShort e => s!"Unexpected end of input: expected {e.name}"
  | .unknownKeyword t => s!"Unknown keyword: '{t}'"
  | .unknownNodeKind w => s!"Unknown node type: '{w}'"
  | .unknownGate w => s!"Unknown logic operator: '{w}' (expected 'and' or 'or')"
  | .duplicateNode n => s!"Duplicate node ID: '{n}'"
  | .invalid f => s!"Validation error: {f.message}"
  | .missing f => s!"Missing required field: {f}"
  | .misfit f m => s!"Invalid value for '{f}': {m.message}"
  | .graph e => s!"Graph integrity error: {e.message}"

end Flowgraph
