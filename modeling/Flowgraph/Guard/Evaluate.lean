import Flowgraph.Guard.Operand
import Flowgraph.Text.Blank

namespace Flowgraph.Guard

def truth : String → Option Bool
  | "true" => some true
  | "1" => some true
  | "false" => some false
  | "0" => some false
  | "" => some false
  | _ => none

def evaluateBare (vars : Variables) (term : List Char) : Except InvokerError Bool := do
  let (negated, operand) :=
    match term with
    | '!' :: r => (true, Text.trim r)
    | t => (false, t)
  match truth (← resolve vars operand) with
  | some b => .ok (b != negated)
  | none => .error (.badExpression (String.ofList term))

def findComparison (term : List Char) : Option (Comparison × List Char × List Char) :=
  Comparison.all.findSome? fun c => (cut c.symbol none term).map fun (l, r) => (c, l, r)

def evaluateTerm (vars : Variables) (term : List Char) : Except InvokerError Bool :=
  if term.isEmpty then .error (.badExpression "")
  else
    match findComparison term with
    | some (c, left, right) => do
        let a ← resolve vars (Text.trim left)
        let b ← resolve vars (Text.trim right)
        c.apply a b (String.ofList term)
    | none => evaluateBare vars term

def evaluateAll (vars : Variables) : List (List Char) → Except InvokerError Bool
  | [] => .ok true
  | t :: ts =>
      match evaluateTerm vars (Text.trim t) with
      | .ok true => evaluateAll vars ts
      | r => r

def evaluateAny (vars : Variables) : List (List Char) → Except InvokerError Bool
  | [] => .ok false
  | p :: ps =>
      match evaluateAll vars (splitAt '&' none p) with
      | .ok false => evaluateAny vars ps
      | r => r

def evaluate (vars : Variables) (text : String) : Except InvokerError Bool :=
  let cs := Text.trim text.toList
  if cs.isEmpty then .error (.badExpression "") else evaluateAny vars (splitAt '|' none cs)

end Flowgraph.Guard
