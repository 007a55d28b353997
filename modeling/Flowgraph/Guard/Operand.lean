import Flowgraph.Guard.Error
import Flowgraph.Guard.Quotes
import Flowgraph.Keyed
import Flowgraph.Number.Decimal

namespace Flowgraph.Guard

abbrev Variables := Keyed String String

def unquoted? : List Char → Option (List Char)
  | [] => none
  | c :: r =>
      if isQuote c && !r.isEmpty && r.getLast? = some c then some r.dropLast else none

def isLiteral (cs : List Char) : Bool :=
  cs = "true".toList || cs = "false".toList || (Decimal.read cs).isSome

def resolve (vars : Variables) (cs : List Char) : Except InvokerError String :=
  if cs.isEmpty then .error (.badExpression "")
  else
    match unquoted? cs with
    | some t => .ok (String.ofList t)
    | none =>
        let name := String.ofList cs
        if isLiteral cs then .ok name
        else
          match vars.get? name with
          | some v => .ok v
          | none => .error (.unknownVariable name)

inductive Comparison where
  | eq
  | ne
  | ge
  | le
  | gt
  | lt
deriving DecidableEq, Repr

namespace Comparison

def all : List Comparison := [.eq, .ne, .ge, .le, .gt, .lt]

def symbol : Comparison → List Char
  | .eq => ['=', '=']
  | .ne => ['!', '=']
  | .ge => ['>', '=']
  | .le => ['<', '=']
  | .gt => ['>']
  | .lt => ['<']

def holds : Comparison → Option Ordering → Bool
  | .eq, o => o = some .eq
  | .ne, o => o ≠ some .eq
  | .ge, o => o = some .gt || o = some .eq
  | .le, o => o = some .lt || o = some .eq
  | .gt, o => o = some .gt
  | .lt, o => o = some .lt

def apply (c : Comparison) (a b term : String) : Except InvokerError Bool :=
  match Decimal.read a.toList, Decimal.read b.toList with
  | some x, some y => .ok (c.holds (x.order y))
  | _, _ =>
      match c with
      | .eq => .ok (a = b)
      | .ne => .ok (a ≠ b)
      | _ => .error (.notOrdered term)

end Comparison

end Flowgraph.Guard
