namespace Flowgraph

inductive InvokerError where
  | unknownVariable (name : String)
  | badExpression (text : String)
  | notOrdered (term : String)
  | unknownAction (key : String)
  | failed (reason : String)
deriving DecidableEq, Repr

def InvokerError.message : InvokerError → String
  | .unknownVariable n => s!"Unknown variable '{n}'"
  | .badExpression t => s!"Cannot evaluate expression: {t}"
  | .notOrdered t => s!"Cannot evaluate expression: {t} (ordering needs numeric operands)"
  | .unknownAction k => s!"Unknown action '{k}'"
  | .failed r => r

end Flowgraph
