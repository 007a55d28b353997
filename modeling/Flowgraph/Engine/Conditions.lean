import Flowgraph.Engine.Invoker
import Flowgraph.Guard.Evaluate

namespace Flowgraph

structure Entities where
  entries : Keyed Target Guard.Variables

namespace Entities

def empty : Entities := ⟨.empty⟩

def variablesOf (e : Entities) (t : Target) : Guard.Variables := (e.entries.get? t).getD .empty

def setAll (e : Entities) (t : Target) (vs : Guard.Variables) : Entities :=
  ⟨e.entries.insert t vs⟩

def set (e : Entities) (t : Target) (k v : String) : Entities :=
  e.setAll t ((e.variablesOf t).insert k v)

def get? (e : Entities) (t : Target) (k : String) : Option String := (e.variablesOf t).get? k

def scalarText (floatText : Binary64 → String) : Json → Option String
  | .str s => some s
  | .bool b => some (if b then "true" else "false")
  | .int n => some (toString n)
  | .float x => some (floatText x)
  | _ => none

def writeField (floatText : Binary64 → String) (vs : Guard.Variables) (f : String × Json) :
    Guard.Variables :=
  match scalarText floatText f.2 with
  | some v => vs.insert f.1 v
  | none => vs

def writeBack (floatText : Binary64 → String) (e : Entities) (t : Target) (fields : Json.Fields) :
    Entities :=
  e.setAll t (fields.foldl (writeField floatText) (e.variablesOf t))

def describe (e : Entities) (actions : Nat) : String :=
  "ConditionInvoker \x7b entities: " ++ toString e.entries.size ++ ", actions: " ++
    toString actions ++ " \x7d"

end Entities

abbrev Action (ω : Type) := Site → ω → Except InvokerError Json × ω

structure Conditions (ω : Type) where
  floatText : Binary64 → String
  entities : ω → Entities
  putEntities : Entities → ω → ω
  action? : ω → String → Option (Action ω)

def Conditions.invoker {ω : Type} (c : Conditions ω) : Invoker ω where
  guard e site s := (Guard.evaluate ((c.entities s).variablesOf site.target) e, s)
  action key site s :=
    match c.action? s key with
    | none => (.error (.unknownAction key), s)
    | some act => act site s
  apply fields site s :=
    c.putEntities ((c.entities s).writeBack c.floatText site.target fields) s

end Flowgraph
