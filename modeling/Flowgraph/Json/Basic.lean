import Flowgraph.Keyed
import Flowgraph.Number.Binary64

namespace Flowgraph

inductive Json where
  | null
  | bool (b : Bool)
  | int (n : Int)
  | float (x : Binary64)
  | str (s : String)
  | arr (items : List Json)
  | obj (fields : List (String × Json))
deriving Repr

namespace Json

abbrev Fields := List (String × Json)

def ofFields (l : List (String × Json)) : Json :=
  .obj (l.foldl (fun fs e => Keyed.put e.1 e.2 fs) [])

def field? (k : String) : Json → Option Json
  | .obj fs => Keyed.find k fs
  | _ => none

mutual

def mergeFields (into : Fields) : Fields → Fields
  | [] => into
  | (k, v) :: rest => mergeFields (Keyed.put k (mergeValue (Keyed.find k into) v) into) rest

def mergeValue (old : Option Json) : Json → Json
  | .obj incoming =>
      match old with
      | some (.obj existing) => .obj (mergeFields existing incoming)
      | _ => .obj incoming
  | v => v

end

def merge (into : Fields) : Json → Fields
  | .obj incoming => mergeFields into incoming
  | _ => into

end Json

end Flowgraph
