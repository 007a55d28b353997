import Flowgraph.Keyed
import Flowgraph.Number.Binary64

namespace Flowgraph

inductive TableForm where
  | opened
  | implied
  | dotted
  | inline
deriving DecidableEq, Repr

inductive Toml where
  | str (s : String)
  | int (n : Int)
  | float (x : Binary64)
  | bool (b : Bool)
  | time (text : String)
  | arr (items : List Toml)
  | table (form : TableForm) (entries : List (String × Toml))
  | tables (elements : List (List (String × Toml)))
deriving Repr

namespace Toml

abbrev Entries := List (String × Toml)

def replaceLast {α : Type} (f : α → Option α) : List α → Option (List α)
  | [] => none
  | [a] => (f a).map ([·])
  | a :: as => (replaceLast f as).map (a :: ·)

def descend (dotted : Bool) (change : TableForm → Entries → Option Entries) :
    TableForm → List String → Entries → Option Entries
  | form, [], es => change form es
  | _, k :: ks, es =>
      match Keyed.find k es with
      | none =>
          let form := if dotted then TableForm.dotted else TableForm.implied
          (descend dotted change form ks []).map fun sub => Keyed.put k (.table form sub) es
      | some (.table form sub) =>
          if form = .inline || (dotted && form = .opened) then none
          else
            (descend dotted change form ks sub).map fun sub => Keyed.put k (.table form sub) es
      | some (.tables elements) =>
          (replaceLast (descend dotted change .opened ks) elements).map fun elements =>
            Keyed.put k (.tables elements) es
      | some _ => none

def addValue (path : List String) (key : String) (v : Toml) (form : TableForm) (es : Entries) :
    Option Entries :=
  let add (form : TableForm) (es : Entries) : Option Entries :=
    if (form = .dotted) = path.isEmpty || (Keyed.find key es).isSome then none
    else some (Keyed.put key v es)
  descend true add form path es

def addUnder (header path : List String) (key : String) (v : Toml) (es : Entries) :
    Option Entries :=
  descend false (addValue path key v) .opened header es

def openTable (path : List String) (key : String) (es : Entries) : Option Entries :=
  let openHere (_ : TableForm) (es : Entries) : Option Entries :=
    match Keyed.find key es with
    | none => some (Keyed.put key (.table .opened []) es)
    | some (.table .implied sub) => some (Keyed.put key (.table .opened sub) es)
    | some _ => none
  descend false openHere .opened path es

def openElement (path : List String) (key : String) (es : Entries) : Option Entries :=
  let openHere (_ : TableForm) (es : Entries) : Option Entries :=
    match Keyed.find key es with
    | none => some (Keyed.put key (.tables [[]]) es)
    | some (.tables elements) => some (Keyed.put key (.tables (elements ++ [[]])) es)
    | some _ => none
  descend false openHere .opened path es

end Toml

end Flowgraph
