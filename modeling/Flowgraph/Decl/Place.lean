namespace Flowgraph

structure Place where
  line : Nat := 1
  column : Nat := 1
deriving DecidableEq, Repr

namespace Place

def next (p : Place) (c : Char) : Place :=
  if c = '\n' then ⟨p.line + 1, 1⟩ else ⟨p.line, p.column + 1⟩

def after (p : Place) (cs : List Char) : Place := cs.foldl next p

theorem after_append (p : Place) (cs ds : List Char) :
    p.after (cs ++ ds) = (p.after cs).after ds := List.foldl_append

end Place

end Flowgraph
