namespace Flowgraph.Guard

def isQuote (c : Char) : Bool := c = '"' || c = '\''

def quoteAfter (c : Char) : Option Char → Option Char
  | some q => if c = q then none else some q
  | none => if isQuote c then some c else none

def cut (mark : List Char) (q : Option Char) : List Char → Option (List Char × List Char)
  | [] => none
  | c :: r =>
      if q.isNone && !isQuote c && mark.isPrefixOf (c :: r) then
        some ([], (c :: r).drop mark.length)
      else (cut mark (quoteAfter c q) r).map fun (before, behind) => (c :: before, behind)

def consFirst (c : Char) : List (List Char) → List (List Char)
  | [] => [[c]]
  | p :: ps => (c :: p) :: ps

def splitAt (mark : Char) (q : Option Char) : List Char → List (List Char)
  | [] => [[]]
  | [c] => [[c]]
  | c :: d :: r =>
      if q.isNone && c = mark && d = mark then [] :: splitAt mark none r
      else consFirst c (splitAt mark (quoteAfter c q) (d :: r))

end Flowgraph.Guard
