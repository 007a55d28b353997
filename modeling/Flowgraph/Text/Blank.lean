namespace Flowgraph.Text

def splitWhile (p : Char → Bool) (cs : List Char) : List Char × List Char :=
  (cs.takeWhile p, cs.dropWhile p)

theorem splitWhile_append (p : Char → Bool) (cs : List Char) :
    (splitWhile p cs).1 ++ (splitWhile p cs).2 = cs := List.takeWhile_append_dropWhile

def isBlank (c : Char) : Bool :=
  let n := c.toNat
  (0x9 ≤ n && n ≤ 0xD) || n == 0x20 || n == 0x85 || n == 0xA0 || n == 0x1680 ||
    (0x2000 ≤ n && n ≤ 0x200A) || n == 0x2028 || n == 0x2029 || n == 0x202F || n == 0x205F ||
    n == 0x3000

def trimStart (cs : List Char) : List Char := cs.dropWhile isBlank

def trimEnd : List Char → List Char
  | [] => []
  | c :: cs =>
      match trimEnd cs with
      | [] => if isBlank c then [] else [c]
      | d :: ds => c :: d :: ds

def trim (cs : List Char) : List Char := trimEnd (trimStart cs)

end Flowgraph.Text
