namespace Flowgraph

inductive Binary64 where
  | nan
  | infinite (negative : Bool)
  | finite (negative : Bool) (units : Nat)
deriving DecidableEq, Repr

namespace Binary64

def roundDiv (n d : Nat) : Nat :=
  let q := n / d
  let r := 2 * (n % d)
  if r < d then q else if d < r then q + 1 else if q % 2 = 0 then q else q + 1

def unitsPerOne : Nat := Nat.pow 2 1074

def limit : Nat := Nat.pow 2 2098

def spacing (units : Nat) : Nat := Nat.pow 2 (units.log2 + 1 - 53)

def ofRatio (negative : Bool) (n d : Nat) : Binary64 :=
  let m := n * unitsPerOne
  let s := spacing (m / d)
  let u := roundDiv m (d * s) * s
  if u < limit then .finite negative u else .infinite negative

def zero : Binary64 := .finite false 0

def negate : Binary64 → Binary64
  | .nan => .nan
  | .infinite s => .infinite !s
  | .finite s u => .finite (!s) u

def signed (negative : Bool) (n : Nat) : Int := if negative then -(n : Int) else n

def order : Binary64 → Binary64 → Option Ordering
  | .nan, _ => none
  | _, .nan => none
  | .infinite s, .infinite t => some (if s = t then .eq else if s then .lt else .gt)
  | .infinite s, .finite _ _ => some (if s then .lt else .gt)
  | .finite _ _, .infinite t => some (if t then .gt else .lt)
  | .finite s u, .finite t v => some (compare (signed s u) (signed t v))

end Binary64

end Flowgraph
