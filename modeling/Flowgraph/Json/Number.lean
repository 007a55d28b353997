import Flowgraph.Json.Basic
import Flowgraph.Number.Shortest

namespace Flowgraph.Json

namespace Number

def wordLimit : Nat := 18446744073709551616

structure Gathered where
  digits : Nat := 0
  dropped : Int := 0
  full : Bool := false

def Gathered.takeWhole (g : Gathered) (c : Char) : Gathered :=
  let n := 10 * g.digits + digitValue c
  if g.full || wordLimit ≤ n then { g with dropped := g.dropped + 1, full := true }
  else { g with digits := n }

def Gathered.takePart (g : Gathered) (c : Char) : Gathered :=
  let n := 10 * g.digits + digitValue c
  if g.full || wordLimit ≤ n then { g with full := true }
  else { g with digits := n, dropped := g.dropped - 1 }

def product : Binary64 → Binary64 → Binary64
  | .finite s u, .finite t v =>
      .ofRatio (s != t) (u * v) (Binary64.unitsPerOne * Binary64.unitsPerOne)
  | _, _ => .nan

def quotient : Binary64 → Binary64 → Binary64
  | .finite s u, .finite t v => .ofRatio (s != t) u v
  | _, _ => .nan

def tenTo (n : Nat) : Binary64 := .ofRatio false (Nat.pow 10 n) 1

def scale (x : Binary64) (power : Int) : Option Binary64 :=
  if 0 ≤ power then
    if power ≤ 308 then
      match product x (tenTo power.toNat) with
      | .finite s u => some (.finite s u)
      | _ => none
    else if x = .finite false 0 then some x
    else none
  else down x (-power).toNat 3 -- powers of ten beyond 308 are reached in steps
where
  down (x : Binary64) (power : Nat) : Nat → Option Binary64
    | 0 => some (.finite false 0)
    | steps + 1 =>
        if power ≤ 308 then some (quotient x (tenTo power))
        else down (quotient x (tenTo 308)) (power - 308) steps

def float (negative : Bool) (digits : Nat) (power : Int) : Option Json :=
  (scale (.ofRatio false digits 1) power).map fun x =>
    .float (if negative then x.negate else x)

def whole (negative : Bool) (g : Gathered) : Option Json :=
  if g.full then float negative g.digits g.dropped
  else if !negative then some (.int g.digits)
  else if g.digits = 0 || wordLimit / 2 < g.digits then
    some (.float (Binary64.ofRatio false g.digits 1).negate)
  else some (.int (-g.digits))

def readPower : List Char → Option (Int × List Char)
  | '+' :: cs => unsigned cs
  | '-' :: cs => (unsigned cs).map fun (n, r) => (-n, r)
  | cs => unsigned cs
where
  unsigned (cs : List Char) : Option (Int × List Char) :=
    let (ds, r) := Text.splitWhile Char.isDigit cs
    if ds.isEmpty then none else some ((natOfDigits ds : Int), r)

def readUnsigned (negative : Bool) (cs : List Char) : Option (Json × List Char) := do
  let (ds, rest) := Text.splitWhile Char.isDigit cs
  if ds.isEmpty || (1 < ds.length && ds.head? = some '0') then none
  else
    let g := ds.foldl Gathered.takeWhole {}
    let (g, rest, floating) ←
      match rest with
      | '.' :: r =>
          let (ps, r) := Text.splitWhile Char.isDigit r
          if ps.isEmpty then none
          else some (ps.foldl Gathered.takePart { g with full := false }, r, true)
      | r => some (g, r, false)
    match rest with
    | c :: r =>
        if c = 'e' || c = 'E' then
          let (power, r) ← readPower r
          (float negative g.digits (g.dropped + power)).map (·, r)
        else if floating then (float negative g.digits g.dropped).map (·, c :: r)
        else (whole negative g).map (·, c :: r)
    | [] =>
        if floating then (float negative g.digits g.dropped).map (·, [])
        else (whole negative g).map (·, [])

def read : List Char → Option (Json × List Char)
  | '-' :: cs => readUnsigned true cs
  | cs => readUnsigned false cs

def floatText (x : Binary64) : String :=
  match x with
  | .finite negative u => (if negative then "-" else "") ++ magnitude u
  | _ => "null"
where
  magnitude (u : Nat) : String :=
    let d := Binary64.shortest u
    let all := Nat.toDigits 10 d.digits
    let ds := (all.reverse.dropWhile (· = '0')).reverse
    let first : Int := (all.length : Int) + d.exponent - 1
    if u = 0 then "0.0"
    else if 0 ≤ first && first < 16 then
      let whole := first.toNat + 1
      if ds.length ≤ whole then
        String.ofList (ds ++ List.replicate (whole - ds.length) '0') ++ ".0"
      else String.ofList (ds.take whole) ++ "." ++ String.ofList (ds.drop whole)
    else if -5 ≤ first && first < 0 then
      "0." ++ String.ofList (List.replicate (-first - 1).toNat '0' ++ ds)
    else
      let part := if ds.length ≤ 1 then "" else "." ++ String.ofList (ds.drop 1)
      String.ofList (ds.take 1) ++ part ++ "e" ++ (if first < 0 then "-" else "+") ++
        toString first.natAbs

end Number

end Flowgraph.Json
