import Flowgraph.Number.Binary64
import Flowgraph.Text.Blank

namespace Flowgraph

def digitValue (c : Char) : Nat := c.toNat - '0'.toNat

def natOfDigits (cs : List Char) : Nat := cs.foldl (fun n c => 10 * n + digitValue c) 0

def digitCount (n : Nat) : Nat := if n = 0 then 0 else (Nat.toDigits 10 n).length

structure Decimal where
  digits : Nat
  exponent : Int
deriving DecidableEq, Repr

namespace Decimal

def toBinary64 (negative : Bool) (d : Decimal) : Binary64 :=
  let place := (digitCount d.digits : Int) + d.exponent
  -- beyond 400 places either way the binary number is settled
  if d.digits = 0 || place < -400 then .finite negative 0
  else if 400 < place then .infinite negative
  else if 0 ≤ d.exponent then .ofRatio negative (d.digits * Nat.pow 10 d.exponent.toNat) 1
  else .ofRatio negative d.digits (Nat.pow 10 (-d.exponent).toNat)

def takeDigits (cs : List Char) : List Char × List Char := Text.splitWhile Char.isDigit cs

def readPower : List Char → Option Int
  | '+' :: cs => unsigned cs
  | '-' :: cs => (unsigned cs).map (- ·)
  | cs => unsigned cs
where
  unsigned (cs : List Char) : Option Int :=
    if cs.isEmpty || cs.any (!·.isDigit) then none else some (natOfDigits cs)

def readMagnitude (cs : List Char) : Option Decimal :=
  let (whole, rest) := takeDigits cs
  let (part, rest) :=
    match rest with
    | '.' :: r => takeDigits r
    | r => ([], r)
  if whole.isEmpty && part.isEmpty then none
  else
    let scaled (power : Int) : Decimal := ⟨natOfDigits (whole ++ part), power - part.length⟩
    match rest with
    | [] => some (scaled 0)
    | c :: r => if c = 'e' || c = 'E' then (readPower r).map scaled else none

def readWord (negative : Bool) (cs : List Char) : Option Binary64 :=
  let word := String.ofList (cs.map Char.toLower)
  if word = "nan" then some .nan
  else if word = "inf" || word = "infinity" then some (.infinite negative)
  else none

def readUnsigned (negative : Bool) (cs : List Char) : Option Binary64 :=
  match readMagnitude cs with
  | some d => some (d.toBinary64 negative)
  | none => readWord negative cs

def read : List Char → Option Binary64
  | '+' :: cs => readUnsigned false cs
  | '-' :: cs => readUnsigned true cs
  | cs => readUnsigned false cs

end Decimal

end Flowgraph
