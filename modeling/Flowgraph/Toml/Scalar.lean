import Flowgraph.Number.Decimal
import Flowgraph.Moment
import Flowgraph.Number.Range
import Flowgraph.Toml.Basic

namespace Flowgraph.Toml

def isHexDigit (c : Char) : Bool :=
  c.isDigit || ('a' ≤ c && c ≤ 'f') || ('A' ≤ c && c ≤ 'F')

def hexDigitValue (c : Char) : Nat :=
  if c.isDigit then digitValue c
  else if 'a' ≤ c then c.toNat - 'a'.toNat + 10
  else c.toNat - 'A'.toNat + 10

def digits? (isDigit : Char → Bool) : List Char → Option (List Char)
  | [] => none
  | [c] => if isDigit c then some [c] else none
  | c :: '_' :: r => if isDigit c then (digits? isDigit r).map (c :: ·) else none
  | c :: r => if isDigit c then (digits? isDigit r).map (c :: ·) else none

def ofDigits (base : Nat) (ds : List Char) : Nat :=
  ds.foldl (fun n c => base * n + hexDigitValue c) 0

def splitSign : List Char → Bool × List Char
  | '+' :: r => (false, r)
  | '-' :: r => (true, r)
  | r => (false, r)

def wholeDigits? (cs : List Char) : Option (List Char) :=
  if cs.head? = some '0' && 1 < cs.length then none else digits? Char.isDigit cs

def inWord (n : Int) : Option Int := if IntRange.signed64.has n then some n else none

def based? (base : Nat) (cs : List Char) : Option Int :=
  (digits? (fun c => isHexDigit c && hexDigitValue c < base) cs).bind fun ds =>
    inWord (ofDigits base ds)

def int? : List Char → Option Int
  | '0' :: 'x' :: r => based? 16 r
  | '0' :: 'o' :: r => based? 8 r
  | '0' :: 'b' :: r => based? 2 r
  | cs =>
      let (negative, r) := splitSign cs
      (wholeDigits? r).bind fun ds =>
        inWord (Binary64.signed negative (ofDigits 10 ds))

def power? : List Char → Option (List Char)
  | [] => some []
  | c :: r =>
      if c = 'e' || c = 'E' then
        let (negative, r) := splitSign r
        (digits? Char.isDigit r).map fun ds => 'e' :: (if negative then '-' :: ds else ds)
      else none

def isPowerMark (c : Char) : Bool := c = 'e' || c = 'E'

def float? (cs : List Char) : Option Binary64 := do
  let (negative, r) := splitSign cs
  if r = "inf".toList then some (.infinite negative)
  else if r = "nan".toList then some .nan
  else
    let (whole, rest) := Text.splitWhile (fun c => c.isDigit || c = '_') r
    let whole ← wholeDigits? whole
    let (part, rest) ←
      match rest with
      | '.' :: r =>
          let (part, rest) := Text.splitWhile (fun c => !isPowerMark c) r
          (digits? Char.isDigit part).map fun ds => ('.' :: ds, rest)
      | c :: r => if isPowerMark c then some ([], c :: r) else none
      | [] => none
    let x ← Decimal.readUnsigned negative (whole ++ part ++ (← power? rest))
    if x = .infinite false then none else some x

def fixed? (width : Nat) (cs : List Char) : Option (Nat × List Char) :=
  let ds := cs.take width
  if ds.length = width && ds.all Char.isDigit then some (natOfDigits ds, cs.drop width) else none

def mark? (c : Char) : List Char → Option (List Char)
  | d :: r => if d = c then some r else none
  | [] => none

def clock? (cs : List Char) : Option (List Char) := do
  let (h, r) ← fixed? 2 cs
  let (m, r) ← fixed? 2 (← mark? ':' r)
  let (s, r) ← fixed? 2 (← mark? ':' r)
  let r ←
    match r with
    | '.' :: r =>
        let (ds, r) := Text.splitWhile Char.isDigit r
        if ds.isEmpty then none else some r
    | r => some r
  if h < 24 && m < 60 && s ≤ 60 then some r else none

def isZone : List Char → Bool
  | [] => true
  | ['Z'] => true
  | ['z'] => true
  | c :: r =>
      (c = '+' || c = '-') &&
        match (do
          let (h, r) ← fixed? 2 r
          let (m, r) ← fixed? 2 (← mark? ':' r)
          if h < 24 && m < 60 then some r else none : Option (List Char)) with
        | some [] => true
        | _ => false

def date? (cs : List Char) : Option (List Char) := do
  let (y, r) ← fixed? 4 cs
  let (m, r) ← fixed? 2 (← mark? '-' r)
  let (d, r) ← fixed? 2 (← mark? '-' r)
  if 1 ≤ m && m ≤ 12 && 1 ≤ d && d ≤ daysInMonth y m then some r else none

def isClock (dated : Bool) (cs : List Char) : Bool :=
  match clock? cs with
  | some r => if dated then isZone r else r.isEmpty
  | none => false

def isTime (cs : List Char) : Bool :=
  match date? cs with
  | some [] => true
  | some (c :: r) => (c = 'T' || c = 't' || c = ' ') && isClock true r
  | none => isClock false cs

def scalar? (word : List Char) : Option Toml :=
  if word = "true".toList then some (.bool true)
  else if word = "false".toList then some (.bool false)
  else if isTime word then some (.time (String.ofList word))
  else
    match int? word with
    | some n => some (.int n)
    | none => (float? word).map .float

end Flowgraph.Toml
