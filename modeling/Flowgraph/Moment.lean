import Flowgraph.Number.Decimal
import Flowgraph.Text.Blank

namespace Flowgraph

def isLeapYear (y : Int) : Bool := y % 4 = 0 && (y % 100 ≠ 0 || y % 400 = 0)

def daysInMonth (y : Int) (m : Nat) : Nat :=
  if m = 2 then (if isLeapYear y then 29 else 28)
  else if m = 4 || m = 6 || m = 9 || m = 11 then 30
  else 31

def isMoment (year : Int) (month day hour minute second nano : Nat) : Bool :=
  -262143 ≤ year && year ≤ 262142 && 1 ≤ month && month ≤ 12 && 1 ≤ day &&
    day ≤ daysInMonth year month && hour < 24 && minute < 60 && second ≤ 60 && nano < 1000000000

structure Moment where
  year : Int
  month : Nat
  day : Nat
  hour : Nat
  minute : Nat
  second : Nat
  nano : Nat
  valid : isMoment year month day hour minute second nano = true
deriving DecidableEq, Repr

namespace Moment

def ofFields? (year : Int) (month day hour minute second nano : Nat) : Option Moment :=
  if h : isMoment year month day hour minute second nano = true then
    some ⟨year, month, day, hour, minute, second, nano, h⟩
  else none

def dayBefore (y : Int) (m d : Nat) : Int × Nat × Nat :=
  if 1 < d then (y, m, d - 1)
  else if 1 < m then (y, m - 1, daysInMonth y (m - 1))
  else (y - 1, 12, 31)

def dayAfter (y : Int) (m d : Nat) : Int × Nat × Nat :=
  if d < daysInMonth y m then (y, m, d + 1)
  else if m < 12 then (y, m + 1, 1)
  else (y + 1, 1, 1)

def fromZone (ahead : Int) (t : Moment) : Option Moment :=
  let minutes : Int := 60 * t.hour + t.minute - ahead
  let clock := (minutes % 1440).toNat
  let (y, m, d) :=
    if minutes < 0 then dayBefore t.year t.month t.day
    else if 1440 ≤ minutes then dayAfter t.year t.month t.day
    else (t.year, t.month, t.day)
  ofFields? y m d (clock / 60) (clock % 60) t.second t.nano

def padded (width n : Nat) : List Char :=
  let ds := Nat.toDigits 10 n
  List.replicate (width - ds.length) '0' ++ ds

def writeYear (y : Int) : List Char :=
  if 0 ≤ y ∧ y ≤ 9999 then padded 4 y.toNat
  else (if y < 0 then '-' else '+') :: padded 4 y.natAbs

def writeFraction (nano : Nat) : List Char :=
  if nano = 0 then []
  else if nano % 1000000 = 0 then '.' :: padded 3 (nano / 1000000)
  else if nano % 1000 = 0 then '.' :: padded 6 (nano / 1000)
  else '.' :: padded 9 nano

def write (t : Moment) : String :=
  String.ofList <| writeYear t.year ++ '-' :: padded 2 t.month ++ '-' :: padded 2 t.day ++
    'T' :: padded 2 t.hour ++ ':' :: padded 2 t.minute ++ ':' :: padded 2 t.second ++
    writeFraction t.nano ++ ['Z']

def readNumber (width : Nat) (cs : List Char) : Option (Nat × List Char) :=
  let cs := Text.trimStart cs
  let ds := (cs.take width).takeWhile Char.isDigit
  if ds.isEmpty then none else some (natOfDigits ds, cs.drop ds.length)

def readYear (cs : List Char) : Option (Int × List Char) :=
  match Text.trimStart cs with
  | '-' :: r => (signed r).map fun (n, r) => (-n, r)
  | '+' :: r => signed r
  | r => (readNumber 4 r).map fun (n, r) => ((n : Int), r)
where
  signed (cs : List Char) : Option (Int × List Char) :=
    if cs.head?.any Char.isDigit then (readNumber cs.length cs).map fun (n, r) => ((n : Int), r)
    else none

def readMark (c : Char) (cs : List Char) : Option (List Char) :=
  match Text.trimStart cs with
  | d :: r => if d = c then some r else none
  | [] => none

def readFraction : List Char → Option (Nat × List Char)
  | '.' :: cs =>
      let (ds, r) := Text.splitWhile Char.isDigit cs
      if ds.isEmpty then none
      else
        let kept := ds.take 9
        some (natOfDigits kept * Nat.pow 10 (9 - kept.length), r)
  | cs => some (0, cs)

def isZoneGap (c : Char) : Bool := c = ':' || Text.isBlank c

def readOffset (cs : List Char) : Option (Int × List Char) := do
  let (behind, cs) ←
    match cs with
    | '+' :: r => some (false, r)
    | '-' :: r => some (true, r)
    | '\u2212' :: r => some (true, r)
    | _ => none
  let (h, cs) ← twoDigits cs
  let (m, cs) ← twoDigits (cs.dropWhile isZoneGap)
  if m < 60 ∧ h < 24 then
    let ahead : Int := 60 * h + m
    some (if behind then -ahead else ahead, cs)
  else none
where
  twoDigits : List Char → Option (Nat × List Char)
    | a :: b :: r => if a.isDigit && b.isDigit then some (natOfDigits [a, b], r) else none
    | _ => none

def readZone (cs : List Char) : Option (Int × List Char) :=
  let cs := Text.trimStart cs
  if (cs.take 3).map Char.toUpper = ['U', 'T', 'C'] then some (0, cs.drop 3)
  else
    match cs with
    | 'Z' :: r => some (0, r)
    | 'z' :: r => some (0, r)
    | r => readOffset r

def readChars (cs : List Char) : Option Moment := do
  let (year, cs) ← readYear cs
  let (month, cs) ← readNumber 2 (← readMark '-' cs)
  let (day, cs) ← readNumber 2 (← readMark '-' cs)
  let cs ←
    match cs with
    | c :: r => if c = 'T' || c = 't' || c = ' ' then some r else none
    | [] => none
  let (hour, cs) ← readNumber 2 cs
  let (minute, cs) ← readNumber 2 (← readMark ':' cs)
  let (second, cs) ← readNumber 2 (← readMark ':' cs)
  let (nano, cs) ← readFraction cs
  let (ahead, cs) ← readZone cs
  if (Text.trimStart cs).isEmpty then
    (← ofFields? year month day hour minute second nano).fromZone ahead
  else none

def read (s : String) : Option Moment := readChars s.toList

end Moment

end Flowgraph
