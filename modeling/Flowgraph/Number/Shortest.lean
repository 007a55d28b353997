import Flowgraph.Number.Decimal

namespace Flowgraph.Binary64

def firstPlace (units : Nat) : Int :=
  (digitCount (units * Nat.pow 10 400 / unitsPerOne) : Int) - 401

def spacingBelow (units : Nat) : Nat :=
  let s := spacing units
  if units = Nat.pow 2 units.log2 && 1 < s then s else 2 * s

def miss? (units : Nat) (place : Int) (digits : Nat) : Option Nat :=
  let up := Nat.pow 10 (-place).toNat
  let here := 4 * (units * up)
  let there := 4 * (digits * (unitsPerOne * Nat.pow 10 place.toNat))
  let s := spacing units
  let high := here + 2 * s * up
  let low := here - spacingBelow units * up
  let even := units / s % 2 = 0
  if (low < there || (even && low = there)) && (there < high || (even && there = high)) then
    some (if there < here then here - there else there - here)
  else none

def nearer (units : Nat) (place : Int) : Option Nat :=
  let q := units * Nat.pow 10 (-place).toNat / (unitsPerOne * Nat.pow 10 place.toNat)
  match miss? units place q, miss? units place (q + 1) with
  | none, none => none
  | some _, none => some q
  | none, some _ => some (q + 1)
  | some a, some b =>
      some (if a < b then q else if b < a then q + 1 else if q % 2 = 0 then q else q + 1)

def search (units : Nat) (place : Int) : Nat → Decimal
  | 0 => ⟨units * Nat.pow 10 (-place).toNat / (unitsPerOne * Nat.pow 10 place.toNat), place⟩
  | tries + 1 =>
      match nearer units place with
      | some d => ⟨d, place⟩
      | none => search units (place - 1) tries

def shortest (units : Nat) : Decimal :=
  -- seventeen digits tell any two finite numbers apart
  if units = 0 then ⟨0, 0⟩ else search units (firstPlace units) 17

end Flowgraph.Binary64
