namespace Flowgraph

structure IntRange where
  low : Int
  high : Int
deriving DecidableEq, Repr

namespace IntRange

def unsigned32 : IntRange := ⟨0, 4294967295⟩

def unsigned64 : IntRange := ⟨0, 18446744073709551615⟩

def signed32 : IntRange := ⟨-2147483648, 2147483647⟩

def signed64 : IntRange := ⟨-9223372036854775808, 9223372036854775807⟩

def has (r : IntRange) (n : Int) : Bool := r.low ≤ n && n ≤ r.high

theorem has_iff {r : IntRange} {n : Int} : r.has n = true ↔ r.low ≤ n ∧ n ≤ r.high := by
  rw [has, Bool.and_eq_true, decide_eq_true_iff, decide_eq_true_iff]

end IntRange

end Flowgraph
