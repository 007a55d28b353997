namespace UInt32

def next? (n : UInt32) : Option UInt32 := if n = 4294967295 then none else some (n + 1)

theorem next?_eq_none {n : UInt32} : n.next? = none ↔ n = 4294967295 := by
  rw [next?]
  split <;> simp [*]

theorem eq_of_next? {n m : UInt32} (h : n.next? = some m) : m = n + 1 := by
  rw [next?] at h
  split at h
  · cases h
  · exact (Option.some.inj h).symm

theorem next?_eq_some {n m : UInt32} : n.next? = some m ↔ m.toNat = n.toNat + 1 := by
  have hm := m.toNat_lt
  have htop : n = 4294967295 ↔ n.toNat = 4294967295 := UInt32.toNat_inj.symm
  rw [next?]
  split
  case isTrue h =>
    have hn := htop.1 h
    exact ⟨nofun, fun e => by omega⟩
  case isFalse h =>
    have hn := n.toNat_lt
    have hlt : n.toNat ≠ 4294967295 := mt htop.2 h
    have hadd : (n + 1).toNat = n.toNat + 1 := by
      rw [UInt32.toNat_add]
      exact Nat.mod_eq_of_lt (by change n.toNat + 1 < 2 ^ 32; omega)
    rw [Option.some_inj, ← UInt32.toNat_inj, hadd]
    exact eq_comm

theorem exists_next? {n : UInt32} (h : n.toNat + 1 < UInt32.size) : ∃ m, n.next? = some m := by
  refine Option.ne_none_iff_exists'.1 fun hn => ?_
  rw [next?_eq_none.1 hn] at h
  exact absurd h (by decide)

end UInt32

namespace UInt64

def next? (n : UInt64) : Option UInt64 :=
  if n = 18446744073709551615 then none else some (n + 1)

theorem next?_eq_some {n m : UInt64} : n.next? = some m ↔ m.toNat = n.toNat + 1 := by
  have hm := m.toNat_lt
  have htop : n = 18446744073709551615 ↔ n.toNat = 18446744073709551615 := UInt64.toNat_inj.symm
  rw [next?]
  split
  case isTrue h =>
    have hn := htop.1 h
    exact ⟨nofun, fun e => by omega⟩
  case isFalse h =>
    have hn := n.toNat_lt
    have hlt : n.toNat ≠ 18446744073709551615 := mt htop.2 h
    have hadd : (n + 1).toNat = n.toNat + 1 := by
      rw [UInt64.toNat_add]
      exact Nat.mod_eq_of_lt (by change n.toNat + 1 < 2 ^ 64; omega)
    rw [Option.some_inj, ← UInt64.toNat_inj, hadd]
    exact eq_comm

theorem ne_zero_of_next? {n m : UInt64} (h : n.next? = some m) : m ≠ 0 := by
  rintro rfl
  exact absurd (next?_eq_some.1 h) (Nat.succ_ne_zero _).symm

theorem lt_of_next? {n m : UInt64} (h : n.next? = some m) : n < m := by
  have hm := next?_eq_some.1 h
  exact UInt64.lt_iff_toNat_lt.2 (by omega)

end UInt64
