namespace Flowgraph

def hexText (n : Nat) : String := String.ofList (Nat.toDigits 16 n)

def freshId (n : Nat) : String :=
  let digits := hexText n
  "7d0c5a1e-93b4-4f26-8e5d-" ++ String.ofList (List.replicate (12 - digits.length) '0') ++ digits

def hexValue (c : Char) : Nat :=
  if c.isDigit then c.toNat - '0'.toNat else c.toNat - 'a'.toNat + 10

def hexNumber (cs : List Char) : Nat := cs.foldl (fun n c => 16 * n + hexValue c) 0

theorem hexValue_digitChar : ∀ d : Fin 16, hexValue (Nat.digitChar d) = d := by decide

theorem hexNumber_concat (cs : List Char) (c : Char) :
    hexNumber (cs ++ [c]) = 16 * hexNumber cs + hexValue c := List.foldl_append ..

theorem hexNumber_toDigits (n : Nat) : hexNumber (Nat.toDigits 16 n) = n := by
  induction n using Nat.strongRecOn with
  | ind n ih =>
    have hvalue : ∀ d, d < 16 → hexValue (Nat.digitChar d) = d :=
      fun d hd => hexValue_digitChar ⟨d, hd⟩
    by_cases h : n < 16
    · rw [Nat.toDigits_of_lt_base h, ← List.nil_append [_], hexNumber_concat, hvalue n h]
      exact Nat.zero_add n
    · have hle : 16 ≤ n := Nat.le_of_not_lt h
      rw [Nat.toDigits_of_base_le (by decide) hle, hexNumber_concat,
        ih (n / 16) (by omega), hvalue (n % 16) (Nat.mod_lt n (by decide))]
      omega

theorem hexNumber_zeros (k : Nat) (cs : List Char) :
    hexNumber (List.replicate k '0' ++ cs) = hexNumber cs := by
  induction k with
  | zero => rfl
  | succ k ih => exact ih

theorem toList_padded (p : String) (zeros digits : List Char) :
    (p ++ String.ofList zeros ++ String.ofList digits).toList = p.toList ++ (zeros ++ digits) := by
  rw [String.toList_append, String.toList_append, String.toList_ofList, String.toList_ofList,
    List.append_assoc]

theorem freshId_injective {m n : Nat} (h : freshId m = freshId n) : m = n := by
  have hid : ∀ k, (freshId k).toList = "7d0c5a1e-93b4-4f26-8e5d-".toList ++
      (List.replicate (12 - (hexText k).length) '0' ++ Nat.toDigits 16 k) :=
    fun k => toList_padded _ _ _
  have hlist := congrArg String.toList h
  rw [hid, hid] at hlist
  have hnumber := congrArg hexNumber (List.append_cancel_left hlist)
  rw [hexNumber_zeros, hexNumber_zeros, hexNumber_toDigits, hexNumber_toDigits] at hnumber
  exact hnumber

structure Supply where
  draw : Nat → String
  injective : ∀ {m n}, draw m = draw n → m = n
  drawn : Nat := 0

namespace Supply

def numbered : Supply := { draw := freshId, injective := freshId_injective }

def next (s : Supply) : String := s.draw s.drawn

def advance (s : Supply) : Supply := { s with drawn := s.drawn + 1 }

end Supply

def takeBytes? : (bytes : Nat) → List Char → Option (List Char)
  | _, [] => some []
  | bytes, c :: r =>
      if bytes = 0 then some []
      else if bytes < c.utf8Size then none
      else (takeBytes? (bytes - c.utf8Size) r).map (c :: ·)

def shortId? (id : String) : Option String := (takeBytes? 8 id.toList).map String.ofList

end Flowgraph
