import Flowgraph.Moment
import Mathlib.Algebra.Ring.Nat
import Mathlib.Data.List.TakeWhile

namespace Flowgraph.Moment

variable {n width : Nat} {c : Char} {ds r : List Char}

theorem natOfDigits_padded (width n : Nat) : natOfDigits (padded width n) = n := by
  have hzeros : ∀ (k : Nat) (cs : List Char),
      natOfDigits (List.replicate k '0' ++ cs) = natOfDigits cs := by
    intro k cs
    induction k with
    | zero => rfl
    | succ k ih => exact ih
  rw [padded, hzeros]
  exact Nat.ofDigitChars_toDigits (by decide) (by decide)

theorem isDigit_of_mem_padded (h : c ∈ padded width n) : c.isDigit = true := by
  rcases List.mem_append.1 h with h | h
  · rw [List.eq_of_mem_replicate h]
    rfl
  · exact Nat.isDigit_of_mem_toDigits (by decide) (by decide) h

theorem padded_ne_nil : padded width n ≠ [] :=
  List.append_ne_nil_of_right_ne_nil _ Nat.toDigits_ne_nil

theorem exists_cons_padded (width n : Nat) :
    ∃ d ds, padded width n = d :: ds ∧ d.isDigit = true := by
  obtain ⟨d, ds, h⟩ := List.exists_cons_of_ne_nil (@padded_ne_nil n width)
  exact ⟨d, ds, h, isDigit_of_mem_padded (h ▸ List.mem_cons_self)⟩

theorem length_padded (hw : 0 < width) (h : n < 10 ^ width) : (padded width n).length = width := by
  have hle := (Nat.length_toDigits_le_iff (by decide) hw).2 h
  rw [padded, List.length_append, List.length_replicate]
  omega

theorem isBlank_of_isDigit (h : c.isDigit = true) : Text.isBlank c = false := by
  have hrange : 48 ≤ c.toNat ∧ c.toNat ≤ 57 := Char.isDigit_iff_toNat.1 h
  simp only [Text.isBlank, Bool.or_eq_false_iff, Bool.and_eq_false_iff, decide_eq_false_iff_not,
    beq_eq_false_iff_ne]
  omega

theorem trimStart_cons (h : Text.isBlank c = false) : Text.trimStart (c :: r) = c :: r := by
  rw [Text.trimStart, List.dropWhile_cons, h]
  rfl

theorem readNumber_append (hne : ds ≠ []) (hds : ∀ c ∈ ds, c.isDigit = true)
    (hend : ((ds ++ r).take width).takeWhile Char.isDigit = ds) :
    readNumber width (ds ++ r) = some (natOfDigits ds, r) := by
  obtain ⟨d, ds', rfl⟩ := List.exists_cons_of_ne_nil hne
  have hblank := isBlank_of_isDigit (hds d List.mem_cons_self)
  rw [readNumber, List.cons_append, trimStart_cons hblank, ← List.cons_append, hend,
    List.drop_left]
  rfl

theorem readNumber_padded (hw : 0 < width) (h : n < 10 ^ width) (r : List Char) :
    readNumber width (padded width n ++ r) = some (n, r) := by
  have hlen := length_padded hw h
  have hend : ((padded width n ++ r).take width).takeWhile Char.isDigit = padded width n := by
    rw [List.take_left' hlen]
    exact List.takeWhile_eq_self_iff.2 fun c => isDigit_of_mem_padded
  rw [readNumber_append padded_ne_nil (fun c => isDigit_of_mem_padded) hend, natOfDigits_padded]

theorem takeWhile_digits (hds : ∀ c ∈ ds, c.isDigit = true) (hc : c.isDigit = false) :
    (ds ++ c :: r).takeWhile Char.isDigit = ds := by
  rw [List.takeWhile_append_of_pos hds, List.takeWhile_cons, hc]
  simp

theorem readMark_self (h : Text.isBlank c = false) : readMark c (c :: r) = some r := by
  rw [readMark, trimStart_cons h]
  simp

theorem readYear_of_isDigit (h : c.isDigit = true) :
    readYear (c :: r) = (readNumber 4 (c :: r)).map fun (n, r) => ((n : Int), r) := by
  rw [readYear, trimStart_cons (isBlank_of_isDigit h)]
  split
  case h_1 e =>
    obtain rfl := (List.cons.inj e).1
    cases h
  case h_2 e =>
    obtain rfl := (List.cons.inj e).1
    cases h
  case h_3 => rfl

theorem readYear_writeYear (y : Int) (r : List Char) :
    readYear (writeYear y ++ '-' :: r) = some (y, '-' :: r) := by
  have signed : ∀ m : Nat,
      readYear.signed (padded 4 m ++ '-' :: r) = some ((m : Int), '-' :: r) := by
    intro m
    have hdigits : ∀ c ∈ padded 4 m, c.isDigit = true := fun c => isDigit_of_mem_padded
    have hhead : (padded 4 m ++ '-' :: r).head?.any Char.isDigit = true := by
      obtain ⟨d, ds, hd, hdigit⟩ := exists_cons_padded 4 m
      rw [hd]
      exact hdigit
    have hend : ((padded 4 m ++ '-' :: r).take (padded 4 m ++ '-' :: r).length).takeWhile
        Char.isDigit = padded 4 m := by
      rw [List.take_length, takeWhile_digits hdigits rfl]
    rw [readYear.signed, if_pos hhead, readNumber_append padded_ne_nil hdigits hend,
      natOfDigits_padded]
    rfl
  rw [writeYear]
  split
  case isTrue h =>
    have hnumber : readNumber 4 (padded 4 y.toNat ++ '-' :: r) = some (y.toNat, '-' :: r) :=
      readNumber_padded (by decide) (by omega) _
    obtain ⟨d, ds, hd, hdigit⟩ := exists_cons_padded 4 y.toNat
    rw [hd, List.cons_append] at hnumber ⊢
    rw [readYear_of_isDigit hdigit, hnumber]
    exact congrArg (fun y => some (y, '-' :: r)) (Int.toNat_of_nonneg h.1)
  case isFalse h =>
    by_cases hneg : y < 0
    · rw [if_pos hneg, List.cons_append, readYear, trimStart_cons (by decide)]
      simp only [signed, Option.map_some]
      rw [Int.ofNat_natAbs_of_nonpos (by omega), Int.neg_neg]
    · rw [if_neg hneg, List.cons_append, readYear, trimStart_cons (by decide)]
      simp only [signed]
      rw [Int.natAbs_of_nonneg (by omega)]

theorem readFraction_writeFraction (h : n < 1000000000) :
    readFraction (writeFraction n ++ ['Z']) = some (n, ['Z']) := by
  have point : ∀ m width scale : Nat, 0 < width → width ≤ 9 → m < 10 ^ width →
      10 ^ (9 - width) = scale →
      readFraction ('.' :: padded width m ++ ['Z']) = some (m * scale, ['Z']) := by
    intro m width scale hw hle hm hscale
    have hdigits : ∀ c ∈ padded width m, c.isDigit = true := fun c => isDigit_of_mem_padded
    have hlen := length_padded hw hm
    have hsplit : Text.splitWhile Char.isDigit (padded width m ++ ['Z']) =
        (padded width m, ['Z']) := by
      rw [Text.splitWhile, takeWhile_digits hdigits rfl, List.dropWhile_append_of_pos hdigits]
      rfl
    have hnonempty : (padded width m).isEmpty = false := List.isEmpty_eq_false_iff.2 padded_ne_nil
    have hkept : (padded width m).take 9 = padded width m := List.take_of_length_le (by omega)
    rw [List.cons_append, readFraction]
    simp only [hsplit, hnonempty, hkept, natOfDigits_padded, hlen, ← hscale]
    rfl
  rw [writeFraction]
  split
  case isTrue hz =>
    subst hz
    rfl
  case isFalse =>
    split
    case isTrue hm =>
      rw [point _ 3 1000000 (by decide) (by decide) (by omega) (by decide),
        Nat.div_mul_cancel (Nat.dvd_of_mod_eq_zero hm)]
    case isFalse =>
      split
      case isTrue hm =>
        rw [point _ 6 1000 (by decide) (by decide) (by omega) (by decide),
          Nat.div_mul_cancel (Nat.dvd_of_mod_eq_zero hm)]
      case isFalse =>
        rw [point _ 9 1 (by decide) (by decide) (by omega) (by decide), Nat.mul_one]

theorem ofFields?_self (t : Moment) :
    ofFields? t.year t.month t.day t.hour t.minute t.second t.nano = some t :=
  dif_pos t.valid

theorem daysInMonth_le (y : Int) (m : Nat) : daysInMonth y m ≤ 31 := by
  rw [daysInMonth]
  split
  · split <;> omega
  · split <;> omega

theorem bounds (t : Moment) :
    t.month < 100 ∧ t.day < 100 ∧ t.hour < 24 ∧ t.minute < 60 ∧ t.second < 100 ∧
      t.nano < 1000000000 := by
  have hvalid := t.valid
  have hdays := daysInMonth_le t.year t.month
  simp only [isMoment, Bool.and_eq_true, decide_eq_true_eq] at hvalid
  omega

theorem fromZone_zero (t : Moment) : t.fromZone 0 = some t := by
  obtain ⟨-, -, hh, hm, -⟩ := t.bounds
  have hclock : ((60 * (t.hour : Int) + t.minute - 0) % 1440).toNat = 60 * t.hour + t.minute := by
    omega
  have hday : ¬(60 * (t.hour : Int) + t.minute - 0 < 0) ∧
      ¬1440 ≤ 60 * (t.hour : Int) + t.minute - 0 := by omega
  have hhour : (60 * t.hour + t.minute) / 60 = t.hour := by omega
  have hminute : (60 * t.hour + t.minute) % 60 = t.minute := by omega
  simp only [fromZone, hclock, if_neg hday.1, if_neg hday.2, hhour, hminute]
  exact t.ofFields?_self

theorem read_write (t : Moment) : read t.write = some t := by
  obtain ⟨hmonth, hday, hhour, hminute, hsecond, hnano⟩ := t.bounds
  have two : ∀ {m : Nat}, m < 100 → ∀ r, readNumber 2 (padded 2 m ++ r) = some (m, r) :=
    fun h r => readNumber_padded (by decide) h r
  have dash : ∀ r, readMark '-' ('-' :: r) = some r := fun r => readMark_self (by decide)
  have colon : ∀ r, readMark ':' (':' :: r) = some r := fun r => readMark_self (by decide)
  have zone : readZone ['Z'] = some (0, []) := by decide
  rw [read, write, String.toList_ofList, readChars]
  simp only [List.append_assoc, List.cons_append]
  -- the parts one after the other, each up to where the next one starts
  refine Option.bind_eq_some_iff.2 ⟨_, readYear_writeYear _ _, ?_⟩
  refine Option.bind_eq_some_iff.2 ⟨_, dash _, ?_⟩
  refine Option.bind_eq_some_iff.2 ⟨_, two hmonth _, ?_⟩
  refine Option.bind_eq_some_iff.2 ⟨_, dash _, ?_⟩
  refine Option.bind_eq_some_iff.2 ⟨_, two hday _, ?_⟩
  refine Option.bind_eq_some_iff.2 ⟨_, two (Nat.lt_trans hhour (by decide)) _, ?_⟩
  refine Option.bind_eq_some_iff.2 ⟨_, colon _, ?_⟩
  refine Option.bind_eq_some_iff.2 ⟨_, two (Nat.lt_trans hminute (by decide)) _, ?_⟩
  refine Option.bind_eq_some_iff.2 ⟨_, colon _, ?_⟩
  refine Option.bind_eq_some_iff.2 ⟨_, two hsecond _, ?_⟩
  refine Option.bind_eq_some_iff.2 ⟨_, readFraction_writeFraction hnano, ?_⟩
  refine Option.bind_eq_some_iff.2 ⟨_, zone, ?_⟩
  exact Option.bind_eq_some_iff.2 ⟨t, t.ofFields?_self, t.fromZone_zero⟩

end Flowgraph.Moment
