import Flowgraph.Proofs.Guard.Meaning

namespace Flowgraph

namespace Binary64

def place : Binary64 → Option (Int × Int)
  | .nan => none
  | .infinite s => some (signed s 1, 0)
  | .finite s u => some (0, signed s u)

theorem order_eq_iff {x y : Binary64} :
    x.order y = some .eq ↔ ∃ p, x.place = some p ∧ y.place = some p := by
  cases x with
  | nan => simp [order, place]
  | infinite s =>
    cases y with
    | nan => simp [order, place]
    | infinite t => cases s <;> cases t <;> simp [order, place, signed]
    | finite t v => cases s <;> simp [order, place, signed]
  | finite s u =>
    cases y with
    | nan => simp [order, place]
    | infinite t => cases t <;> simp [order, place, signed]
    | finite t v => simp [order, place, @eq_comm _ (signed t v)]

theorem ofRatio_ne_nan (negative : Bool) (n d : Nat) : ofRatio negative n d ≠ .nan := by
  unfold ofRatio
  dsimp only
  split <;> simp

end Binary64

namespace Decimal

def withoutSign : List Char → List Char
  | '+' :: cs => cs
  | '-' :: cs => cs
  | cs => cs

def isNotANumber (cs : List Char) : Bool := (withoutSign cs).map Char.toLower = ['n', 'a', 'n']

variable {cs : List Char}

theorem toBinary64_ne_nan (negative : Bool) (d : Decimal) : d.toBinary64 negative ≠ .nan := by
  unfold toBinary64
  dsimp only
  split
  · simp
  split
  · simp
  split <;> exact Binary64.ofRatio_ne_nan _ _ _

theorem le_toNat_of_toLower {c : Char} (h : c.toLower = 'n') : 65 ≤ c.toNat := by
  by_cases hu : c.val ≥ 'A'.val ∧ c.val ≤ 'Z'.val
  · exact UInt32.le_iff_toNat_le.mp hu.1
  · have hc : c.toLower = c := dif_neg hu
    rw [hc] at h
    simp [h]

theorem readMagnitude_eq_none {c : Char} (hc : c.isDigit = false) (hp : c ≠ '.') (r : List Char) :
    readMagnitude (c :: r) = none := by
  simp [readMagnitude, takeDigits, Text.splitWhile, hc, hp]

theorem readUnsigned_eq_nan_iff {negative : Bool} :
    readUnsigned negative cs = some .nan ↔ cs.map Char.toLower = ['n', 'a', 'n'] := by
  have hword : readWord negative cs = some .nan ↔ cs.map Char.toLower = ['n', 'a', 'n'] := by
    rw [← String.ofList_inj]
    unfold readWord
    dsimp only
    split
    case isTrue h => simpa using h
    case isFalse h => split <;> simpa using h
  unfold readUnsigned
  split
  case h_1 d hd =>
    -- no text with a magnitude begins with a letter
    simp only [Option.some.injEq, toBinary64_ne_nan, false_iff]
    intro h
    cases cs with
    | nil => cases h
    | cons c r =>
      have hc : 65 ≤ c.toNat := le_toNat_of_toLower (List.cons.inj h).1
      have hdigit : c.isDigit = false := by
        by_contra hd
        have hc' : 48 ≤ c.toNat ∧ c.toNat ≤ 57 := Char.isDigit_iff_toNat.mp (by simpa using hd)
        omega
      have hpoint : c ≠ '.' := by
        rintro rfl
        exact absurd hc (by decide)
      rw [readMagnitude_eq_none hdigit hpoint] at hd
      cases hd
  case h_2 => exact hword

theorem read_eq_nan_iff : read cs = some .nan ↔ isNotANumber cs = true := by
  rw [isNotANumber, decide_eq_true_iff]
  unfold read
  split
  · exact readUnsigned_eq_nan_iff
  · exact readUnsigned_eq_nan_iff
  · rw [withoutSign]
    · exact readUnsigned_eq_nan_iff
    · assumption
    · assumption

end Decimal

namespace Guard

open Text (Solid Blanks)

def equal (a b : String) : Bool :=
  match Decimal.read a.toList, Decimal.read b.toList with
  | some x, some y => x.order y = some .eq
  | _, _ => a = b

variable {a b c : String}

theorem apply_eq (term : String) : Comparison.eq.apply a b term = .ok (equal a b) := by
  unfold Comparison.apply equal
  cases Decimal.read a.toList <;> cases Decimal.read b.toList <;> rfl

theorem apply_ne (term : String) : Comparison.ne.apply a b term = .ok (!equal a b) := by
  unfold Comparison.apply equal
  cases Decimal.read a.toList <;> cases Decimal.read b.toList <;> simp [Comparison.holds]

theorem equal_iff :
    equal a b = true ↔
      (∃ x y p, Decimal.read a.toList = some x ∧ Decimal.read b.toList = some y ∧
        x.place = some p ∧ y.place = some p) ∨
      (Decimal.read a.toList = none ∧ a = b) := by
  unfold equal
  split
  case h_1 x y hx hy => simp [hx, hy, Binary64.order_eq_iff]
  case h_2 hn =>
    simp only [decide_eq_true_iff]
    constructor
    · rintro rfl
      refine .inr ⟨?_, rfl⟩
      cases hx : Decimal.read a.toList with
      | none => rfl
      | some x => exact (hn x x hx hx).elim
    · rintro (⟨x, y, -, hx, hy, -⟩ | ⟨-, h⟩)
      · exact (hn x y hx hy).elim
      · exact h

theorem equal_self : equal a a = true ↔ Decimal.isNotANumber a.toList = false := by
  rw [equal_iff, ← Bool.not_eq_true, ← Decimal.read_eq_nan_iff]
  cases hx : Decimal.read a.toList with
  | none => simp
  | some x => cases x <;> simp [Binary64.place]

theorem equal_symm (h : equal a b = true) : equal b a = true := by
  rw [equal_iff] at h ⊢
  rcases h with ⟨x, y, p, hx, hy, hp, hq⟩ | ⟨hx, rfl⟩
  · exact .inl ⟨y, x, p, hy, hx, hq, hp⟩
  · exact .inr ⟨hx, rfl⟩

theorem equal_comm (a b : String) : equal a b = equal b a :=
  Bool.eq_iff_iff.mpr ⟨equal_symm, equal_symm⟩

theorem equal_trans (hab : equal a b = true) (hbc : equal b c = true) : equal a c = true := by
  rw [equal_iff] at hab
  rcases hab with ⟨x, y, p, hx, hy, hp, hq⟩ | ⟨hx, rfl⟩
  · rw [equal_iff] at hbc ⊢
    rcases hbc with ⟨y', z, p', hy', hz, hp', hr⟩ | ⟨hn, -⟩
    · rw [hy] at hy'
      obtain rfl := Option.some.inj hy'
      obtain rfl := Option.some.inj (hq.symm.trans hp')
      exact .inl ⟨x, z, p, hx, hz, hp, hr⟩
    · rw [hy] at hn
      cases hn
  · exact hbc

section Evaluation

variable {vars : Variables} {t : Term}

theorem evaluate_of_written {text : String} (h : t.Written text.toList) :
    ∃ cs, t.Spelled cs ∧ evaluate vars text = evaluateTerm vars cs := by
  generalize htext : text.toList = padded at h
  obtain @⟨_, cs, _, ha, hs, hb⟩ := h
  have htrim : Text.trim text.toList = cs := by rw [htext, hs.solid.trim_padded ha hb]
  have hall : splitAt '|' none cs = [cs] :=
    splitAt_clear (by decide) (hs.clear.mono (by simp [isConnective]))
  have hterm : splitAt '&' none cs = [cs] :=
    splitAt_clear (by decide) (hs.clear.mono (by simp [isConnective]))
  have hn : ¬cs.isEmpty = true := by simpa using hs.solid.ne_nil
  have hcs : Text.trim cs = cs := hs.solid.trim_blanks_append (a := []) (List.forall_mem_nil _)
  refine ⟨cs, hs, ?_⟩
  rw [evaluate, htrim, if_neg hn, hall, evaluateAny, hterm, evaluateAll, hcs]
  rcases evaluateTerm vars cs with e | ⟨_ | _⟩ <;> rfl

def Answers (vars : Variables) (t : Term) (b : Bool) : Prop :=
  ∀ text : String, t.Written text.toList → evaluate vars text = .ok b

theorem Answers.unique {p q : Bool} (hp : Answers vars t p) (hq : Answers vars t q) : p = q := by
  obtain ⟨cs, h⟩ := t.exists_written
  have hw : t.Written (String.ofList cs).toList := by rwa [String.toList_ofList]
  exact Except.ok.inj ((hp _ hw).symm.trans (hq _ hw))

theorem answers_of_value {p : Bool} (h : t.value vars = .ok p) : Answers vars t p := by
  intro text hw
  obtain ⟨cs, hs, heval⟩ := evaluate_of_written hw
  have hvalue : (evaluateTerm vars cs).mapError fault = .ok p := by
    rw [evaluateTerm_spelled vars hs, h]
  rw [heval]
  cases hterm : evaluateTerm vars cs with
  | error e =>
    rw [hterm] at hvalue
    cases hvalue
  | ok b =>
    rw [hterm] at hvalue
    exact congrArg Except.ok (Except.ok.inj hvalue)

def Name.compared (x : Name) (c : Comparison) (y : Name) : Term := .compared (.named x) c (.named y)

variable {x y z : Name}

theorem value_compared {c : Comparison} (hx : vars.get? (String.ofList x.text) = some a)
    (hy : vars.get? (String.ofList y.text) = some b) :
    (x.compared c y).value vars = c.value a b := by
  simp [Name.compared, Term.value, Operand.value, hx, hy]
  rfl

theorem answers_eq (hx : vars.get? (String.ofList x.text) = some a)
    (hy : vars.get? (String.ofList y.text) = some b) :
    Answers vars (x.compared .eq y) (equal a b) := by
  refine answers_of_value ?_
  rw [value_compared hx hy, Comparison.value, apply_eq]
  rfl

theorem answers_ne (hx : vars.get? (String.ofList x.text) = some a)
    (hy : vars.get? (String.ofList y.text) = some b) :
    Answers vars (x.compared .ne y) (!equal a b) := by
  refine answers_of_value ?_
  rw [value_compared hx hy, Comparison.value, apply_ne]
  rfl

theorem equality_partial_equivalence (hx : vars.get? (String.ofList x.text) = some a)
    (hy : vars.get? (String.ofList y.text) = some b)
    (hz : vars.get? (String.ofList z.text) = some c) :
    Answers vars (x.compared .eq x) (!Decimal.isNotANumber a.toList) ∧
      (∃ p, Answers vars (x.compared .eq y) p ∧ Answers vars (y.compared .eq x) p ∧
        Answers vars (x.compared .ne y) (!p)) ∧
      (Answers vars (x.compared .eq y) true → Answers vars (y.compared .eq z) true →
        Answers vars (x.compared .eq z) true) := by
  refine ⟨?_, ⟨equal a b, answers_eq hx hy, ?_, answers_ne hx hy⟩, fun hxy hyz => ?_⟩
  · have hself : equal a a = !Decimal.isNotANumber a.toList := by
      rw [Bool.eq_iff_iff, equal_self, Bool.not_eq_true']
    exact hself ▸ answers_eq hx hx
  · exact equal_comm b a ▸ answers_eq hy hx
  · have hab : equal a b = true := (answers_eq hx hy).unique hxy
    have hbc : equal b c = true := (answers_eq hy hz).unique hyz
    exact equal_trans hab hbc ▸ answers_eq hx hz

theorem Name.written_compared (x : Name) (c : Comparison) (y : Name) :
    (x.compared c y).Written (x.text ++ [' '] ++ (c.symbol ++ ([' '] ++ y.text))) := by
  have blank : Blanks [' '] := List.forall_mem_singleton.mpr (by decide)
  have none : Blanks [] := List.forall_mem_nil _
  have hs : (x.compared c y).Spelled _ := .compared (.named x) c (.named y) blank blank
  have hw : (x.compared c y).Written ([] ++ _ ++ []) := .intro none hs none
  rwa [List.nil_append, List.append_nil] at hw

def letter (c : Char) (plain : isPlain c = true) (free : isLiteral [c] = false) : Name where
  text := [c]
  nonempty := List.cons_ne_nil c []
  trimmed :=
    have hs : Solid [c] := (Plain.cons plain (List.forall_mem_nil _)).solid (List.cons_ne_nil c [])
    hs.trim_blanks_append (a := []) (List.forall_mem_nil _)
  plain := List.forall_mem_singleton.mpr ((isPlain_iff c).mp plain).1
  notLiteral := free

def tens : Variables := Keyed.ofList [("x", "10"), ("y", "10.0"), ("z", "1e1")]

theorem equality_partial_equivalence_tens :
    evaluate tens "x == x" = .ok true ∧ evaluate tens "y == x" = .ok true ∧
      evaluate tens "x != y" = .ok false ∧ evaluate tens "x == z" = .ok true := by
  let x : Name := letter 'x' (by decide) (by decide)
  let y : Name := letter 'y' (by decide) (by decide)
  let z : Name := letter 'z' (by decide) (by decide)
  have hx : tens.get? (String.ofList x.text) = some "10" := by decide
  have hy : tens.get? (String.ofList y.text) = some "10.0" := by decide
  have hz : tens.get? (String.ofList z.text) = some "1e1" := by decide
  obtain ⟨hself, ⟨p, hp, hsymm, hne⟩, htrans⟩ := equality_partial_equivalence hx hy hz
  obtain ⟨-, ⟨q, hq, -⟩, -⟩ := equality_partial_equivalence hy hz hz
  obtain rfl : true = p := by
    have hxy : evaluate tens "x == y" = .ok true := by decide +kernel
    exact Except.ok.inj (hxy.symm.trans (hp _ (x.written_compared .eq y)))
  obtain rfl : true = q := by
    have hyz : evaluate tens "y == z" = .ok true := by decide +kernel
    exact Except.ok.inj (hyz.symm.trans (hq _ (y.written_compared .eq z)))
  exact ⟨hself _ (x.written_compared .eq x), hsymm _ (y.written_compared .eq x),
    hne _ (x.written_compared .ne y), htrans hp hq _ (x.written_compared .eq z)⟩

theorem nan_unequal_to_itself : evaluate (Keyed.ofList [("x", "nan")]) "x == x" = .ok false := by
  decide +kernel

end Evaluation

end Guard

end Flowgraph
