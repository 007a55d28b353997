import Flowgraph.Guard.Operand
import Flowgraph.Proofs.Guard.Outside
import Flowgraph.Proofs.Text.Trim

namespace Flowgraph.Guard

open Text (Solid Blanks isBlank)

inductive Fault where
  | unknownVariable (name : String)
  | invalidExpression
  | unknownAction
  | failed
deriving DecidableEq, Repr

def fault : InvokerError → Fault
  | .unknownVariable n => .unknownVariable n
  | .badExpression _ => .invalidExpression
  | .notOrdered _ => .invalidExpression
  | .unknownAction _ => .unknownAction
  | .failed _ => .failed

def isSign (c : Char) : Bool := c ∈ ['=', '!', '<', '>', '&', '|']

structure Name where
  text : List Char
  nonempty : text ≠ []
  trimmed : Text.trim text = text
  plain : ∀ c ∈ text, isQuote c = false ∧ isSign c = false
  notLiteral : isLiteral text = false

inductive Operand where
  | quoted (mark : Char) (body : List Char) (opens : isQuote mark = true) (closes : mark ∉ body)
  | number (text : List Char) (reads : (Decimal.read text).isSome = true)
  | truth (b : Bool)
  | named (name : Name)

namespace Operand

def text : Operand → List Char
  | quoted mark body _ _ => mark :: (body ++ [mark])
  | number t _ => t
  | truth b => (toString b).toList
  | named n => n.text

def value (vars : Variables) : Operand → Except Fault String
  | quoted _ body _ _ => .ok (String.ofList body)
  | number t _ => .ok (String.ofList t)
  | truth b => .ok (toString b)
  | named n =>
      match vars.get? (String.ofList n.text) with
      | some v => .ok v
      | none => .error (.unknownVariable (String.ofList n.text))

end Operand

section Characters

def isPlain (c : Char) : Bool := !isQuote c && !isSign c && !isBlank c

theorem isPlain_iff (c : Char) :
    isPlain c = true ↔ (isQuote c = false ∧ isSign c = false) ∧ isBlank c = false := by
  simp [isPlain]

theorem unmarked {p : Char → Bool}
    (hp : ['"', '\'', '=', '!', '<', '>', '&', '|'].all (!p ·) = true) {c : Char}
    (h : p c = true) : isQuote c = false ∧ isSign c = false := by
  have hc : c ∉ ['"', '\'', '=', '!', '<', '>', '&', '|'] := by
    intro hm
    simpa [h] using List.all_eq_true.mp hp c hm
  simp only [List.mem_cons, not_or] at hc
  simp [isQuote, isSign, hc]

theorem unmarked_of_isBlank {c : Char} (h : isBlank c = true) :
    isQuote c = false ∧ isSign c = false :=
  unmarked (by decide) h

theorem isPlain_of_toNat {c : Char}
    (h : 48 ≤ c.toNat ∧ c.toNat ≤ 57 ∨ 65 ≤ c.toNat ∧ c.toNat ≤ 90 ∨
      97 ≤ c.toNat ∧ c.toNat ≤ 122) : isPlain c = true := by
  have hu := unmarked (p := fun c => decide (48 ≤ c.toNat ∧ c.toNat ≤ 57 ∨
    65 ≤ c.toNat ∧ c.toNat ≤ 90 ∨ 97 ≤ c.toNat ∧ c.toNat ≤ 122)) (by decide) (decide_eq_true h)
  refine (isPlain_iff c).mpr ⟨hu, ?_⟩
  simp only [isBlank, Bool.or_eq_false_iff, Bool.and_eq_false_iff, decide_eq_false_iff_not,
    beq_eq_false_iff_ne]
  omega

theorem isPlain_of_isDigit {c : Char} (h : c.isDigit = true) : isPlain c = true :=
  isPlain_of_toNat (.inl (Char.isDigit_iff_toNat.mp h))

theorem isPlain_of_toLower {c : Char} (h : isPlain c.toLower = true) : isPlain c = true := by
  by_cases hu : c.val ≥ 'A'.val ∧ c.val ≤ 'Z'.val
  · have hc : 65 ≤ c.toNat ∧ c.toNat ≤ 90 :=
      ⟨UInt32.le_iff_toNat_le.mp hu.1, UInt32.le_iff_toNat_le.mp hu.2⟩
    exact isPlain_of_toNat (.inr (.inl hc))
  · have hc : c.toLower = c := dif_neg hu
    rwa [hc] at h

end Characters

def Plain (cs : List Char) : Prop := ∀ c ∈ cs, isPlain c = true

theorem plain_truth (b : Bool) : Plain (toString b).toList := by
  have h : (toString b).toList.all isPlain = true := by cases b <;> decide
  exact List.all_eq_true.mp h

namespace Plain

variable {cs : List Char}

theorem cons {c : Char} (hc : isPlain c = true) (h : Plain cs) : Plain (c :: cs) :=
  List.forall_mem_cons.mpr ⟨hc, h⟩

theorem unmarked (h : Plain cs) : ∀ c ∈ cs, isQuote c = false ∧ isSign c = false :=
  fun c hc => ((isPlain_iff c).mp (h c hc)).1

theorem solid (h : Plain cs) (hn : cs ≠ []) : Solid cs where
  begins :=
    ⟨cs.head hn, List.head?_eq_some_head hn, ((isPlain_iff _).mp (h _ (List.head_mem hn))).2⟩
  ends := ⟨cs.getLast hn, List.getLast?_eq_some_getLast hn,
    ((isPlain_iff _).mp (h _ (List.getLast_mem hn))).2⟩

end Plain

section Numbers

variable {cs : List Char}

theorem plain_of_takeDigits (h : Plain (Decimal.takeDigits cs).2) : Plain cs := by
  rw [← Text.splitWhile_append Char.isDigit cs]
  intro c hc
  rcases List.mem_append.mp hc with hc | hc
  · exact isPlain_of_isDigit (List.mem_takeWhile_imp hc)
  · exact h c hc

theorem plain_of_unsigned {n : Int} (h : Decimal.readPower.unsigned cs = some n) : Plain cs := by
  intro c hc
  rw [Decimal.readPower.unsigned] at h
  split at h
  · cases h
  · grind [isPlain_of_isDigit]

theorem plain_of_readPower {n : Int} (h : Decimal.readPower cs = some n) : Plain cs := by
  unfold Decimal.readPower at h
  split at h
  · exact (plain_of_unsigned h).cons (by decide)
  · obtain ⟨m, hm, -⟩ := Option.map_eq_some_iff.mp h
    exact (plain_of_unsigned hm).cons (by decide)
  · exact plain_of_unsigned h

theorem plain_of_scaled {d : Decimal} {f : Int → Decimal}
    (h : (match cs with
      | [] => some (f 0)
      | c :: r => if c = 'e' || c = 'E' then (Decimal.readPower r).map f else none) = some d) :
    Plain cs := by
  cases cs with
  | nil => exact List.forall_mem_nil _
  | cons c r =>
    by_cases hc : c = 'e' ∨ c = 'E'
    · obtain ⟨n, hn, -⟩ := Option.map_eq_some_iff.mp (by simpa [hc] using h)
      exact (plain_of_readPower hn).cons (by rcases hc with rfl | rfl <;> decide)
    · simp [hc] at h

theorem plain_of_readMagnitude {d : Decimal} (h : Decimal.readMagnitude cs = some d) :
    Plain cs := by
  apply plain_of_takeDigits
  unfold Decimal.readMagnitude at h
  generalize Decimal.takeDigits cs = p at h ⊢
  obtain ⟨whole, rest⟩ := p
  dsimp only at h
  split at h
  · refine Plain.cons (by decide) (plain_of_takeDigits ?_)
    split at h
    · cases h
    · exact plain_of_scaled (f := fun power => ⟨_, power - _⟩) h
  · split at h
    · cases h
    · exact plain_of_scaled (f := fun power => ⟨_, power - _⟩) h

theorem plain_of_readWord {negative : Bool} {x : Binary64}
    (h : Decimal.readWord negative cs = some x) : Plain cs := by
  have hw : cs.map Char.toLower = "nan".toList ∨ cs.map Char.toLower = "inf".toList ∨
      cs.map Char.toLower = "infinity".toList := by
    simp only [← String.ofList_inj, String.ofList_toList]
    unfold Decimal.readWord at h
    grind
  have hl : (cs.map Char.toLower).all isPlain = true := by
    rcases hw with hw | hw | hw <;> (rw [hw]; decide)
  intro c hc
  exact isPlain_of_toLower (List.all_eq_true.mp hl _ (List.mem_map_of_mem hc))

theorem plain_of_readUnsigned {negative : Bool} {x : Binary64}
    (h : Decimal.readUnsigned negative cs = some x) : Plain cs := by
  unfold Decimal.readUnsigned at h
  split at h
  · exact plain_of_readMagnitude ‹_›
  · exact plain_of_readWord h

theorem plain_of_read {x : Binary64} (h : Decimal.read cs = some x) : Plain cs := by
  unfold Decimal.read at h
  split at h
  · exact (plain_of_readUnsigned h).cons (by decide)
  · exact (plain_of_readUnsigned h).cons (by decide)
  · exact plain_of_readUnsigned h

theorem plain_of_reads (h : (Decimal.read cs).isSome = true) : Plain cs := by
  obtain ⟨x, hx⟩ := Option.isSome_iff_exists.mp h
  exact plain_of_read hx

theorem ne_nil_of_reads (h : (Decimal.read cs).isSome = true) : cs ≠ [] := by
  rintro rfl
  exact absurd h (by decide)

end Numbers

namespace Operand

variable (o : Operand)

theorem solid : Solid o.text := by
  cases o with
  | quoted mark body opens closes =>
    have hm : isBlank mark = false := by
      by_contra hb
      rw [(unmarked_of_isBlank (by simpa using hb)).1] at opens
      cases opens
    exact ⟨⟨mark, rfl, hm⟩, mark, by rw [text, ← List.cons_append, List.getLast?_concat], hm⟩
  | number t reads => exact (plain_of_reads reads).solid (ne_nil_of_reads reads)
  | truth b => exact (plain_truth b).solid (by cases b <;> decide)
  | named n => exact Text.solid_of_trim n.trimmed n.nonempty

theorem clear : Clear isSign o.text := by
  cases o with
  | quoted mark body opens closes => exact .quoted opens closes .nil
  | number t reads => exact .of_forall (plain_of_reads reads).unmarked
  | truth b => exact .of_forall (plain_truth b).unmarked
  | named n => exact .of_forall n.plain

theorem unquoted?_eq_none {cs : List Char} (h : ∀ c ∈ cs, isQuote c = false ∧ isSign c = false) :
    unquoted? cs = none := by
  cases cs with
  | nil => rfl
  | cons c r => simp [unquoted?, (h c List.mem_cons_self).1]

theorem unquoted?_quoted {mark : Char} (h : isQuote mark = true) (body : List Char) :
    unquoted? (mark :: (body ++ [mark])) = some body := by
  simp [unquoted?, h]

theorem resolve_text (vars : Variables) : (resolve vars o.text).mapError fault = o.value vars := by
  have hn : o.text.isEmpty = false := by simpa using o.solid.ne_nil
  rw [resolve, if_neg (by simp [hn])]
  cases o with
  | quoted mark body opens closes => rw [text, unquoted?_quoted opens]; rfl
  | number t reads =>
    have hq : unquoted? t = none := unquoted?_eq_none (plain_of_reads reads).unmarked
    simp [text, value, hq, isLiteral, reads, Except.mapError]
  | truth b => cases b <;> rfl
  | named n =>
    simp only [text, value, unquoted?_eq_none n.plain, n.notLiteral]
    cases vars.get? (String.ofList n.text) <;> rfl

end Operand

end Flowgraph.Guard
