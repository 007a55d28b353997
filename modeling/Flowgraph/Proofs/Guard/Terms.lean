import Flowgraph.Guard.Evaluate
import Flowgraph.Proofs.Guard.Operands

namespace Flowgraph.Guard

open Text (Solid Blanks isBlank)

inductive Term where
  | bare (o : Operand)
  | negated (o : Operand)
  | compared (left : Operand) (c : Comparison) (right : Operand)

def isConnective (c : Char) : Bool := c = '&' || c = '|'

def Comparison.value (c : Comparison) (a b : String) : Except Fault Bool :=
  (c.apply a b "").mapError fault

def boolean (value : String) : Except Fault Bool :=
  if value = "true" ∨ value = "1" then .ok true
  else if value = "false" ∨ value = "0" ∨ value = "" then .ok false
  else .error .invalidExpression

def Term.value (vars : Variables) : Term → Except Fault Bool
  | bare o => do boolean (← o.value vars)
  | negated o => do return !(← boolean (← o.value vars))
  | compared left c right => do
      let a ← left.value vars
      let b ← right.value vars
      c.value a b

inductive Term.Spelled : Term → List Char → Prop
  | bare (o : Operand) : Spelled (.bare o) o.text
  | negated (o : Operand) {b : List Char} : Blanks b → Spelled (.negated o) ('!' :: (b ++ o.text))
  | compared (left : Operand) (c : Comparison) (right : Operand) {b d : List Char} :
      Blanks b → Blanks d →
        Spelled (.compared left c right) (left.text ++ b ++ (c.symbol ++ (d ++ right.text)))

theorem clear_of_blanks {b : List Char} (h : Blanks b) : Clear isSign b :=
  .of_forall fun c hc => unmarked_of_isBlank (h c hc)

theorem isSign_of_isConnective {c : Char} (h : isConnective c = true) : isSign c = true := by
  rcases (by simpa [isConnective] using h : c = '&' ∨ c = '|') with rfl | rfl <;> decide

theorem Clear.connective {cs : List Char} (h : Clear isSign cs) : Clear isConnective cs :=
  h.mono fun _ => isSign_of_isConnective

theorem mapError_bind {α β : Type} (f : α → Except InvokerError β) (x : Except InvokerError α) :
    (x >>= f).mapError fault = x.mapError fault >>= fun a => (f a).mapError fault := by
  cases x <;> rfl

section Comparisons

variable {behind : List Char} (c : Comparison)

theorem cut_symbol_clear {cs : List Char} (h : Clear isSign cs) : cut c.symbol none cs = none := by
  cases c <;> exact cut_clear (by decide) h

theorem cut_symbol_append {cs : List Char} (h : Clear isSign cs) (r : List Char) :
    cut c.symbol none (cs ++ r) =
      (cut c.symbol none r).map fun (before, behind) => (cs ++ before, behind) := by
  cases c <;> exact cut_append (by decide) h r

theorem cut_symbol_self (r : List Char) : cut c.symbol none (c.symbol ++ r) = some ([], r) := by
  cases c <;> simp [cut, Comparison.symbol, isQuote]

theorem cut_symbol_other {s : Comparison} (hs : ¬s.symbol <+: c.symbol) (h : Clear isSign behind) :
    cut s.symbol none (c.symbol ++ behind) = none := by
  have hp : ['='].isPrefixOf behind = false := h.isPrefixOf_eq_false (by decide) (by decide) []
  have hn : cut s.symbol none behind = none := cut_symbol_clear s h
  cases s <;> cases c <;> first
    | exact absurd (List.prefix_refl _) hs
    | simp_all [cut, Comparison.symbol, isQuote, quoteAfter]

theorem exists_earlier_later : ∃ earlier later, Comparison.all = earlier ++ c :: later ∧
    ∀ s ∈ earlier, ¬s.symbol <+: c.symbol :=
  ⟨Comparison.all.takeWhile (· ≠ c), (Comparison.all.dropWhile (· ≠ c)).tail, by
    cases c <;> decide⟩

theorem findComparison_compared {before : List Char} (hb : Clear isSign before)
    (h : Clear isSign behind) :
    findComparison (before ++ (c.symbol ++ behind)) = some (c, before, behind) := by
  obtain ⟨earlier, later, hall, hearlier⟩ := exists_earlier_later c
  have hnone : earlier.findSome? (fun s =>
      (cut s.symbol none (before ++ (c.symbol ++ behind))).map fun (l, r) => (s, l, r)) = none := by
    refine List.findSome?_eq_none_iff.mpr fun s hs => ?_
    simp [cut_symbol_append s hb, cut_symbol_other c (hearlier s hs) h]
  rw [findComparison, hall, List.findSome?_append, hnone, Option.none_or, List.findSome?_cons,
    cut_symbol_append c hb, cut_symbol_self]
  simp

theorem findComparison_negation (h : Clear isSign behind) :
    findComparison ('!' :: behind) = none := by
  have hp : ['='].isPrefixOf behind = false := h.isPrefixOf_eq_false (by decide) (by decide) []
  refine List.findSome?_eq_none_iff.mpr fun s _ => ?_
  have hn : cut s.symbol none behind = none := cut_symbol_clear s h
  cases s <;> simp_all [cut, Comparison.symbol, isQuote, quoteAfter]

theorem findComparison_clear {cs : List Char} (h : Clear isSign cs) : findComparison cs = none :=
  List.findSome?_eq_none_iff.mpr fun s _ => by rw [cut_symbol_clear s h, Option.map_none]

end Comparisons

section Evaluation

variable (vars : Variables)

def verdict (negated : Bool) (term : List Char) (value : String) : Except InvokerError Bool :=
  match truth value with
  | some b => .ok (b != negated)
  | none => .error (.badExpression (String.ofList term))

theorem verdict_fault (negated : Bool) (term : List Char) (value : String) :
    (verdict negated term value).mapError fault = do return (← boolean value) != negated := by
  unfold verdict boolean
  fun_cases truth value <;> simp_all [Except.mapError, fault]

theorem evaluateBare_negated (r : List Char) :
    evaluateBare vars ('!' :: r) = resolve vars (Text.trim r) >>= verdict true ('!' :: r) := rfl

theorem evaluateBare_operand {term : List Char} (h : Clear isSign term) :
    evaluateBare vars term = resolve vars term >>= verdict false term := by
  have hp : ['!'].isPrefixOf term = false := h.isPrefixOf_eq_false (by decide) (by decide) []
  have hn : ∀ r, term ≠ '!' :: r := by
    rintro r rfl
    simp at hp
  rw [evaluateBare]
  · rfl
  · exact hn

theorem Comparison.apply_fault (c : Comparison) (a b term : String) :
    (c.apply a b term).mapError fault = c.value a b := by
  unfold value apply
  split
  · rfl
  · cases c <;> rfl

theorem Term.Spelled.solid {t : Term} {cs : List Char} (h : t.Spelled cs) : Solid cs := by
  cases h with
  | bare o => exact o.solid
  | @negated o b _ =>
    exact Solid.around (l := ['!']) ⟨⟨_, rfl, by decide⟩, _, rfl, by decide⟩ b o.solid
  | @compared left c right b d _ _ =>
    simpa using left.solid.around (b ++ c.symbol ++ d) right.solid

theorem Term.Spelled.clear {t : Term} {cs : List Char} (h : t.Spelled cs) :
    Clear isConnective cs := by
  cases h with
  | bare o => exact o.clear.connective
  | negated o hb =>
    exact .plain (by decide) (by decide) ((clear_of_blanks hb).append o.clear).connective
  | compared left c right hb hd =>
    have hc : Clear isConnective c.symbol := by
      cases c <;> exact .of_forall (by simp [Comparison.symbol, isQuote, isConnective])
    have hl := (left.clear.append (clear_of_blanks hb)).connective
    have hr := ((clear_of_blanks hd).append right.clear).connective
    exact hl.append (hc.append hr)

theorem evaluateTerm_spelled {t : Term} {cs : List Char} (h : t.Spelled cs) :
    (evaluateTerm vars cs).mapError fault = t.value vars := by
  have hn : ¬cs.isEmpty = true := by simpa using h.solid.ne_nil
  rw [evaluateTerm, if_neg hn]
  cases h with
  | bare o =>
    rw [findComparison_clear o.clear]
    dsimp only
    rw [evaluateBare_operand vars o.clear, mapError_bind, o.resolve_text]
    simp [verdict_fault, Term.value]
  | @negated o b hb =>
    rw [findComparison_negation ((clear_of_blanks hb).append o.clear)]
    dsimp only
    rw [evaluateBare_negated, o.solid.trim_blanks_append hb, mapError_bind, o.resolve_text]
    simp [verdict_fault, Term.value]
  | @compared left c right b d hb hd =>
    rw [findComparison_compared c (left.clear.append (clear_of_blanks hb))
      ((clear_of_blanks hd).append right.clear)]
    dsimp only
    rw [left.solid.trim_append_blanks hb, right.solid.trim_blanks_append hd, mapError_bind,
      left.resolve_text]
    simp only [mapError_bind, right.resolve_text, c.apply_fault]
    rfl

end Evaluation

end Flowgraph.Guard
