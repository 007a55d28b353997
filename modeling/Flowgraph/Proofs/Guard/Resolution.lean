import Flowgraph.Proofs.Guard.Terms

namespace Flowgraph.Guard

section Operands

variable {vars : Variables} {cs body : List Char} {mark : Char}

inductive Documented (vars : Variables) : List Char → Prop
  | quoted {mark : Char} {body : List Char} :
      isQuote mark = true → mark ∉ body → Documented vars (mark :: (body ++ [mark]))
  | number {cs : List Char} : (Decimal.read cs).isSome = true → Documented vars cs
  | truth (b : Bool) : Documented vars (toString b).toList
  | variable {cs : List Char} : vars.contains (String.ofList cs) = true → Documented vars cs

inductive Overrun : List Char → Prop
  | intro {mark : Char} {body : List Char} :
      isQuote mark = true → mark ∈ body → Overrun (mark :: (body ++ [mark]))

inductive Continued : List Char → Prop
  | intro {mark : Char} {body rest : List Char} :
      isQuote mark = true → mark ∉ body → rest ≠ [] → Continued (mark :: (body ++ mark :: rest))

theorem Overrun.ends (h : Overrun cs) : cs.getLast? = cs.head? := by
  obtain @⟨mark, body, -, -⟩ := h
  rw [← List.cons_append, List.getLast?_concat, List.cons_append, List.head?_cons]

theorem unquoted?_eq_some_iff :
    unquoted? cs = some body ↔ ∃ mark, isQuote mark = true ∧ cs = mark :: (body ++ [mark]) := by
  constructor
  · intro h
    cases cs with
    | nil => cases h
    | cons c r =>
      simp only [unquoted?, Option.ite_none_right_eq_some, Bool.and_eq_true, decide_eq_true_eq,
        Option.some.injEq] at h
      obtain ⟨⟨⟨hq, -⟩, hlast⟩, rfl⟩ := h
      refine ⟨c, hq, ?_⟩
      rw [List.dropLast_append_getLast? c hlast]
  · rintro ⟨mark, hq, rfl⟩
    exact Operand.unquoted?_quoted hq body

theorem isSome_unquoted?_iff :
    (unquoted? cs).isSome = true ↔
      (∃ mark body, isQuote mark = true ∧ mark ∉ body ∧ cs = mark :: (body ++ [mark])) ∨
        Overrun cs := by
  rw [Option.isSome_iff_exists]
  constructor
  · rintro ⟨body, h⟩
    obtain ⟨mark, hq, rfl⟩ := unquoted?_eq_some_iff.mp h
    by_cases hm : mark ∈ body
    · exact .inr (.intro hq hm)
    · exact .inl ⟨mark, body, hq, hm, rfl⟩
  · rintro (⟨mark, body, hq, -, rfl⟩ | @⟨mark, body, hq, -⟩)
    · exact ⟨body, Operand.unquoted?_quoted hq body⟩
    · exact ⟨body, Operand.unquoted?_quoted hq body⟩

theorem isLiteral_iff :
    isLiteral cs = true ↔
      (∃ b : Bool, cs = (toString b).toList) ∨ (Decimal.read cs).isSome = true := by
  rw [Bool.exists_bool, isLiteral, Bool.or_eq_true, Bool.or_eq_true, decide_eq_true_iff,
    decide_eq_true_iff, or_comm (a := cs = "true".toList)]
  rfl

theorem documented_or_overrun_iff :
    Documented vars cs ∨ Overrun cs ↔
      (unquoted? cs).isSome = true ∨ isLiteral cs = true ∨
        vars.contains (String.ofList cs) = true := by
  rw [isSome_unquoted?_iff, isLiteral_iff]
  constructor
  · rintro ((hq | h | b | h) | h)
    · exact .inl (.inl ⟨_, _, hq, ‹_›, rfl⟩)
    · exact .inr (.inl (.inr h))
    · exact .inr (.inl (.inl ⟨b, rfl⟩))
    · exact .inr (.inr h)
    · exact .inl (.inr h)
  · rintro ((⟨mark, body, hq, hm, rfl⟩ | h) | (⟨b, rfl⟩ | h) | h)
    · exact .inl (.quoted hq hm)
    · exact .inr h
    · exact .inl (.truth b)
    · exact .inl (.number h)
    · exact .inl (.variable h)

theorem resolve_isOk_iff :
    (resolve vars cs).isOk = true ↔ cs ≠ [] ∧ (Documented vars cs ∨ Overrun cs) := by
  rw [documented_or_overrun_iff, resolve, Keyed.contains]
  by_cases hn : cs = []
  · simp [hn, Except.isOk, Except.toBool]
  · rw [if_neg (by simpa using hn)]
    dsimp only
    cases unquoted? cs <;> cases isLiteral cs <;> cases vars.get? (String.ofList cs) <;>
      simp [hn, Except.isOk, Except.toBool]

theorem Continued.not_documented (h : Continued cs)
    (hv : vars.contains (String.ofList cs) = false) : ¬Documented vars cs := by
  obtain @⟨mark, body, rest, hq, hm, hrest⟩ := h
  have hplain : ¬Plain (mark :: (body ++ mark :: rest)) := fun hp =>
    Bool.false_ne_true ((hp.unmarked mark List.mem_cons_self).1.symm.trans hq)
  generalize hcs : mark :: (body ++ mark :: rest) = cs at hv hplain
  rintro (@⟨mark', body', -, hm'⟩ | hn | b | hn)
  · obtain ⟨rfl, htail⟩ := List.cons.inj hcs
    obtain ⟨front, last, rfl⟩ := List.eq_nil_or_concat rest |>.resolve_left hrest
    have hfront : (body ++ mark :: front) ++ [last] = body' ++ [mark] := by simpa using htail
    obtain ⟨rfl, -⟩ := List.append_inj' hfront rfl
    simp at hm'
  · exact hplain (plain_of_reads hn)
  · exact hplain (plain_truth b)
  · rw [hn] at hv
    cases hv

end Operands

structure Traced (α : Type) where
  outcome : Except InvokerError α
  resolved : List (List Char)

namespace Traced

variable {α β : Type}

def stop (outcome : Except InvokerError α) : Traced α := ⟨outcome, []⟩

def bind (x : Traced α) (f : α → Traced β) : Traced β :=
  match x.outcome with
  | .ok a => ⟨(f a).outcome, x.resolved ++ (f a).resolved⟩
  | .error e => ⟨.error e, x.resolved⟩

instance : Monad Traced where
  pure a := stop (.ok a)
  bind := bind

theorem outcome_bind (x : Traced α) (f : α → Traced β) :
    (x >>= f).outcome = x.outcome >>= fun a => (f a).outcome := by
  change (x.bind f).outcome = _
  rw [bind]
  cases x.outcome <;> rfl

def Admits (P : List Char → Prop) (x : Traced α) : Prop :=
  x.outcome.isOk = true → ∀ cs ∈ x.resolved, P cs

variable {P : List Char → Prop}

theorem admits_stop (outcome : Except InvokerError α) : (stop outcome).Admits P :=
  fun _ => List.forall_mem_nil P

theorem Admits.bind {x : Traced α} {f : α → Traced β} (hx : x.Admits P)
    (hf : ∀ a, (f a).Admits P) : (x >>= f).Admits P := by
  change (x.bind f).Admits P
  rw [Traced.bind]
  cases h : x.outcome with
  | error e => exact fun hok => absurd hok Bool.false_ne_true
  | ok a =>
    intro hok
    have hresolved : ∀ cs ∈ x.resolved, P cs := hx (by rw [h]; rfl)
    exact List.forall_mem_append.mpr ⟨hresolved, hf a hok⟩

end Traced

section Tracing

variable (vars : Variables)

def traceOperand (cs : List Char) : Traced String := ⟨resolve vars cs, [cs]⟩

def traceVerdict (negated : Bool) (term operand : List Char) : Traced Bool := do
  .stop (verdict negated term (← traceOperand vars operand))

def traceBare : List Char → Traced Bool
  | '!' :: r => traceVerdict vars true ('!' :: r) (Text.trim r)
  | term => traceVerdict vars false term term

def traceTerm (term : List Char) : Traced Bool :=
  if term.isEmpty then .stop (.error (.badExpression ""))
  else
    match findComparison term with
    | some (c, left, right) => do
        let a ← traceOperand vars (Text.trim left)
        let b ← traceOperand vars (Text.trim right)
        .stop (c.apply a b (String.ofList term))
    | none => traceBare vars term

def traceAll : List (List Char) → Traced Bool
  | [] => return true
  | t :: ts => do if ← traceTerm vars (Text.trim t) then traceAll ts else return false

def traceAny : List (List Char) → Traced Bool
  | [] => return false
  | p :: ps => do if ← traceAll vars (splitAt '&' none p) then return true else traceAny ps

def trace (text : String) : Traced Bool :=
  let cs := Text.trim text.toList
  if cs.isEmpty then .stop (.error (.badExpression "")) else traceAny vars (splitAt '|' none cs)

theorem outcome_traceVerdict (negated : Bool) (term operand : List Char) :
    (traceVerdict vars negated term operand).outcome =
      resolve vars operand >>= verdict negated term :=
  Traced.outcome_bind _ _

theorem outcome_traceBare (term : List Char) :
    (traceBare vars term).outcome = evaluateBare vars term := by
  unfold traceBare
  split
  · rw [outcome_traceVerdict, evaluateBare_negated]
  · rw [outcome_traceVerdict, evaluateBare]
    · rfl
    · assumption

theorem outcome_traceTerm (term : List Char) :
    (traceTerm vars term).outcome = evaluateTerm vars term := by
  rw [traceTerm, evaluateTerm]
  split
  · rfl
  rcases findComparison term with _ | ⟨c, left, right⟩
  · exact outcome_traceBare vars term
  · simp only [Traced.outcome_bind]
    rfl

theorem outcome_traceAll (ts : List (List Char)) :
    (traceAll vars ts).outcome = evaluateAll vars ts := by
  induction ts with
  | nil => rfl
  | cons t ts ih =>
    rw [traceAll, evaluateAll, Traced.outcome_bind, outcome_traceTerm]
    rcases evaluateTerm vars (Text.trim t) with e | ⟨_ | _⟩
    · rfl
    · rfl
    · exact ih

theorem outcome_traceAny (ps : List (List Char)) :
    (traceAny vars ps).outcome = evaluateAny vars ps := by
  induction ps with
  | nil => rfl
  | cons p ps ih =>
    rw [traceAny, evaluateAny, Traced.outcome_bind, outcome_traceAll]
    rcases evaluateAll vars (splitAt '&' none p) with e | ⟨_ | _⟩
    · rfl
    · exact ih
    · rfl

theorem outcome_trace (text : String) : (trace vars text).outcome = evaluate vars text := by
  rw [trace, evaluate]
  split
  · rfl
  · exact outcome_traceAny vars _

variable {vars}

def Resolves (vars : Variables) (cs : List Char) : Prop := (resolve vars cs).isOk = true

theorem resolves_traceOperand (cs : List Char) : (traceOperand vars cs).Admits (Resolves vars) :=
  fun h => List.forall_mem_singleton.mpr h

theorem resolves_traceVerdict (negated : Bool) (term operand : List Char) :
    (traceVerdict vars negated term operand).Admits (Resolves vars) :=
  (resolves_traceOperand operand).bind fun _ => Traced.admits_stop _

theorem resolves_traceBare (term : List Char) : (traceBare vars term).Admits (Resolves vars) := by
  unfold traceBare
  split <;> exact resolves_traceVerdict _ _ _

theorem resolves_traceTerm (term : List Char) : (traceTerm vars term).Admits (Resolves vars) := by
  rw [traceTerm]
  split
  · exact Traced.admits_stop _
  rcases findComparison term with _ | ⟨c, left, right⟩
  · exact resolves_traceBare term
  · exact (resolves_traceOperand _).bind fun _ => (resolves_traceOperand _).bind fun _ =>
      Traced.admits_stop _

theorem resolves_traceAll (ts : List (List Char)) : (traceAll vars ts).Admits (Resolves vars) := by
  induction ts with
  | nil => exact Traced.admits_stop _
  | cons t ts ih =>
    refine (resolves_traceTerm _).bind fun b => ?_
    cases b with
    | false => exact Traced.admits_stop _
    | true => exact ih

theorem resolves_traceAny (ps : List (List Char)) : (traceAny vars ps).Admits (Resolves vars) := by
  induction ps with
  | nil => exact Traced.admits_stop _
  | cons p ps ih =>
    refine (resolves_traceAll _).bind fun b => ?_
    cases b with
    | false => exact ih
    | true => exact Traced.admits_stop _

theorem resolves_trace (text : String) : (trace vars text).Admits (Resolves vars) := by
  rw [trace]
  split
  · exact Traced.admits_stop _
  · exact resolves_traceAny _

theorem evaluateTerm_of_not_resolves {term left right : List Char} {c : Comparison}
    (hterm : findComparison term = some (c, left, right))
    (hright : ¬Resolves vars (Text.trim right)) : ∃ e, evaluateTerm vars term = .error e := by
  rw [evaluateTerm, hterm]
  split
  · exact ⟨_, rfl⟩
  dsimp only
  rcases hl : resolve vars (Text.trim left) with e | a
  · exact ⟨e, rfl⟩
  rcases hr : resolve vars (Text.trim right) with e | b
  · exact ⟨e, rfl⟩
  · exact absurd (by rw [Resolves, hr]; rfl) hright

end Tracing

theorem resolved_as_documented (vars : Variables) :
    (∀ text : String, (trace vars text).outcome = evaluate vars text ∧
      ∀ b, evaluate vars text = .ok b →
        ∀ cs ∈ (trace vars text).resolved, Documented vars cs ∨ Overrun cs) ∧
      ∀ (term : List Char) (c : Comparison) (left right : List Char),
        findComparison term = some (c, left, right) → Continued (Text.trim right) →
          ¬Overrun (Text.trim right) →
            vars.contains (String.ofList (Text.trim right)) = false →
              ∃ e, evaluateTerm vars term = .error e := by
  constructor
  · intro text
    refine ⟨outcome_trace vars text, fun b hb cs hcs => ?_⟩
    have hok : (trace vars text).outcome.isOk = true := by
      rw [outcome_trace, hb]
      rfl
    exact (resolve_isOk_iff.mp (resolves_trace text hok cs hcs)).2
  · intro term c left right hterm hcontinued hoverrun hname
    refine evaluateTerm_of_not_resolves hterm fun hright => ?_
    rcases (resolve_isOk_iff.mp hright).2 with h | h
    · exact hcontinued.not_documented hname h
    · exact hoverrun h

def drafted : Variables := Keyed.ofList [("open", "true"), ("state", "draft")]

theorem resolved_as_documented_drafted :
    evaluate drafted "state == 'draft' && open" = .ok true ∧
      (∀ cs ∈ ["state".toList, "'draft'".toList, "open".toList],
        Documented drafted cs ∨ Overrun cs) ∧
      ∃ e, evaluateTerm drafted "state == 'draft' x".toList = .error e := by
  have hok : evaluate drafted "state == 'draft' && open" = .ok true := by decide +kernel
  have hresolved : (trace drafted "state == 'draft' && open").resolved =
      ["state".toList, "'draft'".toList, "open".toList] := by decide +kernel
  obtain ⟨htrace, herror⟩ := resolved_as_documented drafted
  have hdocumented := (htrace "state == 'draft' && open").2 true hok
  rw [hresolved] at hdocumented
  refine ⟨hok, hdocumented, herror _ .eq "state ".toList " 'draft' x".toList (by decide) ?_ ?_ ?_⟩
  · have hright : Text.trim " 'draft' x".toList =
        '\'' :: ("draft".toList ++ '\'' :: " x".toList) := by decide
    rw [hright]
    exact .intro (by decide) (by decide) (by decide)
  · exact fun h => absurd h.ends (by decide)
  · decide

theorem overrun_evaluates :
    evaluate drafted "state != 'draft' 'open'" = .ok true ∧
      (trace drafted "state != 'draft' 'open'").resolved =
        ["state".toList, "'draft' 'open'".toList] ∧
      ¬Documented drafted "'draft' 'open'".toList := by
  refine ⟨by decide +kernel, by decide +kernel, ?_⟩
  have hcontinued : Continued ('\'' :: ("draft".toList ++ '\'' :: " 'open'".toList)) :=
    .intro (by decide) (by decide) (by decide)
  exact hcontinued.not_documented (by decide)

end Flowgraph.Guard
