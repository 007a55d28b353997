import Flowgraph.Proofs.Guard.Terms

namespace Flowgraph.Guard

open Text (Solid Blanks trimStart trimEnd)

structure Series (α : Type) where
  first : α
  more : List α

def Series.toList {α : Type} (s : Series α) : List α := s.first :: s.more

abbrev Conjunction := Series Term

abbrev Expression := Series Conjunction

section Values

variable {α : Type} (value : α → Except Fault Bool)

def allHold : List α → Except Fault Bool
  | [] => .ok true
  | x :: xs => do if ← value x then allHold xs else return false

def anyHolds : List α → Except Fault Bool
  | [] => .ok false
  | x :: xs => do if ← value x then return true else anyHolds xs

end Values

def Conjunction.value (vars : Variables) (c : Conjunction) : Except Fault Bool :=
  allHold (Term.value vars) c.toList

def Expression.value (vars : Variables) (e : Expression) : Except Fault Bool :=
  anyHolds (Conjunction.value vars) e.toList

inductive Padded (W : List Char → Prop) : List Char → Prop
  | intro {a cs b : List Char} : Blanks a → W cs → Blanks b → Padded W (a ++ cs ++ b)

inductive Joined {α : Type} (mark : Char) (W : α → List Char → Prop) : List α → List Char → Prop
  | last {x : α} {cs : List Char} : W x cs → Joined mark W [x] cs
  | cons {x : α} {xs : List α} {cs rest : List Char} :
      W x cs → Joined mark W xs rest → Joined mark W (x :: xs) (cs ++ mark :: mark :: rest)

def Term.Written (t : Term) : List Char → Prop := Padded t.Spelled

def Conjunction.Written (c : Conjunction) : List Char → Prop := Joined '&' Term.Written c.toList

def Expression.Written (e : Expression) : List Char → Prop :=
  Joined '|' Conjunction.Written e.toList

structure Trims (W : List Char → Prop) : Prop where
  solid {cs : List Char} : W cs → ¬Blanks cs
  start {cs : List Char} : W cs → W (trimStart cs)
  finish {cs : List Char} : W cs → W (trimEnd cs)

theorem Trims.trim {W : List Char → Prop} (h : Trims W) {cs : List Char} (hw : W cs) :
    W (Text.trim cs) :=
  h.finish (h.start hw)

theorem Term.trims (t : Term) : Trims t.Written where
  solid := by
    rintro _ ⟨_, hs, _⟩ hall
    exact hs.solid.not_blanks fun c hc => hall c (by simp [hc])
  start := by
    rintro _ (@⟨a, cs, b, ha, hs, hb⟩)
    rw [List.append_assoc, Text.trimStart_append ha,
      Text.trimStart_append_of_not_blanks hs.solid.not_blanks, hs.solid.trimStart]
    exact .intro (a := []) (List.forall_mem_nil _) hs hb
  finish := by
    rintro _ (@⟨a, cs, b, ha, hs, hb⟩)
    rw [Text.trimEnd_append hb, Text.trimEnd_append_of_not_blanks hs.solid.not_blanks,
      hs.solid.trimEnd]
    have hw : Padded t.Spelled (a ++ cs ++ []) := .intro ha hs (List.forall_mem_nil _)
    rwa [List.append_nil] at hw

section Joins

variable {α : Type} {mark : Char} {W : α → List Char → Prop} {xs : List α} {cs : List Char}

theorem Joined.not_blanks (hw : ∀ x, Trims (W x)) (h : Joined mark W xs cs) : ¬Blanks cs := by
  cases h with
  | last hx => exact (hw _).solid hx
  | cons hx _ => exact fun hall => (hw _).solid hx fun c hc => hall c (by simp [hc])

theorem Joined.trims (hw : ∀ x, Trims (W x)) (xs : List α) : Trims (Joined mark W xs) where
  solid := Joined.not_blanks hw
  start := by
    intro cs h
    cases h with
    | last hx => exact .last ((hw _).start hx)
    | cons hx hr =>
      rw [Text.trimStart_append_of_not_blanks ((hw _).solid hx)]
      exact .cons ((hw _).start hx) hr
  finish := by
    intro cs h
    induction h with
    | last hx => exact .last ((hw _).finish hx)
    | @cons x xs cs rest hx hr ih =>
      -- the last part has a character that is not blank, so trimming stops within it
      have hassoc : cs ++ mark :: mark :: rest = (cs ++ [mark, mark]) ++ rest := by simp
      rw [hassoc, Text.trimEnd_append_of_not_blanks (hr.not_blanks hw)]
      simpa using Joined.cons hx ih

theorem Joined.clear {bad : Char → Bool} (hw : ∀ x cs, W x cs → Clear bad cs)
    (hq : isQuote mark = false) (hm : bad mark = false) (h : Joined mark W xs cs) :
    Clear bad cs := by
  induction h with
  | last hx => exact hw _ _ hx
  | cons hx _ ih => exact (hw _ _ hx).append (.plain hq hm (.plain hq hm ih))

theorem Joined.exists_joined (mark : Char) (hw : ∀ x, ∃ cs, W x cs) (x : α) (xs : List α) :
    ∃ cs, Joined mark W (x :: xs) cs := by
  induction xs generalizing x with
  | nil =>
    obtain ⟨cs, h⟩ := hw x
    exact ⟨cs, .last h⟩
  | cons y ys ih =>
    obtain ⟨cs, h⟩ := hw x
    obtain ⟨rest, hrest⟩ := ih y
    exact ⟨_, .cons h hrest⟩

theorem Joined.splitAt (hw : ∀ x cs, W x cs → Clear (· == mark) cs) (hq : isQuote mark = false)
    (h : Joined mark W xs cs) : List.Forall₂ W xs (splitAt mark none cs) := by
  induction h with
  | last hx =>
    rw [splitAt_clear hq (hw _ _ hx)]
    exact .cons hx .nil
  | cons hx _ ih =>
    rw [splitAt_clear_mark hq (hw _ _ hx)]
    exact .cons hx ih

end Joins

theorem Conjunction.trims (c : Conjunction) : Trims c.Written := Joined.trims Term.trims c.toList

theorem Expression.trims (e : Expression) : Trims e.Written :=
  Joined.trims Conjunction.trims e.toList

theorem Term.Written.clear {t : Term} {cs : List Char} (h : t.Written cs) :
    Clear isConnective cs := by
  obtain ⟨ha, hs, hb⟩ := h
  have hl := (clear_of_blanks ha).connective
  have hr := (clear_of_blanks hb).connective
  exact (hl.append hs.clear).append hr

theorem Conjunction.Written.clear {c : Conjunction} {cs : List Char} (h : c.Written cs) :
    Clear (· == '|') cs :=
  Joined.clear (fun _ _ ht => ht.clear.mono (by simp [isConnective])) (by decide) (by decide) h

theorem Term.exists_written (t : Term) : ∃ cs, t.Written cs := by
  have none : Blanks [] := List.forall_mem_nil _
  cases t with
  | bare o => exact ⟨_, .intro none (.bare o) none⟩
  | negated o => exact ⟨_, .intro none (.negated o none) none⟩
  | compared left c right => exact ⟨_, .intro none (.compared left c right none none) none⟩

theorem Conjunction.exists_written (c : Conjunction) : ∃ cs, c.Written cs :=
  Joined.exists_joined '&' Term.exists_written c.first c.more

theorem Expression.exists_written (e : Expression) : ∃ cs, e.Written cs :=
  Joined.exists_joined '|' Conjunction.exists_written e.first e.more

section Evaluation

variable (vars : Variables)

theorem evaluateTerm_written {t : Term} {cs : List Char} (h : t.Written cs) :
    (evaluateTerm vars (Text.trim cs)).mapError fault = t.value vars := by
  obtain ⟨ha, hs, hb⟩ := h
  rw [hs.solid.trim_padded ha hb, evaluateTerm_spelled vars hs]

theorem evaluateAll_written {ts : List Term} {parts : List (List Char)}
    (h : List.Forall₂ Term.Written ts parts) :
    (evaluateAll vars parts).mapError fault = allHold (Term.value vars) ts := by
  induction h with
  | nil => rfl
  | @cons t cs ts parts ht _ ih =>
    rw [allHold, ← evaluateTerm_written vars ht, ← ih, evaluateAll]
    rcases evaluateTerm vars (Text.trim cs) with e | ⟨_ | _⟩ <;> rfl

theorem evaluateConjunction_written {c : Conjunction} {cs : List Char} (h : c.Written cs) :
    (evaluateAll vars (splitAt '&' none cs)).mapError fault = c.value vars := by
  refine evaluateAll_written vars (Joined.splitAt (fun _ _ ht => ?_) (by decide) h)
  exact ht.clear.mono (by simp [isConnective])

theorem evaluateAny_written {conjunctions : List Conjunction} {parts : List (List Char)}
    (h : List.Forall₂ Conjunction.Written conjunctions parts) :
    (evaluateAny vars parts).mapError fault = anyHolds (Conjunction.value vars) conjunctions := by
  induction h with
  | nil => rfl
  | @cons c cs conjunctions parts hc _ ih =>
    -- what is behind an error or a conjunction that holds is looked at by neither side
    rw [anyHolds, ← evaluateConjunction_written vars hc, ← ih, evaluateAny]
    rcases evaluateAll vars (splitAt '&' none cs) with e | ⟨_ | _⟩ <;> rfl

theorem evaluate_written (e : Expression) :
    (∃ text : String, e.Written text.toList) ∧
      ∀ text : String, e.Written text.toList →
        (evaluate vars text).mapError fault = e.value vars := by
  constructor
  · obtain ⟨cs, h⟩ := e.exists_written
    exact ⟨String.ofList cs, by rwa [String.toList_ofList]⟩
  intro text h
  have ht : e.Written (Text.trim text.toList) := e.trims.trim h
  have hn : ¬(Text.trim text.toList).isEmpty = true := by
    intro hempty
    rw [List.isEmpty_iff.mp hempty] at ht
    exact e.trims.solid ht (List.forall_mem_nil _)
  rw [evaluate, if_neg hn]
  exact evaluateAny_written vars (Joined.splitAt (fun _ _ hc => hc.clear) (by decide) ht)

end Evaluation

def remarked : Term :=
  let note : Name :=
    ⟨['n', 'o', 't', 'e'], by decide, by decide, by simp [isQuote, isSign], by decide⟩
  .compared (.named note) .ne
    (.quoted '\'' ['a', ' ', '&', '&', ' ', 'b'] (by decide) (by decide))

def unpaid : Term :=
  let paid : Name :=
    ⟨['p', 'a', 'i', 'd'], by decide, by decide, by simp [isQuote, isSign], by decide⟩
  .negated (.named paid)

def remarkedOrUnpaid : Expression := ⟨⟨remarked, []⟩, [⟨unpaid, []⟩]⟩

theorem remarkedOrUnpaid_written :
    remarkedOrUnpaid.Written "note != 'a && b' || ! paid".toList := by
  have blank : Blanks [' '] := List.forall_mem_singleton.mpr (by decide)
  have none : Blanks [] := List.forall_mem_nil _
  have hr : remarked.Written "note != 'a && b' ".toList :=
    Padded.intro none (Term.Spelled.compared _ _ _ blank blank) blank
  have hu : unpaid.Written " ! paid".toList :=
    Padded.intro blank (Term.Spelled.negated _ blank) none
  have hc : Conjunction.Written ⟨remarked, []⟩ "note != 'a && b' ".toList := Joined.last hr
  have hd : Conjunction.Written ⟨unpaid, []⟩ " ! paid".toList := Joined.last hu
  have hj : Joined '|' Conjunction.Written [⟨unpaid, []⟩] " ! paid".toList := Joined.last hd
  exact Joined.cons hc hj

theorem evaluate_written_unpaid :
    (evaluate (Keyed.ofList [("note", "x")]) "note != 'a && b' || ! paid").mapError fault =
        .ok true ∧
      (evaluate (Keyed.ofList [("note", "a && b")]) "note != 'a && b' || ! paid").mapError fault =
        .error (.unknownVariable "paid") :=
  ⟨((evaluate_written _ remarkedOrUnpaid).2 _ remarkedOrUnpaid_written).trans (by decide),
    ((evaluate_written _ remarkedOrUnpaid).2 _ remarkedOrUnpaid_written).trans (by decide)⟩

end Flowgraph.Guard
