import Flowgraph.Guard.Quotes

namespace Flowgraph.Guard

inductive Clear (bad : Char → Bool) : List Char → Prop
  | nil : Clear bad []
  | plain {c : Char} {r : List Char} :
      isQuote c = false → bad c = false → Clear bad r → Clear bad (c :: r)
  | quoted {q : Char} {body r : List Char} :
      isQuote q = true → q ∉ body → Clear bad r → Clear bad (q :: (body ++ q :: r))

namespace Clear

variable {bad worse : Char → Bool} {cs ds : List Char}

theorem append (hc : Clear bad cs) (hd : Clear bad ds) : Clear bad (cs ++ ds) := by
  induction hc with
  | nil => exact hd
  | plain hq hb _ ih => exact .plain hq hb ih
  | quoted hq hn _ ih => simpa using Clear.quoted hq hn ih

theorem mono (h : ∀ c, bad c = true → worse c = true) (hc : Clear worse cs) : Clear bad cs := by
  induction hc with
  | nil => exact .nil
  | plain hq hb _ ih => exact .plain hq (by grind) ih
  | quoted hq hn _ ih => exact .quoted hq hn ih

theorem of_forall (h : ∀ c ∈ cs, isQuote c = false ∧ bad c = false) : Clear bad cs := by
  induction cs with
  | nil => exact .nil
  | cons c cs ih =>
    obtain ⟨hq, hb⟩ := h c List.mem_cons_self
    exact .plain hq hb (ih fun d hd => h d (List.mem_cons_of_mem c hd))

theorem isPrefixOf_eq_false {m : Char} (h : Clear bad cs) (hm : bad m = true)
    (hq : isQuote m = false) (ms : List Char) : (m :: ms).isPrefixOf cs = false := by
  cases h with
  | nil => rfl
  | @plain c _ _ hb _ =>
    have hne : m ≠ c := ne_of_apply_ne bad (by simp [hm, hb])
    simp [List.isPrefixOf, hne]
  | @quoted c _ _ hc _ _ =>
    have hne : m ≠ c := ne_of_apply_ne isQuote (by simp [hq, hc])
    simp [List.isPrefixOf, hne]

end Clear

section Cut

variable {mark : List Char}

theorem cut_some_append {q : Char} {body : List Char} (h : q ∉ body) (r : List Char) :
    cut mark (some q) (body ++ q :: r) =
      (cut mark none r).map fun (before, behind) => (body ++ q :: before, behind) := by
  induction body with
  | nil => simp [cut, quoteAfter]
  | cons c body ih =>
    obtain ⟨hc, hbody⟩ : q ≠ c ∧ q ∉ body := by simpa using h
    simp [cut, quoteAfter, Ne.symm hc, ih hbody, Function.comp_def]

theorem cut_append {bad : Char → Bool} {m : Char} {ms cs : List Char} (hm : bad m = true)
    (h : Clear bad cs) (r : List Char) :
    cut (m :: ms) none (cs ++ r) =
      (cut (m :: ms) none r).map fun (before, behind) => (cs ++ before, behind) := by
  induction h with
  | nil => simp
  | @plain c cs hq hb _ ih =>
    have hne : m ≠ c := ne_of_apply_ne bad (by simp [hm, hb])
    simp [cut, quoteAfter, hq, hne, ih, Function.comp_def]
  | quoted hq hn _ ih =>
    simp [cut, quoteAfter, hq, cut_some_append hn, ih, Function.comp_def]

theorem cut_clear {bad : Char → Bool} {m : Char} {ms cs : List Char} (hm : bad m = true)
    (h : Clear bad cs) : cut (m :: ms) none cs = none := by
  have happend : cut (m :: ms) none (cs ++ []) = _ := cut_append hm h []
  simpa [cut] using happend

end Cut

section Split

variable {mark : Char} {r t : List Char} {ts : List (List Char)}

theorem splitAt_cons {c : Char} {q : Option Char} (h : q.isSome ∨ c ≠ mark) (r : List Char) :
    splitAt mark q (c :: r) = consFirst c (splitAt mark (quoteAfter c q) r) := by
  cases r with
  | nil => rfl
  | cons d r =>
    have hno : ¬(q.isNone && c = mark && d = mark) = true := by
      rcases h with h | h
      · obtain ⟨x, rfl⟩ := Option.isSome_iff_exists.mp h
        simp
      · simp [h]
    rw [splitAt, if_neg hno]

theorem splitAt_some_append {q : Char} {body : List Char} (h : q ∉ body)
    (hr : splitAt mark none r = t :: ts) :
    splitAt mark (some q) (body ++ q :: r) = (body ++ q :: t) :: ts := by
  induction body with
  | nil => simp [splitAt_cons, quoteAfter, hr, consFirst]
  | cons c body ih =>
    obtain ⟨hc, hbody⟩ : q ≠ c ∧ q ∉ body := by simpa using h
    simp [splitAt_cons, quoteAfter, Ne.symm hc, ih hbody, consFirst]

theorem splitAt_append {cs : List Char} (hm : isQuote mark = false) (h : Clear (· == mark) cs)
    (hr : splitAt mark none r = t :: ts) : splitAt mark none (cs ++ r) = (cs ++ t) :: ts := by
  induction h with
  | nil => exact hr
  | plain hq hb _ ih =>
    rw [List.cons_append, splitAt_cons (.inr (by simpa using hb)), quoteAfter,
      if_neg (by simp [hq]),
      ih]
    rfl
  | @quoted q body cs hq hn _ ih =>
    have hne : q ≠ mark := ne_of_apply_ne isQuote (by simp [hm, hq])
    rw [List.cons_append, splitAt_cons (.inr hne), quoteAfter, if_pos hq, List.append_assoc,
      List.cons_append, splitAt_some_append hn ih, consFirst]
    simp

theorem splitAt_clear {cs : List Char} (hm : isQuote mark = false) (h : Clear (· == mark) cs) :
    splitAt mark none cs = [cs] := by
  have hnil : splitAt mark none [] = [] :: [] := rfl
  simpa using splitAt_append hm h hnil

theorem splitAt_clear_mark {cs : List Char} (hm : isQuote mark = false)
    (h : Clear (· == mark) cs) (r : List Char) :
    splitAt mark none (cs ++ mark :: mark :: r) = cs :: splitAt mark none r := by
  have hmark : splitAt mark none (mark :: mark :: r) = [] :: splitAt mark none r := by
    simp [splitAt]
  simpa using splitAt_append hm h hmark

end Split

end Flowgraph.Guard
