import Flowgraph.Proofs.Guard.Outside

namespace Flowgraph.Guard

def Closed (cs : List Char) : Prop := Clear (fun _ => false) cs

def Shows (mark cs : List Char) : Prop :=
  ∃ before behind, cs = before ++ mark ++ behind ∧ Closed before

structure Decomposes (mark : List Char) (parts : List (List Char)) (cs : List Char) : Prop where
  nonempty : parts ≠ []
  joined : mark.intercalate parts = cs
  closed : ∀ p ∈ parts.dropLast, Closed p
  unmarked : ∀ p ∈ parts, ¬Shows mark p

section Quotes

variable {q : Char} {o : Option Char} {cs : List Char}

def openAfter (o : Option Char) (cs : List Char) : Option Char :=
  cs.foldl (fun o c => quoteAfter c o) o

theorem openAfter_cons (o : Option Char) (c : Char) (cs : List Char) :
    openAfter o (c :: cs) = openAfter (quoteAfter c o) cs := rfl

theorem openAfter_some_append {body : List Char} (h : q ∉ body) (r : List Char) :
    openAfter (some q) (body ++ q :: r) = openAfter none r := by
  induction body with
  | nil => simp [openAfter_cons, quoteAfter]
  | cons c body ih =>
    obtain ⟨hc, hbody⟩ : q ≠ c ∧ q ∉ body := by simpa using h
    simp [openAfter_cons, quoteAfter, Ne.symm hc, ih hbody]

theorem exists_closing (h : openAfter (some q) cs = none) :
    ∃ body r, cs = body ++ q :: r ∧ q ∉ body ∧ openAfter none r = none := by
  induction cs with
  | nil => cases h
  | cons c cs ih =>
    by_cases hc : c = q
    · subst hc
      exact ⟨[], cs, rfl, List.not_mem_nil, by simpa [openAfter_cons, quoteAfter] using h⟩
    · obtain ⟨body, r, rfl, hbody, hr⟩ := ih (by simpa [openAfter_cons, quoteAfter, hc] using h)
      exact ⟨c :: body, r, rfl, by simp [Ne.symm hc, hbody], hr⟩

theorem openAfter_closed (h : Closed cs) : openAfter none cs = none := by
  induction h with
  | nil => rfl
  | plain hq _ _ ih => rwa [openAfter_cons, quoteAfter, if_neg (by simp [hq])]
  | quoted hq hn _ ih => rwa [openAfter_cons, quoteAfter, if_pos hq, openAfter_some_append hn]

theorem closed_of_openAfter (cs : List Char) (h : openAfter none cs = none) : Closed cs := by
  -- by length, since a quoted text is passed over as a whole
  cases cs with
  | nil => exact .nil
  | cons c cs =>
    rw [openAfter_cons, quoteAfter] at h
    by_cases hq : isQuote c = true
    · rw [if_pos hq] at h
      obtain ⟨body, r, rfl, hbody, hr⟩ := exists_closing h
      exact .quoted hq hbody (closed_of_openAfter r hr)
    · rw [if_neg hq] at h
      exact .plain (by simpa using hq) rfl (closed_of_openAfter cs h)
termination_by cs.length

theorem closed_iff : Closed cs ↔ openAfter none cs = none :=
  ⟨openAfter_closed, closed_of_openAfter cs⟩

end Quotes

section First

variable {m : Char} {ms mark cs l r : List Char} {o : Option Char}

structure FirstMark (mark cs before behind : List Char) : Prop where
  parted : cs = before ++ mark ++ behind
  closed : Closed before
  first : ∀ l r, cs = l ++ mark ++ r → Closed l → before.length ≤ l.length

theorem cut_parts (h : cut mark o cs = some (l, r)) :
    cs = l ++ mark ++ r ∧ openAfter o l = none := by
  induction cs generalizing o l with
  | nil => cases h
  | cons c cs ih =>
    rw [cut] at h
    by_cases hfront : (o.isNone && !isQuote c && mark.isPrefixOf (c :: cs)) = true
    · rw [if_pos hfront] at h
      obtain ⟨rfl, rfl⟩ := Prod.mk.inj (Option.some.inj h)
      simp only [Bool.and_eq_true, Option.isNone_iff_eq_none, List.isPrefixOf_iff_prefix] at hfront
      exact ⟨(List.prefix_iff_eq_append.mp hfront.2).symm, hfront.1.1⟩
    · rw [if_neg hfront] at h
      obtain ⟨⟨before, behind⟩, hcut, heq⟩ := Option.map_eq_some_iff.mp h
      obtain ⟨rfl, rfl⟩ := Prod.mk.inj heq
      obtain ⟨hparted, houtside⟩ := ih hcut
      exact ⟨congrArg (c :: ·) hparted, houtside⟩

theorem cut_cons (hm : isQuote m = false) (o : Option Char) (c : Char) (r : List Char) :
    cut (m :: ms) o (c :: r) =
      if o = none ∧ m :: ms <+: c :: r then some ([], (c :: r).drop (m :: ms).length)
      else
        (cut (m :: ms) (quoteAfter c o) r).map fun (before, behind) => (c :: before, behind) := by
  rw [cut]
  congr 1
  simp only [Bool.and_eq_true, Option.isNone_iff_eq_none, Bool.not_eq_true',
    List.isPrefixOf_iff_prefix, eq_iff_iff]
  constructor
  · rintro ⟨⟨ho, -⟩, hp⟩
    exact ⟨ho, hp⟩
  · rintro ⟨ho, hp⟩
    obtain ⟨rfl, -⟩ := List.cons_prefix_cons.mp hp
    exact ⟨⟨ho, hm⟩, hp⟩

theorem cut_of_marked (hm : isQuote m = false) (h : cs = l ++ (m :: ms) ++ r)
    (ho : openAfter o l = none) :
    ∃ before behind, cut (m :: ms) o cs = some (before, behind) ∧ before.length ≤ l.length := by
  induction cs generalizing o l with
  | nil => simp at h
  | cons c cs ih =>
    rw [cut_cons hm]
    by_cases hfront : o = none ∧ m :: ms <+: c :: cs
    · exact ⟨[], _, if_pos hfront, Nat.zero_le _⟩
    · rw [if_neg hfront]
      cases l with
      | nil => exact absurd ⟨ho, r, h.symm⟩ hfront
      | cons d l =>
        obtain ⟨rfl, hcs⟩ := List.cons.inj h
        obtain ⟨before, behind, hcut, hle⟩ := ih hcs ho
        exact ⟨c :: before, behind, by rw [hcut, Option.map_some], Nat.succ_le_succ hle⟩

theorem firstMark_of_cut (hm : isQuote m = false) (h : cut (m :: ms) none cs = some (l, r)) :
    FirstMark (m :: ms) cs l r := by
  obtain ⟨hparted, houtside⟩ := cut_parts h
  refine ⟨hparted, closed_iff.mpr houtside, fun l' r' hcs hclosed => ?_⟩
  obtain ⟨before, behind, hcut, hle⟩ := cut_of_marked hm hcs (closed_iff.mp hclosed)
  obtain ⟨rfl, rfl⟩ := Prod.mk.inj (Option.some.inj (hcut.symm.trans h))
  exact hle

theorem cut_eq_none_iff (hm : isQuote m = false) :
    cut (m :: ms) none cs = none ↔ ¬Shows (m :: ms) cs := by
  constructor
  · rintro h ⟨before, behind, hcs, hclosed⟩
    obtain ⟨_, _, hcut, -⟩ := cut_of_marked hm hcs (closed_iff.mp hclosed)
    rw [h] at hcut
    cases hcut
  · intro h
    cases hcut : cut (m :: ms) none cs with
    | none => rfl
    | some pair =>
      obtain ⟨hparted, houtside⟩ := cut_parts hcut
      exact absurd ⟨_, _, hparted, closed_iff.mpr houtside⟩ h

theorem FirstMark.not_shows (h : FirstMark (m :: ms) cs l r) : ¬Shows (m :: ms) l := by
  rintro ⟨before, behind, rfl, hclosed⟩
  have hparted : cs = before ++ (m :: ms) ++ (behind ++ (m :: ms) ++ r) := by
    simpa only [List.append_assoc] using h.parted
  have hle := h.first _ _ hparted hclosed
  simp only [List.length_append, List.length_cons] at hle
  omega

end First

namespace Decomposes

variable {mark cs p : List Char} {parts ps : List (List Char)}

theorem single (h : ¬Shows mark cs) : Decomposes mark [cs] cs :=
  ⟨List.cons_ne_nil _ _, List.intercalate_singleton, List.forall_mem_nil _,
    List.forall_mem_singleton.mpr h⟩

theorem cons (hp : Closed p) (hu : ¬Shows mark p) (h : Decomposes mark ps cs) :
    Decomposes mark (p :: ps) (p ++ mark ++ cs) where
  nonempty := List.cons_ne_nil _ _
  joined := by rw [List.intercalate_cons_of_ne_nil h.nonempty, h.joined]
  closed := by
    rw [List.dropLast_cons_of_ne_nil h.nonempty]
    exact List.forall_mem_cons.mpr ⟨hp, h.closed⟩
  unmarked := List.forall_mem_cons.mpr ⟨hu, h.unmarked⟩

theorem last_or_more (h : Decomposes mark (p :: ps) cs) :
    (ps = [] ∧ p = cs) ∨ ∃ rest, cs = p ++ mark ++ rest ∧ Closed p ∧ Decomposes mark ps rest := by
  by_cases hps : ps = []
  · subst hps
    exact .inl ⟨rfl, by simpa using h.joined⟩
  · have hjoined := h.joined
    have hclosed := h.closed
    rw [List.intercalate_cons_of_ne_nil hps] at hjoined
    rw [List.dropLast_cons_of_ne_nil hps, List.forall_mem_cons] at hclosed
    exact .inr ⟨_, hjoined.symm, hclosed.1, hps, rfl, hclosed.2,
      (List.forall_mem_cons.mp h.unmarked).2⟩

end Decomposes

section Split

variable {mark : Char} {cs : List Char}

theorem splitAt_eq_cut (hm : isQuote mark = false) (o : Option Char) (cs : List Char) :
    splitAt mark o cs =
      match cut [mark, mark] o cs with
      | none => [cs]
      | some (before, behind) => before :: splitAt mark none behind := by
  induction cs generalizing o with
  | nil => rfl
  | cons c cs ih =>
    rw [cut_cons hm]
    by_cases h : o = none ∧ [mark, mark] <+: c :: cs
    · obtain ⟨rfl, r, hr⟩ := h
      obtain ⟨rfl, rfl⟩ := List.cons.inj hr
      simp [splitAt]
    · have hsplit : splitAt mark o (c :: cs) = consFirst c (splitAt mark (quoteAfter c o) cs) := by
        cases cs with
        | nil => rfl
        | cons d r =>
          rw [splitAt, if_neg]
          intro hfront
          simp only [Bool.and_eq_true, Option.isNone_iff_eq_none, decide_eq_true_eq] at hfront
          obtain ⟨⟨rfl, rfl⟩, rfl⟩ := hfront
          exact h ⟨rfl, r, rfl⟩
      rw [if_neg h, hsplit, ih]
      cases cut [mark, mark] (quoteAfter c o) cs <;> rfl

theorem splitAt_of_not_shows (hm : isQuote mark = false) (h : ¬Shows [mark, mark] cs) :
    splitAt mark none cs = [cs] := by
  rw [splitAt_eq_cut hm, (cut_eq_none_iff hm).mpr h]

theorem splitAt_of_shows (hm : isQuote mark = false) (h : Shows [mark, mark] cs) :
    ∃ before behind, FirstMark [mark, mark] cs before behind ∧
      splitAt mark none cs = before :: splitAt mark none behind := by
  cases hcut : cut [mark, mark] none cs with
  | none => exact absurd h ((cut_eq_none_iff hm).mp hcut)
  | some pair => exact ⟨_, _, firstMark_of_cut hm hcut, by rw [splitAt_eq_cut hm, hcut]⟩

theorem decomposes_splitAt (hm : isQuote mark = false) (cs : List Char) :
    Decomposes [mark, mark] (splitAt mark none cs) cs := by
  by_cases h : Shows [mark, mark] cs
  · obtain ⟨before, behind, hfirst, hsplit⟩ := splitAt_of_shows hm h
    have hlength : behind.length < cs.length := by
      rw [hfirst.parted, List.length_append, List.length_append, List.length_cons]
      omega
    have hbehind := decomposes_splitAt hm behind
    rw [hsplit, hfirst.parted]
    exact hbehind.cons hfirst.closed hfirst.not_shows
  · rw [splitAt_of_not_shows hm h]
    exact .single h
termination_by cs.length

theorem Decomposes.split_or_later (hm : isQuote mark = false) {parts : List (List Char)}
    (h : Decomposes [mark, mark] parts cs) :
    parts = splitAt mark none cs ∨
      List.Lex (fun p q => p.length < q.length) (splitAt mark none cs) parts := by
  induction parts generalizing cs with
  | nil => exact absurd rfl h.nonempty
  | cons p ps ih =>
    obtain ⟨rfl, rfl⟩ | ⟨rest, hcs, hp, hps⟩ := h.last_or_more
    · exact .inl (splitAt_of_not_shows hm (h.unmarked p List.mem_cons_self)).symm
    · -- the mark behind `p` is outside of quotes, so the first one comes no later
      obtain ⟨before, behind, hfirst, hsplit⟩ := splitAt_of_shows hm ⟨p, rest, hcs, hp⟩
      rw [hsplit]
      obtain hlt | heq := Nat.lt_or_eq_of_le (hfirst.first p rest hcs hp)
      · exact .inr (.rel hlt)
      · have hparted : before ++ ([mark, mark] ++ behind) = p ++ ([mark, mark] ++ rest) := by
          rw [← List.append_assoc, ← List.append_assoc, ← hfirst.parted, ← hcs]
        obtain ⟨rfl, hrest⟩ := List.append_inj hparted heq
        obtain rfl := List.append_cancel_left hrest
        obtain rfl | hlater := ih hps
        · exact .inl rfl
        · exact .inr (.cons hlater)

end Split

end Flowgraph.Guard
