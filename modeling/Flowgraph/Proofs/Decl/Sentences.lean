import Flowgraph.Proofs.Decl.Phrases
import Mathlib

namespace Flowgraph

namespace Decl

section Items

variable {d d' : Declaration} {ts rest : List Token}

def itemsOver (d : Declaration) (items : List Item) : Declaration :=
  { headerOver d (items.flatMap Item.clauses) with
    inactive := d.inactive || items.any Item.isInactive
    nodes := d.nodes ++ items.flatMap Item.nodes
    transitions := d.transitions ++ items.flatMap Item.transitions }

theorem itemsOver_nil (d : Declaration) : itemsOver d [] = d := by
  simp only [itemsOver, List.flatMap_nil, List.any_nil, Bool.or_false, List.append_nil]
  rfl

theorem itemsOver_cons (d : Declaration) (i : Item) (items : List Item) :
    itemsOver d (i :: items) = itemsOver (itemsOver d [i]) items := by
  have hheader : headerOver d ((i :: items).flatMap Item.clauses) =
      headerOver (headerOver d ([i].flatMap Item.clauses)) (items.flatMap Item.clauses) := by
    cases i with
    | clause c => exact headerAttributes_reads.cons d c _
    | inactive mark => rfl
    | node n => rfl
    | block b => rfl
  rw [itemsOver, hheader]
  simp only [itemsOver, headerOver, List.flatMap_cons, List.flatMap_nil, List.append_nil,
    List.any_cons, List.any_nil, Bool.or_false, Bool.or_assoc, List.append_assoc]

theorem itemsOver_singleton (d : Declaration) (i : Item) :
    itemsOver d [i] =
      { headerOver d i.clauses with
        inactive := d.inactive || i.isInactive
        nodes := d.nodes ++ i.nodes
        transitions := d.transitions ++ i.transitions } := by
  simp only [itemsOver, List.flatMap_cons, List.flatMap_nil, List.append_nil, List.any_cons,
    List.any_nil, Bool.or_false]

theorem itemsOver_clause (d : Declaration) (c : Clause headerTakes) :
    itemsOver d [.clause c] = headerOver d [c] := by
  rw [itemsOver_singleton]
  simp [headerOver]

theorem itemsOver_of_clauses {i : Item} (h : i.clauses = []) (d : Declaration) :
    itemsOver d [i] =
      { d with
        inactive := d.inactive || i.isInactive
        nodes := d.nodes ++ i.nodes
        transitions := d.transitions ++ i.transitions } := by
  rw [itemsOver_singleton, h, headerAttributes_reads.none]

theorem readItems_clause (c : Clause headerTakes) (hfits : ∀ t ∈ c.tokens, t.Fits)
    (ts : List Token) : readItems d (c.tokens ++ ts) = readItems (headerOver d [c]) ts := by
  rw [readItems, readAttributes_clause headerAttributes_reads c hfits, ← readItems]

theorem readAttributes_mark {k : Keyword} (mark : Leaf (.keyword k)) (h : headerTakes k = none)
    (ts : List Token) :
    readAttributes headerAttributes d (mark.token :: ts) = .ok (d, mark.token :: ts) := by
  refine readAttributes_stop headerAttributes_reads fun k' hk => ?_
  rw [nextKind_leaf] at hk
  cases hk
  exact h

theorem readItems_inactive (mark : Leaf (.keyword .inactive)) (ts : List Token) :
    readItems d (mark.token :: ts) = readItems { d with inactive := true } ts := by
  rw [readItems, readAttributes_mark mark rfl]
  simp only [mark.kind_eq]

theorem readItems_node (n : NodePhrase) (hfits : ∀ t ∈ n.tokens, t.Fits)
    (htext : nextKind ts ≠ some .text) (hbrace : nextKind ts ≠ some .openBrace) :
    readItems d (n.tokens ++ ts) =
      readItems { d with nodes := d.nodes ++ [n.declaration] } ts := by
  have hread : readNode n.mark.token.place.line (n.behindMark ++ ts) = .ok (n.declaration, ts) :=
    readNode_phrase n hfits htext hbrace
  rw [NodePhrase.tokens, List.cons_append, readItems, readAttributes_mark n.mark rfl]
  simp only [n.mark.kind_eq]
  split
  case h_1 e he => cases hread.symm.trans he
  case h_2 m later hm =>
    cases hread.symm.trans hm
    rfl

theorem readItems_block (b : Block) (hfits : ∀ t ∈ b.tokens, t.Fits) (ts : List Token) :
    readItems d (b.tokens ++ ts) =
      readItems { d with transitions :=
        d.transitions ++ b.transitions.map TransitionPhrase.declaration } ts := by
  have hread := readBlock_phrase b hfits ts
  rw [Block.tokens, List.cons_append, readItems, readAttributes_mark b.mark rfl]
  simp only [b.mark.kind_eq]
  split
  case h_1 e he => cases hread.symm.trans he
  case h_2 xs later hx =>
    cases hread.symm.trans hx
    rfl

theorem readItems_closing (closing : Leaf .closeBrace) (ts : List Token) :
    readItems d (closing.token :: ts) = .ok (d, ts) := by
  have hstop : readAttributes headerAttributes d (closing.token :: ts) =
      .ok (d, closing.token :: ts) := by
    refine readAttributes_stop headerAttributes_reads fun k hk => ?_
    rw [nextKind_leaf] at hk
    cases hk
  rw [readItems, hstop]
  simp only [closing.kind_eq]

theorem readItems_item (i : Item) (hfits : ∀ t ∈ i.tokens, t.Fits)
    (htext : nextKind ts ≠ some .text) (hbrace : nextKind ts ≠ some .openBrace) :
    readItems d (i.tokens ++ ts) = readItems (itemsOver d [i]) ts := by
  cases i with
  | clause c =>
    rw [itemsOver_clause]
    exact readItems_clause c hfits ts
  | inactive mark =>
    rw [itemsOver_of_clauses rfl]
    simpa [Item.tokens] using readItems_inactive mark ts
  | node n =>
    rw [itemsOver_of_clauses rfl]
    simpa [Item.tokens] using readItems_node n hfits htext hbrace
  | block b =>
    rw [itemsOver_of_clauses rfl]
    simpa [Item.tokens] using readItems_block b hfits ts

theorem nextKind_items (items : List Item) (closing : Leaf .closeBrace) (ts : List Token) :
    (∃ k, nextKind (items.flatMap Item.tokens ++ closing.token :: ts) = some (.keyword k)) ∨
      nextKind (items.flatMap Item.tokens ++ closing.token :: ts) = some .closeBrace := by
  cases items with
  | nil => exact .inr (nextKind_leaf closing ts)
  | cons i items =>
    refine .inl ?_
    cases i with
    | clause c => exact ⟨c.keyword, nextKind_leaf c.mark _⟩
    | inactive mark => exact ⟨.inactive, nextKind_leaf mark _⟩
    | node n => exact ⟨.node, nextKind_leaf n.mark _⟩
    | block b => exact ⟨.transitions, nextKind_leaf b.mark _⟩

theorem readItems_items (items : List Item) (closing : Leaf .closeBrace)
    (hfits : ∀ t ∈ items.flatMap Item.tokens, t.Fits) (ts : List Token) :
    readItems d (items.flatMap Item.tokens ++ closing.token :: ts) =
      .ok (itemsOver d items, ts) := by
  induction items generalizing d with
  | nil =>
    rw [itemsOver_nil]
    exact readItems_closing closing ts
  | cons i items ih =>
    rw [List.flatMap_cons, List.forall_mem_append] at hfits
    have hnext := nextKind_items items closing ts
    have htext : nextKind (items.flatMap Item.tokens ++ closing.token :: ts) ≠ some .text := by
      rcases hnext with ⟨k, hk⟩ | hk <;> simp [hk]
    have hbrace : nextKind (items.flatMap Item.tokens ++ closing.token :: ts) ≠
        some .openBrace := by
      rcases hnext with ⟨k, hk⟩ | hk <;> simp [hk]
    rw [List.flatMap_cons, List.append_assoc, readItems_item i hfits.1 htext hbrace,
      ih hfits.2, ← itemsOver_cons]

def Derived (d d' : Declaration) (ts rest : List Token) : Prop :=
  ∃ (items : List Item) (closing : Leaf .closeBrace),
    ts = items.flatMap Item.tokens ++ closing.token :: rest ∧
      (∀ t ∈ items.flatMap Item.tokens, t.Fits) ∧ d' = itemsOver d items

theorem Derived.item {i : Item} (hfits : ∀ t ∈ i.tokens, t.Fits)
    (h : Derived (itemsOver d [i]) d' ts rest) : Derived d d' (i.tokens ++ ts) rest := by
  obtain ⟨items, closing, rfl, hfits', rfl⟩ := h
  refine ⟨i :: items, closing, ?_, ?_, (itemsOver_cons d i items).symm⟩
  · rw [List.flatMap_cons, List.append_assoc]
  · rw [List.flatMap_cons, List.forall_mem_append]
    exact ⟨hfits, hfits'⟩

theorem Derived.clauses {cs : List (Clause headerTakes)}
    (hfits : ∀ t ∈ cs.flatMap Clause.tokens, t.Fits)
    (h : Derived (headerOver d cs) d' ts rest) :
    Derived d d' (cs.flatMap Clause.tokens ++ ts) rest := by
  induction cs generalizing d with
  | nil => exact h
  | cons c cs ih =>
    rw [List.flatMap_cons, List.forall_mem_append] at hfits
    rw [headerAttributes_reads.cons] at h
    rw [List.flatMap_cons, List.append_assoc]
    refine Derived.item (i := .clause c) hfits.1 ?_
    rw [itemsOver_clause]
    exact ih hfits.2 h

theorem readItems_ok (h : readItems d ts = .ok (d', rest)) : Derived d d' ts rest := by
  fun_induction readItems d ts with
  | case1 => cases h
  | case2 => cases h
  | case3 d ts e t r ha hk =>
    cases h
    obtain ⟨cs, rfl, hfits, rfl⟩ := readAttributes_ok headerAttributes_reads ha
    exact .clauses hfits ⟨[], ⟨t, hk⟩, rfl, List.forall_mem_nil _, (itemsOver_nil _).symm⟩
  | case4 => cases h
  | case5 d ts e t r ha hk ih =>
    obtain ⟨cs, rfl, hfits, rfl⟩ := readAttributes_ok headerAttributes_reads ha
    let mark : Leaf (.keyword .inactive) := ⟨t, hk⟩
    refine .clauses hfits (.item (i := .inactive mark) ?_ ?_)
    · exact List.forall_mem_singleton.2 (mark.fits_of_ne (by decide))
    · rw [itemsOver_of_clauses rfl]
      simpa using ih h
  | case6 => cases h
  | case7 d ts e t r ha hk n later hn ih =>
    obtain ⟨cs, rfl, hfits, rfl⟩ := readAttributes_ok headerAttributes_reads ha
    let mark : Leaf (.keyword .node) := ⟨t, hk⟩
    obtain ⟨p, hp, hnode, rfl⟩ := readNode_ok mark hn
    change Derived d d' (cs.flatMap Clause.tokens ++ mark.token :: r) rest
    rw [hp]
    refine .clauses hfits (.item (i := .node p) hnode ?_)
    rw [itemsOver_of_clauses rfl]
    simpa using ih h
  | case8 => cases h
  | case9 d ts e t r ha hk xs later hb ih =>
    obtain ⟨cs, rfl, hfits, rfl⟩ := readAttributes_ok headerAttributes_reads ha
    let mark : Leaf (.keyword .transitions) := ⟨t, hk⟩
    obtain ⟨b, hp, hblock, rfl⟩ := readBlock_ok mark hb
    change Derived d d' (cs.flatMap Clause.tokens ++ mark.token :: r) rest
    rw [hp]
    refine .clauses hfits (.item (i := .block b) hblock ?_)
    rw [itemsOver_of_clauses rfl]
    simpa using ih h
  | case10 => cases h

end Items

theorem numberLexeme_kind {sign cs rest : List Char} {x : Lexeme}
    (h : numberLexeme sign cs = .ok (x, rest)) : x.kind = .number := by
  simp only [numberLexeme] at h
  split at h
  · cases h
  · cases h
    rfl

theorem textLexeme_kind {cs rest : List Char} {x : Lexeme}
    (h : textLexeme cs = .ok (x, rest)) : x.kind = .text := by
  rw [textLexeme] at h
  split at h
  · cases h
    rfl
  · cases h

theorem wordLexeme_kind (cs : List Char) : (wordLexeme cs).1.kind ≠ .endOfInput := by
  simp only [wordLexeme]
  split
  · exact Kind.noConfusion
  · exact Kind.noConfusion

theorem splitLexeme_kind {c : Char} {r rest : List Char} {x : Lexeme}
    (h : splitLexeme c r = .ok (x, rest)) : x.kind ≠ .endOfInput := by
  simp only [splitLexeme] at h
  split at h
  · cases h
    exact Kind.noConfusion
  split at h
  · cases h
    exact Kind.noConfusion
  split at h
  · split at h
    · split at h
      · cases h
        exact Kind.noConfusion
      · split at h
        · rw [numberLexeme_kind h]
          decide
        · cases h
    · cases h
  split at h
  · rw [textLexeme_kind h]
    decide
  split at h
  · rw [numberLexeme_kind h]
    decide
  split at h
  · have hword := wordLexeme_kind (c :: r)
    rw [Except.ok.inj h] at hword
    exact hword
  · cases h

theorem scanFrom_ok {p : Place} {cs : List Char} {ts : List Token} (h : scanFrom p cs = .ok ts) :
    ∃ before e, ts = before ++ [e] ∧ ∀ t ∈ before, t.kind ≠ .endOfInput := by
  fun_induction scanFrom p cs generalizing ts with
  | case1 =>
    cases h
    exact ⟨[], _, rfl, List.forall_mem_nil _⟩
  | case2 => cases h
  | case3 =>
    rename_i hx ih
    rw [Except.bind_ok_iff] at h
    obtain ⟨later, hlater, h⟩ := h
    cases h
    obtain ⟨before, e, rfl, hbefore⟩ := ih hlater
    refine ⟨_ :: before, e, rfl, ?_⟩
    rw [List.forall_mem_cons]
    exact ⟨splitLexeme_kind hx, hbefore⟩

theorem eq_nil_of_ending {before front rest : List Token} {e : Token} (ending : Leaf .endOfInput)
    (h : front ++ ending.token :: rest = before ++ [e])
    (hbefore : ∀ t ∈ before, t.kind ≠ .endOfInput) : rest = [] := by
  rcases rest.eq_nil_or_concat with rfl | ⟨r, t, rfl⟩
  · rfl
  · rw [List.concat_eq_append, ← List.cons_append, ← List.append_assoc] at h
    obtain ⟨rfl, -⟩ := List.append_inj' h rfl
    have hmem : ending.token ∈ front ++ ending.token :: r :=
      List.mem_append_right _ List.mem_cons_self
    exact absurd ending.kind_eq (hbefore _ hmem)

theorem Sentence.fits_iff (s : Sentence) :
    (∀ t ∈ s.tokens, t.Fits) ↔ ∀ t ∈ s.items.flatMap Item.tokens, t.Fits := by
  have hhead : ∀ t ∈ [s.mark.token, s.name.token, s.opening.token], t.Fits := by
    simp only [List.forall_mem_cons]
    exact ⟨s.mark.fits_of_ne (by decide), s.name.fits_of_ne (by decide),
      s.opening.fits_of_ne (by decide), List.forall_mem_nil _⟩
  have hlast : ∀ t ∈ [s.closing.token, s.ending.token], t.Fits := by
    simp only [List.forall_mem_cons]
    exact ⟨s.closing.fits_of_ne (by decide), s.ending.fits_of_ne (by decide),
      List.forall_mem_nil _⟩
  rw [Sentence.tokens, List.forall_mem_append, List.forall_mem_append, and_iff_right hhead,
    and_iff_left hlast]

theorem Sentence.declaration_eq (s : Sentence) :
    s.declaration = itemsOver { name := s.name.text } s.items := by
  simp only [Sentence.declaration, Sentence.clauses, itemsOver, headerOver, Option.or_none,
    Bool.false_or, List.nil_append]

end Decl

namespace Declaration

open Decl

variable {d : Declaration} {ts : List Token}

theorem ofTokens_sentence (s : Sentence) (hfits : ∀ t ∈ s.tokens, t.Fits) :
    ofTokens s.tokens = .ok s.declaration := by
  have hitems : readItems { name := s.name.text }
      (s.items.flatMap Item.tokens ++ [s.closing.token, s.ending.token]) =
      .ok (s.declaration, [s.ending.token]) := by
    rw [s.declaration_eq]
    exact readItems_items s.items s.closing (s.fits_iff.1 hfits) [s.ending.token]
  simp only [ofTokens, Sentence.tokens, List.cons_append, List.nil_append, expect_leaf,
    Except.bind_ok_iff, Except.ok.injEq, exists_eq_left']
  exact ⟨_, hitems, _, expect_leaf s.ending [], rfl⟩

theorem ofTokens_ok (h : ofTokens ts = .ok d) :
    ∃ (s : Sentence) (front rest : List Token), s.tokens = front ++ [s.ending.token] ∧
      ts = front ++ s.ending.token :: rest ∧ (∀ t ∈ s.tokens, t.Fits) ∧ d = s.declaration := by
  simp only [ofTokens, Except.bind_ok_iff, Prod.exists] at h
  obtain ⟨_, ts₁, hmark, _, ts₂, hname, _, ts₃, hopening, d', ts₄, hitems, _, rest, hending, h⟩ := h
  obtain ⟨mark, rfl, rfl⟩ := expect_ok hmark
  obtain ⟨name, rfl, rfl⟩ := expect_ok hname
  obtain ⟨opening, rfl, rfl⟩ := expect_ok hopening
  obtain ⟨ending, rfl, rfl⟩ := expect_ok hending
  obtain ⟨items, closing, rfl, hfits, rfl⟩ := readItems_ok hitems
  cases h
  let s : Sentence := ⟨mark, name, opening, items, closing, ending⟩
  refine ⟨s,
    [mark.token, name.token, opening.token] ++ items.flatMap Item.tokens ++ [closing.token],
    rest, ?_, ?_, s.fits_iff.2 hfits, s.declaration_eq.symm⟩
  · rw [List.append_assoc]
    rfl
  · rw [List.append_assoc, List.append_assoc]
    rfl

theorem ofTokens_derivation {source : String} (h : scan source = .ok ts) :
    ((∃ d, ofTokens ts = .ok d) ↔ (∃ s : Sentence, s.tokens = ts) ∧ ∀ t ∈ ts, t.Fits) ∧
      ∀ d (s : Sentence), ofTokens ts = .ok d → s.tokens = ts → d = s.declaration := by
  obtain ⟨before, e, hts, hbefore⟩ := scanFrom_ok h
  have hsound : ∀ d, ofTokens ts = .ok d → ∃ s : Sentence, s.tokens = ts ∧ ∀ t ∈ ts, t.Fits := by
    intro d hd
    obtain ⟨s, front, rest, hs, hfront, hfits, -⟩ := ofTokens_ok hd
    have hrest : rest = [] := eq_nil_of_ending s.ending (hfront.symm.trans hts) hbefore
    have htokens : s.tokens = ts := by rw [hs, hfront, hrest]
    exact ⟨s, htokens, htokens ▸ hfits⟩
  refine ⟨⟨?_, ?_⟩, ?_⟩
  · rintro ⟨d, hd⟩
    obtain ⟨s, hs, hfits⟩ := hsound d hd
    exact ⟨⟨s, hs⟩, hfits⟩
  · rintro ⟨⟨s, rfl⟩, hfits⟩
    exact ⟨s.declaration, ofTokens_sentence s hfits⟩
  · rintro d s hd rfl
    obtain ⟨_, _, hfits⟩ := hsound d hd
    exact Except.ok.inj (hd.symm.trans (ofTokens_sentence s hfits))

def twiceNamed : Sentence where
  mark := ⟨⟨.keyword .workflow, "WORKFLOW", ⟨1, 1⟩⟩, rfl⟩
  name := ⟨⟨.text, "w", ⟨1, 10⟩⟩, rfl⟩
  opening := ⟨⟨.openBrace, "\x7b", ⟨1, 14⟩⟩, rfl⟩
  items := [
    .clause ⟨.id, .identifier, rfl, ⟨⟨.keyword .id, "ID", ⟨1, 16⟩⟩, rfl⟩,
      ⟨⟨.identifier, "a", ⟨1, 19⟩⟩, rfl⟩⟩,
    .clause ⟨.id, .identifier, rfl, ⟨⟨.keyword .id, "ID", ⟨1, 21⟩⟩, rfl⟩,
      ⟨⟨.identifier, "b", ⟨1, 24⟩⟩, rfl⟩⟩]
  closing := ⟨⟨.closeBrace, "\x7d", ⟨1, 26⟩⟩, rfl⟩
  ending := ⟨⟨.endOfInput, "", ⟨1, 27⟩⟩, rfl⟩

theorem ofTokens_derivation_twiceNamed :
    scan "WORKFLOW \"w\" \x7b ID a ID b \x7d" = .ok twiceNamed.tokens ∧
      ofTokens twiceNamed.tokens = .ok twiceNamed.declaration ∧
      twiceNamed.declaration.id = some "b" := by
  have hscan : scan "WORKFLOW \"w\" \x7b ID a ID b \x7d" = .ok twiceNamed.tokens := by cbv
  have hnumber : ∀ t ∈ twiceNamed.tokens, t.kind ≠ .number := by decide
  have hfits : ∀ t ∈ twiceNamed.tokens, t.Fits := fun t ht hk => absurd hk (hnumber t ht)
  obtain ⟨hiff, hread⟩ := ofTokens_derivation hscan
  obtain ⟨d, hd⟩ := hiff.2 ⟨⟨twiceNamed, rfl⟩, hfits⟩
  obtain rfl := hread d twiceNamed hd rfl
  exact ⟨hscan, hd, rfl⟩

end Declaration

end Flowgraph
