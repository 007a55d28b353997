import Flowgraph.Proofs.Decl.Clauses

namespace Flowgraph.Decl

section Nodes

variable {n m : NodeDecl} {ts rest : List Token}

theorem NodeBody.fits_iff (b : NodeBody) :
    (∀ t ∈ b.tokens, t.Fits) ↔ ∀ t ∈ b.clauses.flatMap Clause.tokens, t.Fits := by
  have hopening : b.opening.token.Fits := b.opening.fits_of_ne (by decide)
  have hclosing : b.closing.token.Fits := b.closing.fits_of_ne (by decide)
  rw [NodeBody.tokens, List.forall_mem_cons, List.forall_mem_append, List.forall_mem_singleton,
    and_iff_right hopening, and_iff_left hclosing]

theorem NodePhrase.fits_iff (p : NodePhrase) :
    (∀ t ∈ p.tokens, t.Fits) ↔ ∀ t ∈ p.body.elim [] NodeBody.tokens, t.Fits := by
  have hlabel : ∀ t ∈ p.label.elim [] (fun l => [l.token]), t.Fits := by
    cases p.label with
    | none => exact List.forall_mem_nil _
    | some l => exact List.forall_mem_singleton.2 (l.fits_of_ne (by decide))
  have hhead : ∀ t ∈ [p.id.token, p.type.token, p.kind.token], t.Fits := by
    simp only [List.forall_mem_cons]
    exact ⟨p.id.fits_of_ne (by decide), p.type.fits_of_ne (by decide),
      p.kind.fits_of_ne (by decide), List.forall_mem_nil _⟩
  have hmark : p.mark.token.Fits := p.mark.fits_of_ne (by decide)
  rw [NodePhrase.tokens, NodePhrase.behindMark, List.forall_mem_cons, List.forall_mem_append,
    List.forall_mem_append, and_iff_right hmark, and_iff_right hhead, and_iff_right hlabel]

theorem NodePhrase.declaration_eq (p : NodePhrase) :
    p.declaration =
      nodeOver { id := p.id.text, kind := p.kind.text, line := p.mark.line,
                 name := p.label.map Leaf.text } p.clauses := by
  simp only [NodePhrase.declaration, nodeOver, Option.or_none]

theorem readNodeBody_ok (h : readNodeBody n ts = .ok (m, rest)) :
    ∃ (cs : List (Clause nodeTakes)) (closing : Leaf .closeBrace),
      ts = cs.flatMap Clause.tokens ++ closing.token :: rest ∧
        (∀ t ∈ cs.flatMap Clause.tokens, t.Fits) ∧ m = nodeOver n cs := by
  rw [readNodeBody, Except.bind_ok_iff] at h
  obtain ⟨⟨n', later⟩, hread, h⟩ := h
  obtain ⟨cs, rfl, hfits, rfl⟩ := readAttributes_ok nodeAttributes_reads hread
  cases later with
  | nil => cases h
  | cons t r =>
    dsimp only at h
    split at h
    case isTrue hk =>
      cases h
      exact ⟨cs, ⟨t, hk⟩, rfl, hfits, rfl⟩
    case isFalse => split at h <;> cases h

theorem readNodeBody_body (b : NodeBody) (hfits : ∀ t ∈ b.tokens, t.Fits) (ts : List Token) :
    readNodeBody n (b.clauses.flatMap Clause.tokens ++ b.closing.token :: ts) =
      .ok (nodeOver n b.clauses, ts) := by
  have hclauses : ∀ t ∈ b.clauses.flatMap Clause.tokens, t.Fits := b.fits_iff.1 hfits
  have hstop : ∀ k, nextKind (b.closing.token :: ts) = some (.keyword k) → nodeTakes k = none := by
    intro k hk
    rw [nextKind_leaf] at hk
    cases hk
  rw [readNodeBody, readAttributes_clauses nodeAttributes_reads _ hclauses,
    readAttributes_stop nodeAttributes_reads hstop]
  exact if_pos b.closing.kind_eq

theorem readInlineName_ok (h : readInlineName n ts = (m, rest)) :
    ∃ label : Option (Leaf .text),
      ts = label.elim [] (fun l => [l.token]) ++ rest ∧
        m = { n with name := (label.map Leaf.text).or n.name } := by
  cases ts with
  | nil =>
    cases h
    exact ⟨none, rfl, rfl⟩
  | cons t r =>
    rw [readInlineName] at h
    split at h
    case isTrue hk =>
      cases h
      exact ⟨some ⟨t, hk⟩, rfl, rfl⟩
    case isFalse =>
      cases h
      exact ⟨none, rfl, rfl⟩

theorem readInlineName_label (label : Option (Leaf .text)) (hnext : nextKind ts ≠ some .text) :
    readInlineName n (label.elim [] (fun l => [l.token]) ++ ts) =
      ({ n with name := (label.map Leaf.text).or n.name }, ts) := by
  cases label with
  | none =>
    cases ts with
    | nil => rfl
    | cons t r =>
      have hk : t.kind ≠ .text := fun hk => hnext (congrArg some hk)
      exact if_neg hk
  | some l => exact if_pos l.kind_eq

theorem readBraces_ok (h : readBraces n ts = .ok (m, rest)) :
    ∃ body : Option NodeBody,
      ts = body.elim [] NodeBody.tokens ++ rest ∧
        (∀ t ∈ body.elim [] NodeBody.tokens, t.Fits) ∧
        m = nodeOver n (body.elim [] NodeBody.clauses) := by
  cases ts with
  | nil =>
    cases h
    exact ⟨none, rfl, List.forall_mem_nil _, rfl⟩
  | cons t r =>
    rw [readBraces] at h
    split at h
    case isTrue hk =>
      obtain ⟨cs, closing, rfl, hfits, rfl⟩ := readNodeBody_ok h
      let b : NodeBody := ⟨⟨t, hk⟩, cs, closing⟩
      refine ⟨some b, ?_, b.fits_iff.2 hfits, rfl⟩
      rw [Option.elim_some, NodeBody.tokens, List.cons_append, List.append_assoc]
      rfl
    case isFalse =>
      cases h
      exact ⟨none, rfl, List.forall_mem_nil _, rfl⟩

theorem readBraces_body (body : Option NodeBody)
    (hfits : ∀ t ∈ body.elim [] NodeBody.tokens, t.Fits) (hnext : nextKind ts ≠ some .openBrace) :
    readBraces n (body.elim [] NodeBody.tokens ++ ts) =
      .ok (nodeOver n (body.elim [] NodeBody.clauses), ts) := by
  cases body with
  | none =>
    cases ts with
    | nil => rfl
    | cons t r =>
      have hk : t.kind ≠ .openBrace := fun hk => hnext (congrArg some hk)
      exact if_neg hk
  | some b =>
    rw [Option.elim_some, NodeBody.tokens, List.cons_append, List.append_assoc, readBraces,
      if_pos b.opening.kind_eq]
    exact readNodeBody_body b hfits ts

theorem readNode_ok (mark : Leaf (.keyword .node)) (h : readNode mark.line ts = .ok (n, rest)) :
    ∃ p : NodePhrase, mark.token :: ts = p.tokens ++ rest ∧ (∀ t ∈ p.tokens, t.Fits) ∧
      n = p.declaration := by
  simp only [readNode, Except.bind_ok_iff, Prod.exists] at h
  obtain ⟨_, ts₁, hid, _, ts₂, htype, _, ts₃, hkind, h⟩ := h
  obtain ⟨id, rfl, rfl⟩ := expect_ok hid
  obtain ⟨type, rfl, rfl⟩ := expect_ok htype
  obtain ⟨kind, rfl, rfl⟩ := expect_ok hkind
  generalize hname : readInlineName _ ts₃ = named at h
  obtain ⟨m, ts₄⟩ := named
  obtain ⟨label, rfl, rfl⟩ := readInlineName_ok hname
  obtain ⟨body, rfl, hfits, rfl⟩ := readBraces_ok h
  let p : NodePhrase := ⟨mark, id, type, kind, label, body⟩
  refine ⟨p, ?_, ?_, ?_⟩
  · simp only [p, NodePhrase.tokens, NodePhrase.behindMark, List.cons_append, List.nil_append,
      List.append_assoc]
  · exact p.fits_iff.2 hfits
  · rw [p.declaration_eq, Option.or_none]
    rfl

theorem readNode_phrase (p : NodePhrase) (hfits : ∀ t ∈ p.tokens, t.Fits)
    (htext : nextKind ts ≠ some .text) (hbrace : nextKind ts ≠ some .openBrace) :
    readNode p.mark.line (p.behindMark ++ ts) = .ok (p.declaration, ts) := by
  have hbody : nextKind (p.body.elim [] NodeBody.tokens ++ ts) ≠ some .text := by
    cases p.body with
    | none => exact htext
    | some b =>
      rw [Option.elim_some, NodeBody.tokens, List.cons_append, nextKind_leaf]
      decide
  simp only [readNode, NodePhrase.behindMark, List.cons_append, List.nil_append, List.append_assoc,
    expect_leaf, Except.bind_ok_iff, Except.ok.injEq, exists_eq_left',
    readInlineName_label p.label hbody]
  rw [readBraces_body p.body (p.fits_iff.1 hfits) hbrace, p.declaration_eq, Option.or_none]
  rfl

end Nodes

section Transitions

variable {t : TransitionDecl} {xs : List TransitionDecl} {ts rest : List Token}

theorem TransitionPhrase.fits_iff (p : TransitionPhrase) :
    (∀ t ∈ p.tokens, t.Fits) ↔ ∀ t ∈ p.clauses.flatMap Clause.tokens, t.Fits := by
  have hhead : ∀ t ∈ [p.source.token, p.arrow.token, p.target.token], t.Fits := by
    simp only [List.forall_mem_cons]
    exact ⟨p.source.fits_of_ne (by decide), p.arrow.fits_of_ne (by decide),
      p.target.fits_of_ne (by decide), List.forall_mem_nil _⟩
  rw [TransitionPhrase.tokens, List.forall_mem_append, and_iff_right hhead]

theorem TransitionPhrase.declaration_eq (p : TransitionPhrase) :
    p.declaration =
      transitionOver { source := p.source.text, target := p.target.text, line := p.source.line }
        p.clauses := by
  simp only [TransitionPhrase.declaration, transitionOver, Option.or_none]

theorem Block.fits_iff (b : Block) :
    (∀ t ∈ b.tokens, t.Fits) ↔
      ∀ t ∈ b.transitions.flatMap TransitionPhrase.tokens, t.Fits := by
  have hmark : b.mark.token.Fits := b.mark.fits_of_ne (by decide)
  have hopening : b.opening.token.Fits := b.opening.fits_of_ne (by decide)
  have hclosing : b.closing.token.Fits := b.closing.fits_of_ne (by decide)
  rw [Block.tokens, Block.behindMark, List.forall_mem_cons, List.forall_mem_cons,
    List.forall_mem_append, List.forall_mem_singleton, and_iff_right hmark,
    and_iff_right hopening, and_iff_left hclosing]

theorem readTransition_ok (h : readTransition ts = .ok (t, rest)) :
    ∃ p : TransitionPhrase, ts = p.tokens ++ rest ∧ (∀ t ∈ p.tokens, t.Fits) ∧
      t = p.declaration := by
  simp only [readTransition, Except.bind_ok_iff, Prod.exists] at h
  obtain ⟨_, ts₁, hsource, _, ts₂, harrow, _, ts₃, htarget, h⟩ := h
  obtain ⟨source, rfl, rfl⟩ := expect_ok hsource
  obtain ⟨arrow, rfl, rfl⟩ := expect_ok harrow
  obtain ⟨target, rfl, rfl⟩ := expect_ok htarget
  obtain ⟨cs, rfl, hfits, rfl⟩ := readAttributes_ok transitionAttributes_reads h
  let p : TransitionPhrase := ⟨source, arrow, target, cs⟩
  exact ⟨p, rfl, p.fits_iff.2 hfits, p.declaration_eq.symm⟩

theorem readTransition_phrase (p : TransitionPhrase) (hfits : ∀ t ∈ p.tokens, t.Fits)
    (hnext : ∀ k, nextKind ts = some (.keyword k) → transitionTakes k = none) :
    readTransition (p.tokens ++ ts) = .ok (p.declaration, ts) := by
  simp only [readTransition, TransitionPhrase.tokens, List.cons_append, List.nil_append,
    expect_leaf, Except.bind_ok_iff, Except.ok.injEq, exists_eq_left']
  rw [readAttributes_clauses transitionAttributes_reads _ (p.fits_iff.1 hfits),
    readAttributes_stop transitionAttributes_reads hnext, p.declaration_eq]
  rfl

theorem readTransitions_closing (closing : Leaf .closeBrace) (ts : List Token) :
    readTransitions (closing.token :: ts) = .ok ([], ts) := by
  rw [readTransitions, if_pos closing.kind_eq]

theorem readTransitions_phrase (p : TransitionPhrase) (hfits : ∀ t ∈ p.tokens, t.Fits)
    (hnext : ∀ k, nextKind ts = some (.keyword k) → transitionTakes k = none) :
    readTransitions (p.tokens ++ ts) =
      readTransitions ts >>= fun (xs, rest) => .ok (p.declaration :: xs, rest) := by
  have hread := readTransition_phrase p hfits hnext
  have hclosing : p.source.token.kind ≠ .closeBrace := by
    rw [p.source.kind_eq]
    decide
  have hend : p.source.token.kind ≠ .endOfInput := by
    rw [p.source.kind_eq]
    decide
  change readTransitions (p.source.token :: _) = _
  rw [readTransitions, if_neg hclosing, if_neg hend]
  split
  case h_1 e he => cases hread.symm.trans he
  case h_2 x rest hx =>
    cases hread.symm.trans hx
    rfl

theorem readTransitions_ok (h : readTransitions ts = .ok (xs, rest)) :
    ∃ (ps : List TransitionPhrase) (closing : Leaf .closeBrace),
      ts = ps.flatMap TransitionPhrase.tokens ++ closing.token :: rest ∧
        (∀ t ∈ ps.flatMap TransitionPhrase.tokens, t.Fits) ∧
        xs = ps.map TransitionPhrase.declaration := by
  fun_induction readTransitions ts generalizing xs rest with
  | case1 => cases h
  | case2 t r hk =>
    cases h
    exact ⟨[], ⟨t, hk⟩, rfl, List.forall_mem_nil _, rfl⟩
  | case3 => cases h
  | case4 => cases h
  | case5 t r _ _ x later hx ih =>
    rw [Except.bind_ok_iff] at h
    obtain ⟨⟨ys, rest'⟩, hys, h⟩ := h
    cases h
    obtain ⟨p, hp, hfits, rfl⟩ := readTransition_ok hx
    obtain ⟨ps, closing, rfl, hfits', rfl⟩ := ih hys
    refine ⟨p :: ps, closing, ?_, ?_, rfl⟩
    · rw [hp, List.flatMap_cons, List.append_assoc]
    · rw [List.flatMap_cons, List.forall_mem_append]
      exact ⟨hfits, hfits'⟩

theorem transitionTakes_next (ps : List TransitionPhrase) (closing : Leaf .closeBrace)
    (ts : List Token) (k : Keyword)
    (h : nextKind (ps.flatMap TransitionPhrase.tokens ++ closing.token :: ts) =
      some (.keyword k)) : transitionTakes k = none := by
  cases ps with
  | nil =>
    rw [List.flatMap_nil, List.nil_append, nextKind_leaf] at h
    cases h
  | cons p ps =>
    rw [List.flatMap_cons, TransitionPhrase.tokens, List.append_assoc, List.append_assoc,
      List.cons_append, nextKind_leaf] at h
    cases h

theorem readTransitions_phrases (ps : List TransitionPhrase) (closing : Leaf .closeBrace)
    (hfits : ∀ t ∈ ps.flatMap TransitionPhrase.tokens, t.Fits) (ts : List Token) :
    readTransitions (ps.flatMap TransitionPhrase.tokens ++ closing.token :: ts) =
      .ok (ps.map TransitionPhrase.declaration, ts) := by
  induction ps with
  | nil => exact readTransitions_closing closing ts
  | cons p ps ih =>
    rw [List.flatMap_cons, List.forall_mem_append] at hfits
    rw [List.flatMap_cons, List.append_assoc,
      readTransitions_phrase p hfits.1 (transitionTakes_next ps closing ts), ih hfits.2]
    rfl

theorem readBlock_ok (mark : Leaf (.keyword .transitions)) (h : readBlock ts = .ok (xs, rest)) :
    ∃ b : Block, mark.token :: ts = b.tokens ++ rest ∧ (∀ t ∈ b.tokens, t.Fits) ∧
      xs = b.transitions.map TransitionPhrase.declaration := by
  simp only [readBlock, Except.bind_ok_iff, Prod.exists] at h
  obtain ⟨_, ts₁, hopening, h⟩ := h
  obtain ⟨opening, rfl, rfl⟩ := expect_ok hopening
  obtain ⟨ps, closing, rfl, hfits, rfl⟩ := readTransitions_ok h
  let b : Block := ⟨mark, opening, ps, closing⟩
  refine ⟨b, ?_, b.fits_iff.2 hfits, rfl⟩
  rw [Block.tokens, Block.behindMark, List.cons_append, List.cons_append, List.append_assoc]
  rfl

theorem readBlock_phrase (b : Block) (hfits : ∀ t ∈ b.tokens, t.Fits) (ts : List Token) :
    readBlock (b.behindMark ++ ts) =
      .ok (b.transitions.map TransitionPhrase.declaration, ts) := by
  rw [readBlock, Block.behindMark, List.cons_append, List.append_assoc, expect_leaf]
  exact readTransitions_phrases b.transitions b.closing (b.fits_iff.1 hfits) ts

end Transitions

end Flowgraph.Decl
