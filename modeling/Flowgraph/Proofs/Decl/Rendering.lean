import Flowgraph.Proofs.Decl.Pieces

namespace Flowgraph.Decl

inductive Escapes : List Char → List Char → Prop
  | nil : Escapes [] []
  | backslash {t b : List Char} : Escapes t b → Escapes ('\\' :: t) ('\\' :: '\\' :: b)
  | quote {t b : List Char} : Escapes t b → Escapes ('"' :: t) ('\\' :: '"' :: b)
  | newline {t b : List Char} : Escapes t b → Escapes ('\n' :: t) ('\\' :: 'n' :: b)
  | plain {c : Char} {t b : List Char} : c ≠ '\\' → c ≠ '"' → Escapes t b →
      Escapes (c :: t) (c :: b)

inductive Renders : Word → List Char → Prop
  | plain {w : Word} : w.kind ≠ .text → Renders w w.text.toList
  | quoted {content : String} {body : List Char} : Escapes content.toList body →
      Renders (.quoted content) ('"' :: (body ++ ['"']))

inductive RendersRow : List Word → List Char → Prop
  | nil : RendersRow [] []
  | last {w : Word} {raw : List Char} : Renders w raw → RendersRow [w] raw
  | next {w v : Word} {ws : List Word} {raw g cs : List Char} : Renders w raw → Gap g → g ≠ [] →
      RendersRow (v :: ws) cs → RendersRow (w :: v :: ws) (raw ++ g ++ cs)

section Escapes

variable {content body : List Char}

theorem Escapes.means (h : Escapes content body) : Means body content := by
  induction h with
  | nil => exact .nil
  | backslash _ ih => exact .escape rfl ih
  | quote _ ih => exact .escape rfl ih
  | newline _ ih => exact .escape rfl ih
  | plain hb hq _ ih => exact .plain hq hb ih

theorem exists_escapes (content : List Char) : ∃ body, Escapes content body := by
  induction content with
  | nil => exact ⟨[], .nil⟩
  | cons c t ih =>
    obtain ⟨b, hb⟩ := ih
    by_cases hback : c = '\\'
    · subst hback
      exact ⟨_, .backslash hb⟩
    by_cases hquote : c = '"'
    · subst hquote
      exact ⟨_, .quote hb⟩
    · exact ⟨_, .plain hback hquote hb⟩

end Escapes

section Rows

variable {w : Word} {ws : List Word} {raw g cs : List Char}

theorem Renders.spells (h : Renders w raw) : Spells w raw := by
  cases h with
  | plain hk => exact .plain hk
  | quoted hbody => exact .quoted hbody.means

theorem exists_renders (w : Word) : ∃ raw, Renders w raw := by
  cases w with
  | quoted content =>
    obtain ⟨body, hbody⟩ := exists_escapes content.toList
    exact ⟨_, .quoted hbody⟩
  | _ => exact ⟨_, .plain Kind.noConfusion⟩

theorem exists_rendersRow (ws : List Word) : ∃ cs, RendersRow ws cs := by
  induction ws with
  | nil => exact ⟨[], .nil⟩
  | cons w ws ih =>
    obtain ⟨raw, hraw⟩ := exists_renders w
    obtain ⟨cs, hcs⟩ := ih
    cases ws with
    | nil => exact ⟨raw, .last hraw⟩
    | cons v ws =>
      have hspace : Gap [' '] := .blank (by decide) .nil
      exact ⟨_, .next hraw hspace (List.cons_ne_nil _ _) hcs⟩

theorem Gap.front (h : Gap g) {c : Char} (hc : g.head? = some c) : isWordChar c = false := by
  cases h with
  | nil => cases hc
  | blank hblank =>
    cases hc
    rw [← Bool.not_eq_true]
    intro hword
    rw [isBlank_of_isWordChar hword] at hblank
    cases hblank
  | comment hm =>
    cases hm with
    | hash =>
      cases hc
      decide
    | slashes =>
      cases hc
      decide

theorem Gap.apart (h : Gap g) (hne : g ≠ []) (w : Word) (rest : List Char) :
    w.Apart (g ++ rest) := by
  intro _ c hc
  obtain ⟨d, r, rfl⟩ := List.exists_cons_of_ne_nil hne
  cases hc
  exact h.front rfl

theorem tokens_words (before : List Char) (ps : List Piece) :
    (Piece.tokens before ps).map (fun t => (t.kind, t.text)) =
      (ps.map (·.word)).map fun w => (w.kind, w.text) := by
  induction ps generalizing before with
  | nil => rfl
  | cons p ps ih => rw [Piece.tokens, List.map_cons, ih, List.map_cons, List.map_cons]

theorem RendersRow.pieces (h : RendersRow ws cs) (hne : ws ≠ []) (hg : Gap g) :
    ∃ ps, g ++ cs = Piece.text ps ∧ Piece.Separate [] ps ∧ ps.map (·.word) = ws := by
  induction h generalizing g with
  | nil => exact absurd rfl hne
  | @last w raw hw =>
    refine ⟨[⟨g, w, raw, hg, hw.spells⟩], ?_, ⟨fun _ c hc => (by cases hc), trivial⟩, rfl⟩
    rw [Piece.text_cons, Piece.text_nil, List.append_nil, Piece.chars]
  | @next w v ws raw g' cs hw hg' hne' _ ih =>
    obtain ⟨ps, hps, hseparate, hwords⟩ := ih (List.cons_ne_nil _ _) hg'
    refine ⟨⟨g, w, raw, hg, hw.spells⟩ :: ps, ?_, ⟨?_, hseparate⟩, ?_⟩
    · rw [Piece.text_cons, Piece.chars, ← hps]
      simp only [List.append_assoc]
    · rw [← hps, List.append_assoc]
      exact hg'.apart hne' w _
    · rw [List.map_cons, hwords]

theorem RendersRow.row (h : RendersRow ws cs) :
    ∃ ps, cs = Piece.text ps ∧ Piece.Separate [] ps ∧ ps.map (·.word) = ws := by
  cases ws with
  | nil =>
    cases h
    exact ⟨[], rfl, trivial, rfl⟩
  | cons w ws => exact h.pieces (List.cons_ne_nil _ _) .nil

end Rows

theorem scan_rendered (ws : List Word) :
    (∃ cs, RendersRow ws cs) ∧ ∀ s : String, RendersRow ws s.toList →
      (scan s).map (·.map fun t => (t.kind, t.text)) =
        .ok (ws.map (fun w => (w.kind, w.text)) ++ [(.endOfInput, "")]) := by
  refine ⟨exists_rendersRow ws, fun s hs => ?_⟩
  obtain ⟨ps, htext, hseparate, rfl⟩ := hs.row
  rw [scan_trailing (htext.trans (List.append_nil _).symm) hseparate (.gap .nil), Except.map,
    List.map_append, tokens_words]
  rfl

def quotedLines : List Word := [.keyword .name, .quoted "\"\n\\"]

theorem scan_rendered_quotedLines :
    RendersRow quotedLines "NAME//\n\"\\\"\n\\\\\"".toList ∧
      (scan "NAME//\n\"\\\"\n\\\\\"").map (·.map fun t => (t.kind, t.text)) =
        .ok [(.keyword .name, "NAME"), (.text, "\"\n\\"), (.endOfInput, "")] := by
  have hgap : Gap ['/', '/', '\n'] := .comment (.slashes (List.not_mem_nil (a := '\n'))) .nil
  have hbody : Escapes "\"\n\\".toList ['\\', '"', '\n', '\\', '\\'] :=
    .quote (.plain (by decide) (by decide) (.backslash .nil))
  have hrow : RendersRow quotedLines "NAME//\n\"\\\"\n\\\\\"".toList :=
    .next (.plain Kind.noConfusion) hgap (List.cons_ne_nil _ _) (.last (.quoted hbody))
  exact ⟨hrow, (scan_rendered quotedLines).2 _ hrow⟩

end Flowgraph.Decl
