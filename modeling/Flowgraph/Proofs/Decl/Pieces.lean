import Flowgraph.Proofs.Decl.Words

namespace Flowgraph

namespace Place

def behind (cs : List Char) : Place :=
  ⟨1 + cs.count '\n', 1 + (cs.reverse.takeWhile (· ≠ '\n')).length⟩

theorem after_start (cs : List Char) : after {} cs = behind cs := by
  induction cs using List.reverseRecOn with
  | nil => rfl
  | append_singleton cs c ih =>
    rw [after_append, ih, behind, behind, List.reverse_append]
    by_cases hc : c = '\n'
    · simp [after, next, hc, Nat.add_assoc]
    · simp [after, next, hc, Nat.add_comm]

theorem after_behind (cs ds : List Char) : (behind cs).after ds = behind (cs ++ ds) := by
  rw [← after_start, ← after_append, after_start]

end Place

namespace Decl

inductive Comment : List Char → Prop
  | hash {body : List Char} : '\n' ∉ body → Comment ('#' :: body)
  | slashes {body : List Char} : '\n' ∉ body → Comment ('/' :: '/' :: body)

inductive Gap : List Char → Prop
  | nil : Gap []
  | blank {c : Char} {g : List Char} : Text.isBlank c = true → Gap g → Gap (c :: g)
  | comment {m g : List Char} : Comment m → Gap g → Gap (m ++ '\n' :: g)

inductive Trailing : List Char → Prop
  | gap {g : List Char} : Gap g → Trailing g
  | comment {g m : List Char} : Gap g → Comment m → Trailing (g ++ m)

def Stops (cs : List Char) : Prop :=
  ∃ c r, cs = c :: r ∧ Text.isBlank c = false ∧ c ≠ '#' ∧ (c = '/' → r.head? ≠ some '/')

section Gaps

variable {c : Char} {cs g m r rest : List Char}

theorem splitTrivia_blank (h : Text.isBlank c = true) (r : List Char) :
    splitTrivia false (c :: r) = (c :: (splitTrivia false r).1, (splitTrivia false r).2) := by
  rw [splitTrivia, if_pos h]

theorem splitTrivia_inside (h : '\n' ∉ m) :
    splitTrivia true m = (m, []) ∧ ∀ r, splitTrivia true (m ++ '\n' :: r) =
      (m ++ '\n' :: (splitTrivia false r).1, (splitTrivia false r).2) := by
  induction m with
  | nil => exact ⟨rfl, fun _ => rfl⟩
  | cons c m ih =>
    rw [List.mem_cons, not_or] at h
    obtain ⟨hc, hm⟩ := h
    have hline : (c != '\n') = true := bne_iff_ne.2 (Ne.symm hc)
    obtain ⟨hend, hgo⟩ := ih hm
    refine ⟨?_, fun r => ?_⟩
    · rw [splitTrivia, hline, hend]
    · rw [List.cons_append, splitTrivia, hline, hgo]
      rfl

theorem splitTrivia_mark {mark : Char} (hmark : Text.isBlank mark = false)
    (hopens : mark = '#' ∨ mark = '/' ∧ r.head? = some '/') :
    splitTrivia false (mark :: r) = (mark :: (splitTrivia true r).1, (splitTrivia true r).2) := by
  have hopens' :
      (decide (mark = '#') || decide (mark = '/') && decide (r.head? = some '/')) = true := by
    simpa only [Bool.or_eq_true, Bool.and_eq_true, decide_eq_true_eq] using hopens
  rw [splitTrivia, if_neg (by rw [hmark]; exact Bool.false_ne_true), if_pos hopens']

theorem splitTrivia_comment (h : Comment m) :
    splitTrivia false m = (m, []) ∧ ∀ r, splitTrivia false (m ++ '\n' :: r) =
      (m ++ '\n' :: (splitTrivia false r).1, (splitTrivia false r).2) := by
  cases h with
  | @hash body hbody =>
    obtain ⟨hend, hgo⟩ := splitTrivia_inside hbody
    refine ⟨?_, fun r => ?_⟩
    · rw [splitTrivia_mark (by decide) (.inl rfl), hend]
    · rw [List.cons_append, splitTrivia_mark (by decide) (.inl rfl), hgo]
      rfl
  | @slashes body hbody =>
    have hline : '\n' ∉ '/' :: body := by simpa using hbody
    obtain ⟨hend, hgo⟩ := splitTrivia_inside hline
    refine ⟨?_, fun r => ?_⟩
    · rw [splitTrivia_mark (by decide) (.inr ⟨rfl, rfl⟩), hend]
    · rw [List.cons_append, splitTrivia_mark (by decide) (.inr ⟨rfl, rfl⟩), hgo]
      rfl

theorem splitTrivia_gap (h : Gap g) (r : List Char) :
    splitTrivia false (g ++ r) = (g ++ (splitTrivia false r).1, (splitTrivia false r).2) := by
  induction h with
  | nil => rfl
  | blank hc _ ih => rw [List.cons_append, splitTrivia_blank hc, ih, List.cons_append]
  | comment hm _ ih =>
    rw [List.append_assoc, List.cons_append, (splitTrivia_comment hm).2, ih, List.append_assoc,
      List.cons_append]

theorem splitTrivia_trailing (h : Trailing cs) : splitTrivia false cs = (cs, []) := by
  cases h with
  | gap hg =>
    have hall := splitTrivia_gap hg []
    rwa [List.append_nil, splitTrivia, List.append_nil] at hall
  | comment hg hm => rw [splitTrivia_gap hg, (splitTrivia_comment hm).1]

theorem splitTrivia_stops (h : Stops cs) : splitTrivia false cs = ([], cs) := by
  obtain ⟨c, r, rfl, hblank, hhash, hslash⟩ := h
  have hmark : ¬(decide (c = '#') || decide (c = '/') && decide (r.head? = some '/')) = true := by
    simp only [Bool.or_eq_true, Bool.and_eq_true, decide_eq_true_eq, not_or, not_and]
    exact ⟨hhash, hslash⟩
  rw [splitTrivia, if_neg (by rw [hblank]; exact Bool.false_ne_true), if_neg hmark]

def Cut (cs : List Char) : Prop :=
  Trailing cs ∨ ∃ g rest, cs = g ++ rest ∧ Gap g ∧ Stops rest

theorem Cut.blank (hc : Text.isBlank c = true) (h : Cut r) : Cut (c :: r) := by
  rcases h with h | ⟨g, rest, rfl, hg, hrest⟩
  · cases h with
    | gap hg => exact .inl (.gap (.blank hc hg))
    | comment hg hm => exact .inl (.comment (.blank hc hg) hm)
  · exact .inr ⟨c :: g, rest, rfl, .blank hc hg, hrest⟩

theorem Cut.comment (hm : Comment m) (h : Cut r) : Cut (m ++ '\n' :: r) := by
  rcases h with h | ⟨g, rest, rfl, hg, hrest⟩
  · cases h with
    | gap hg => exact .inl (.gap (.comment hm hg))
    | @comment g m' hg hm' =>
      have htrail := Trailing.comment (.comment hm hg) hm'
      rw [List.append_assoc] at htrail
      exact .inl htrail
  · exact .inr ⟨m ++ '\n' :: g, rest, by simp, .comment hm hg, hrest⟩

theorem exists_cut (cs : List Char) : Cut cs := by
  induction hn : cs.length using Nat.strongRecOn generalizing cs with
  | ind n ih =>
  subst hn
  -- a comment ends with its line, or with the text
  have hcomment : ∀ mark r, (∀ body, '\n' ∉ body → Comment (mark ++ body)) → cs = mark ++ r →
      Cut cs := by
    rintro mark r hmark rfl
    by_cases hline : '\n' ∈ r
    · obtain ⟨body, r', rfl, hbody⟩ := List.eq_append_cons_of_mem hline
      rw [← List.append_assoc]
      refine (ih _ ?_ r' rfl).comment (hmark body hbody)
      simp only [List.length_append, List.length_cons]
      omega
    · have htrail := Trailing.comment .nil (hmark r hline)
      exact .inl htrail
  cases cs with
  | nil => exact .inl (.gap .nil)
  | cons c r =>
    by_cases hblank : Text.isBlank c = true
    · exact (ih _ (Nat.lt_succ_self _) r rfl).blank hblank
    by_cases hhash : c = '#'
    · exact hcomment ['#'] r (fun _ => .hash) (by rw [hhash]; rfl)
    by_cases hslash : c = '/' ∧ r.head? = some '/'
    · obtain ⟨rfl, hr⟩ := hslash
      obtain ⟨s, rfl⟩ := List.head?_eq_some_iff.1 hr
      exact hcomment ['/', '/'] s (fun _ => .slashes) rfl
    · refine .inr ⟨[], c :: r, rfl, .nil, c, r, rfl, (Bool.not_eq_true _).mp hblank, hhash, ?_⟩
      exact fun hc hr => hslash ⟨hc, hr⟩

end Gaps

structure Piece where
  gap : List Char
  word : Word
  raw : List Char
  isGap : Gap gap
  spells : Spells word raw

namespace Piece

def chars (p : Piece) : List Char := p.gap ++ p.raw

def text (ps : List Piece) : List Char := ps.flatMap chars

def tokens (before : List Char) : List Piece → List Token
  | [] => []
  | p :: ps =>
      ⟨p.word.kind, p.word.text, .behind (before ++ p.gap)⟩ :: tokens (before ++ p.chars) ps

def Separate (rest : List Char) : List Piece → Prop
  | [] => True
  | p :: ps => p.word.Apart (text ps ++ rest) ∧ Separate rest ps

variable {p : Piece} {ps : List Piece} {rest rest' : List Char}

theorem text_nil : text [] = [] := rfl

theorem text_cons : text (p :: ps) = p.chars ++ text ps := rfl

theorem Separate.front (h : Separate (rest ++ rest') ps) : Separate rest ps := by
  induction ps with
  | nil => trivial
  | cons p ps ih =>
    obtain ⟨hp, hps⟩ := h
    rw [← List.append_assoc] at hp
    exact ⟨hp.front, ih hps⟩

end Piece

theorem Spells.stops {w : Word} {raw : List Char} (h : Spells w raw) (rest : List Char) :
    Stops (raw ++ rest) := by
  obtain ⟨c, r, rfl, hc⟩ := h.front
  refine ⟨c, r ++ rest, rfl, ?_⟩
  rcases hc with hc | hc
  · simp only [List.mem_cons, List.not_mem_nil, or_false] at hc
    rcases hc with rfl | rfl | rfl | rfl <;> exact ⟨by decide, by decide, fun h => nomatch h⟩
  · exact ⟨isBlank_of_isWordChar hc, ne_of_isWordChar hc (by decide),
      fun h => absurd h (ne_of_isWordChar hc (by decide))⟩

section Scan

variable {q : Place} {cs g rest : List Char} {f : Flaw}

theorem scanFrom_eq (q : Place) (cs : List Char) :
    scanFrom q cs =
      match (splitTrivia false cs).2 with
      | [] => .ok [⟨.endOfInput, "", q.after (splitTrivia false cs).1⟩]
      | c :: r =>
          match splitLexeme c r with
          | .error f => .error (.unreadable (q.after (splitTrivia false cs).1) f)
          | .ok (x, rest) =>
              (scanFrom ((q.after (splitTrivia false cs).1).after x.raw) rest).map
                (⟨x.kind, x.text, q.after (splitTrivia false cs).1⟩ :: ·) := by
  rw [scanFrom]
  split
  case h_1 hs => simp only [hs]
  case h_2 hs =>
    simp only [hs]
    split
    case h_1 hx => simp only [hx]
    case h_2 hx =>
      simp only [hx]
      rfl

theorem scanFrom_trailing (h : Trailing cs) :
    scanFrom q cs = .ok [⟨.endOfInput, "", q.after cs⟩] := by
  rw [scanFrom_eq, splitTrivia_trailing h]

theorem splitTrivia_gap_stops (hg : Gap g) (hrest : Stops rest) :
    splitTrivia false (g ++ rest) = (g, rest) := by
  rw [splitTrivia_gap hg, splitTrivia_stops hrest, List.append_nil]

theorem scanFrom_unreadable (hg : Gap g) (hrest : Stops rest) (h : Unreadable rest f) :
    scanFrom q (g ++ rest) = .error (.unreadable (q.after g) f) := by
  obtain ⟨c, r, rfl, -⟩ := id hrest
  rw [scanFrom_eq, splitTrivia_gap_stops hg hrest]
  dsimp only
  rw [splitLexeme_unreadable h]

theorem scanFrom_piece (p : Piece) (h : p.word.Apart rest) :
    scanFrom q (p.chars ++ rest) =
      (scanFrom (q.after p.chars) rest).map
        (⟨p.word.kind, p.word.text, q.after p.gap⟩ :: ·) := by
  have hstops := p.spells.stops rest
  obtain ⟨c, r, hraw, -⟩ := id hstops
  rw [scanFrom_eq, Piece.chars, List.append_assoc, splitTrivia_gap_stops p.isGap hstops, hraw]
  dsimp only
  rw [splitLexeme_spells p.spells h hraw, Place.after_append]

theorem scanFrom_pieces (before : List Char) {ps : List Piece} (h : Piece.Separate rest ps) :
    scanFrom (.behind before) (Piece.text ps ++ rest) =
      (scanFrom (.behind (before ++ Piece.text ps)) rest).map (Piece.tokens before ps ++ ·) := by
  induction ps generalizing before with
  | nil =>
    rw [Piece.text_nil, List.nil_append, List.append_nil]
    cases scanFrom (.behind before) rest <;> rfl
  | cons p ps ih =>
    obtain ⟨hp, hps⟩ := h
    rw [Piece.text_cons, List.append_assoc, scanFrom_piece p hp, Place.after_behind,
      Place.after_behind, ih _ hps, List.append_assoc]
    cases scanFrom (.behind (before ++ (p.chars ++ Piece.text ps))) rest <;> rfl

end Scan

inductive Ends : List Char → Prop
  | trailing {rest : List Char} : Trailing rest → Ends rest
  | unreadable {g bad : List Char} {f : Flaw} : Gap g → Stops bad → Unreadable bad f →
      Ends (g ++ bad)

theorem exists_pieces (cs : List Char) :
    ∃ ps rest, cs = Piece.text ps ++ rest ∧ Piece.Separate rest ps ∧ Ends rest := by
  induction hn : cs.length using Nat.strongRecOn generalizing cs with
  | ind n ih =>
  subst hn
  rcases exists_cut cs with h | ⟨g, bad, rfl, hg, hbad⟩
  · exact ⟨[], cs, rfl, trivial, .trailing h⟩
  obtain ⟨c, r, hcr, -⟩ := id hbad
  rcases readable_or_unreadable c r with ⟨w, raw, rest, hw, hrest, hraw⟩ | ⟨f, hf⟩
  · rw [← hcr] at hraw
    subst hraw
    have hshort : rest.length < (g ++ (raw ++ rest)).length := by
      obtain ⟨d, s, rfl, -⟩ := hw.front
      simp only [List.length_append, List.length_cons]
      omega
    obtain ⟨ps, last, rfl, hps, hlast⟩ := ih _ hshort rest rfl
    refine ⟨⟨g, w, raw, hg, hw⟩ :: ps, last, ?_, ⟨hrest, hps⟩, hlast⟩
    rw [Piece.text_cons, Piece.chars, List.append_assoc, List.append_assoc]
  · rw [← hcr] at hf
    exact ⟨[], g ++ bad, rfl, trivial, .unreadable hg hbad hf⟩

section Rows

variable {s : String} {ps : List Piece} {g rest bad : List Char} {f : Flaw}

theorem scan_row (hs : s.toList = Piece.text ps ++ rest) (h : Piece.Separate rest ps) :
    scan s = (scanFrom (.behind (Piece.text ps)) rest).map (Piece.tokens [] ps ++ ·) := by
  rw [scan, hs]
  exact scanFrom_pieces [] h

theorem scan_trailing (hs : s.toList = Piece.text ps ++ rest) (h : Piece.Separate rest ps)
    (hrest : Trailing rest) :
    scan s = .ok (Piece.tokens [] ps ++ [⟨.endOfInput, "", .behind s.toList⟩]) := by
  rw [scan_row hs h, scanFrom_trailing hrest, Place.after_behind, hs]
  rfl

theorem scan_unreadable (hs : s.toList = Piece.text ps ++ (g ++ bad))
    (h : Piece.Separate (g ++ bad) ps) (hg : Gap g) (hbad : Stops bad) (hf : Unreadable bad f) :
    scan s = .error (.unreadable (.behind (Piece.text ps ++ g)) f) := by
  rw [scan_row hs h, scanFrom_unreadable hg hbad hf, Place.after_behind]
  rfl

end Rows

structure Tokenized (s : String) (ts : List Token) (ps : List Piece) (last : List Char) : Prop where
  text : s.toList = Piece.text ps ++ last
  separate : Piece.Separate last ps
  trailing : Trailing last
  tokens : ts = Piece.tokens [] ps ++ [⟨.endOfInput, "", .behind s.toList⟩]

structure Stuck (s : String) (e : DeclError) (ps : List Piece) (gap bad : List Char)
    (flaw : Flaw) : Prop where
  text : s.toList = Piece.text ps ++ (gap ++ bad)
  separate : Piece.Separate (gap ++ bad) ps
  isGap : Gap gap
  stops : Stops bad
  unreadable : Unreadable bad flaw
  error : e = .unreadable (.behind (Piece.text ps ++ gap)) flaw
  front : scan (String.ofList (Piece.text ps ++ gap)) =
    .ok (Piece.tokens [] ps ++ [⟨.endOfInput, "", .behind (Piece.text ps ++ gap)⟩])

theorem scan_cases (s : String) :
    (∃ ts ps last, scan s = .ok ts ∧ Tokenized s ts ps last) ∨
      ∃ e ps gap bad flaw, scan s = .error e ∧ Stuck s e ps gap bad flaw := by
  obtain ⟨ps, rest, hs, hps, hrest⟩ := exists_pieces s.toList
  cases hrest with
  | trailing hlast => exact .inl ⟨_, ps, rest, scan_trailing hs hps hlast, hs, hps, hlast, rfl⟩
  | @unreadable gap bad flaw hgap hbad hflaw =>
    have hfront := scan_trailing (s := String.ofList (Piece.text ps ++ gap)) String.toList_ofList
      hps.front (.gap hgap)
    rw [String.toList_ofList] at hfront
    exact .inr ⟨_, ps, gap, bad, flaw, scan_unreadable hs hps hgap hbad hflaw, hs, hps, hgap, hbad,
      hflaw, rfl, hfront⟩

theorem scan_lossless (s : String) :
    (∀ ts, scan s = .ok ts ↔ ∃ ps last, Tokenized s ts ps last) ∧
      ∀ e, scan s = .error e ↔ ∃ ps gap bad flaw, Stuck s e ps gap bad flaw := by
  have hok : ∀ {ts ps last}, Tokenized s ts ps last → scan s = .ok ts := fun h =>
    (scan_trailing h.text h.separate h.trailing).trans (congrArg _ h.tokens.symm)
  have herror : ∀ {e ps gap bad flaw}, Stuck s e ps gap bad flaw → scan s = .error e := fun h =>
    (scan_unreadable h.text h.separate h.isGap h.stops h.unreadable).trans
      (congrArg _ h.error.symm)
  refine ⟨fun ts => ⟨fun hts => ?_, fun ⟨_, _, h⟩ => hok h⟩,
    fun e => ⟨fun he => ?_, fun ⟨_, _, _, _, h⟩ => herror h⟩⟩
  · rcases scan_cases s with ⟨ts', ps, last, hs, h⟩ | ⟨e, _, _, _, _, hs, _⟩
    · obtain rfl := Except.ok.inj (hts.symm.trans hs)
      exact ⟨ps, last, h⟩
    · cases hts.symm.trans hs
  · rcases scan_cases s with ⟨ts, _, _, hs, _⟩ | ⟨e', ps, gap, bad, flaw, hs, h⟩
    · cases he.symm.trans hs
    · obtain rfl := Except.error.inj (he.symm.trans hs)
      exact ⟨ps, gap, bad, flaw, h⟩

example : scan "a # b\n  -7z" = .error (.unreadable ⟨2, 3⟩ (.digitLed "-7")) := by cbv

end Decl

end Flowgraph
