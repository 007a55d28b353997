import Flowgraph.Decl.Scan
import Mathlib

namespace Flowgraph

namespace Text

variable {p : Char → Bool} {cs run rest : List Char}

theorem splitWhile_eq_iff :
    splitWhile p cs = (run, rest) ↔
      run ++ rest = cs ∧ (∀ c ∈ run, p c = true) ∧ ∀ c, rest.head? = some c → p c = false := by
  rw [splitWhile, Prod.mk.injEq]
  constructor
  · rintro ⟨rfl, rfl⟩
    refine ⟨List.takeWhile_append_dropWhile, fun c => List.mem_takeWhile_imp, fun c hc => ?_⟩
    have hstop := List.head?_dropWhile_not p cs
    rwa [hc] at hstop
  · rintro ⟨rfl, hrun, hrest⟩
    rw [List.takeWhile_append_of_pos hrun, List.dropWhile_append_of_pos hrun]
    cases rest with
    | nil => simp
    | cons c r => simp [hrest c rfl]

end Text

namespace Decl

structure IsRun (cs : List Char) : Prop where
  first : ∃ c r, cs = c :: r ∧ isLetter c = true
  every : ∀ c ∈ cs, isWordChar c = true

structure IsIdentifier (s : String) : Prop where
  run : IsRun s.toList
  free : ∀ k : Keyword, k.spelling ≠ s

theorem isRun_iff {cs : List Char} :
    IsRun cs ↔ cs.head?.any isLetter = true ∧ cs.all isWordChar = true := by
  rw [List.all_eq_true]
  refine ⟨?_, fun ⟨hfirst, hevery⟩ => ⟨?_, hevery⟩⟩
  · rintro ⟨⟨c, r, rfl, hc⟩, hevery⟩
    exact ⟨hc, hevery⟩
  · cases cs with
    | nil => cases hfirst
    | cons c r => exact ⟨c, r, rfl, hfirst⟩

instance (cs : List Char) : Decidable (IsRun cs) := decidable_of_iff _ isRun_iff.symm

theorem Keyword.isRun (k : Keyword) : IsRun k.spelling.toList := by cases k <;> decide

theorem Keyword.ofSpelling?_eq_none_iff {s : String} :
    Keyword.ofSpelling? s = none ↔ ∀ k : Keyword, k.spelling ≠ s := by
  rw [Keyword.ofSpelling?, List.find?_eq_none]
  simp only [decide_eq_true_eq]
  exact ⟨fun h k => h k k.mem_all, fun h k _ => h k⟩

instance (s : String) : Decidable (IsIdentifier s) :=
  decidable_of_iff (IsRun s.toList ∧ Keyword.ofSpelling? s = none)
    ⟨fun h => ⟨h.1, Keyword.ofSpelling?_eq_none_iff.1 h.2⟩,
      fun h => ⟨h.run, Keyword.ofSpelling?_eq_none_iff.2 h.free⟩⟩

def IsNumeral (s : String) : Prop :=
  ∃ sign ds, s.toList = sign ++ ds ∧ (sign = [] ∨ sign = ['-']) ∧ ds ≠ [] ∧
    ∀ d ∈ ds, d.isDigit = true

inductive Word where
  | keyword (k : Keyword)
  | openBrace
  | closeBrace
  | arrow
  | identifier (name : String) (reads : IsIdentifier name)
  | number (numeral : String) (reads : IsNumeral numeral)
  | quoted (content : String)

namespace Word

def kind : Word → Kind
  | keyword k => .keyword k
  | openBrace => .openBrace
  | closeBrace => .closeBrace
  | arrow => .arrow
  | identifier _ _ => .identifier
  | number _ _ => .number
  | quoted _ => .text

def text : Word → String
  | keyword k => k.spelling
  | openBrace => "\x7b"
  | closeBrace => "\x7d"
  | arrow => "->"
  | identifier name _ => name
  | number numeral _ => numeral
  | quoted content => content

def RunsOn : Word → Prop
  | keyword _ => True
  | identifier _ _ => True
  | number _ _ => True
  | _ => False

def Apart (w : Word) (rest : List Char) : Prop :=
  w.RunsOn → ∀ c, rest.head? = some c → isWordChar c = false

theorem Apart.front {w : Word} {rest rest' : List Char} (h : w.Apart (rest ++ rest')) :
    w.Apart rest := by
  intro hw c hc
  refine h hw c ?_
  rw [List.head?_append, hc, Option.some_or]

end Word

def escaped? : Char → Option Char
  | '"' => some '"'
  | '\\' => some '\\'
  | 'n' => some '\n'
  | _ => none

inductive Means : List Char → List Char → Prop
  | nil : Means [] []
  | escape {c d : Char} {r t : List Char} : escaped? c = some d → Means r t →
      Means ('\\' :: c :: r) (d :: t)
  | lone {c : Char} {r t : List Char} : escaped? c = none → Means (c :: r) t →
      Means ('\\' :: c :: r) ('\\' :: t)
  | plain {c : Char} {r t : List Char} : c ≠ '"' → c ≠ '\\' → Means r t → Means (c :: r) (c :: t)

inductive Spells : Word → List Char → Prop
  | plain {w : Word} : w.kind ≠ .text → Spells w w.text.toList
  | quoted {content : String} {body : List Char} : Means body content.toList →
      Spells (.quoted content) ('"' :: (body ++ ['"']))

def Readable (cs : List Char) : Prop :=
  ∃ (w : Word) (raw rest : List Char), Spells w raw ∧ w.Apart rest ∧ raw ++ rest = cs

inductive Unreadable : List Char → Flaw → Prop
  | strange {c : Char} {r : List Char} : c ∉ ['\x7b', '\x7d', '"'] → c.isDigit = false →
      isLetter c = false →
      (c = '-' → ∀ d, r.head? = some d → d ≠ '>' ∧ d.isDigit = false) →
      Unreadable (c :: r) (.strangeChar c)
  | openText {r : List Char} :
      (∀ body content after, Means body content → r ≠ body ++ '"' :: after) →
      Unreadable ('"' :: r) .openText
  | digitLed {numeral : String} {c : Char} {r : List Char} : IsNumeral numeral →
      isLetter c = true → Unreadable (numeral.toList ++ c :: r) (.digitLed numeral)

section Characters

variable {c : Char}

theorem isWordChar_eq (c : Char) : isWordChar c = (isLetter c || c.isDigit) := by
  simp only [isWordChar, isLetter, Char.isAlphanum]
  cases c.isAlpha <;> cases c.isDigit <;> cases decide (c = '_') <;> rfl

theorem isWordChar_of_isLetter (h : isLetter c = true) : isWordChar c = true := by
  rw [isWordChar_eq, h, Bool.true_or]

theorem isWordChar_of_isDigit (h : c.isDigit = true) : isWordChar c = true := by
  rw [isWordChar_eq, h, Bool.or_true]

theorem ne_of_isWordChar (h : isWordChar c = true) {d : Char} (hd : isWordChar d = false) :
    c ≠ d := by
  rintro rfl
  rw [h] at hd
  cases hd

theorem isDigit_of_isLetter (h : isLetter c = true) : c.isDigit = false := by
  rw [← Bool.not_eq_true]
  intro hd
  simp only [isLetter, Char.isAlpha, Char.isUpper, Char.isLower, Char.isDigit, Bool.or_eq_true,
    Bool.and_eq_true, decide_eq_true_eq, UInt32.le_iff_toNat_le, ge_iff_le] at h hd
  have hvalues : 'A'.val.toNat = 65 ∧ 'a'.val.toNat = 97 ∧ '9'.val.toNat = 57 := ⟨rfl, rfl, rfl⟩
  rcases h with (h | h) | rfl
  · omega
  · omega
  · exact absurd hd (by decide)

theorem isBlank_of_isWordChar (h : isWordChar c = true) : Text.isBlank c = false := by
  have hrange : 48 ≤ c.toNat ∧ c.toNat ≤ 57 ∨ 65 ≤ c.toNat ∧ c.toNat ≤ 90 ∨ c.toNat = 95 ∨
      97 ≤ c.toNat ∧ c.toNat ≤ 122 := by
    simp only [isWordChar, Char.isAlphanum, Char.isAlpha, Char.isUpper, Char.isLower, Char.isDigit,
      Bool.or_eq_true, Bool.and_eq_true, decide_eq_true_eq, UInt32.le_iff_toNat_le, ge_iff_le] at h
    rcases h with ((h | h) | h) | rfl
    · exact .inr (.inl h)
    · exact .inr (.inr (.inr h))
    · exact .inl h
    · exact .inr (.inr (.inl rfl))
  simp only [Text.isBlank, Bool.or_eq_false_iff, Bool.and_eq_false_iff, decide_eq_false_iff_not,
    beq_eq_false_iff_ne]
  omega

end Characters

section Quoted

variable {cs body content rest : List Char}

theorem escaped?_eq_none {c : Char} (hq : c ≠ '"') (hb : c ≠ '\\') (hn : c ≠ 'n') :
    escaped? c = none := by
  rw [escaped?.eq_def]
  split
  · exact absurd rfl hq
  · exact absurd rfl hb
  · exact absurd rfl hn
  · rfl

theorem splitText_of_means (h : Means body content) (rest : List Char) :
    splitText (body ++ '"' :: rest) = some (body, content, rest) := by
  induction h with
  | nil => cases rest <;> rfl
  | @escape c d r t hc _ ih =>
    rw [escaped?.eq_def] at hc
    split at hc <;> cases hc <;> simp [splitText, ih]
  | @lone c r t hc _ ih =>
    have hq : c ≠ '"' := by rintro rfl; cases hc
    have hb : c ≠ '\\' := by rintro rfl; cases hc
    have hn : c ≠ 'n' := by rintro rfl; cases hc
    rw [List.cons_append] at ih
    simp [splitText, hq, hb, hn, ih]
  | @plain c r t hq hb _ ih =>
    obtain ⟨d, s, hs⟩ : ∃ d s, r ++ '"' :: rest = d :: s := by cases r <;> simp
    rw [hs] at ih
    simp [splitText, hq, hb, hs, ih]

theorem means_of_splitText (h : splitText cs = some (body, content, rest)) :
    Means body content := by
  fun_induction splitText cs generalizing body content rest with
  | case1 => cases h
  | case2 =>
    cases h
    exact .nil
  | case3 => cases h
  | case4 =>
    cases h
    exact .nil
  | case5 c d r hq hc ih =>
    obtain ⟨⟨b, t, e⟩, hr, hx⟩ := Option.map_eq_some_iff.1 h
    cases hx
    simp only [Bool.and_eq_true, Bool.or_eq_true, decide_eq_true_eq] at hc
    obtain ⟨rfl, rfl | rfl⟩ := hc
    · exact .escape rfl (ih hr)
    · exact .escape rfl (ih hr)
  | case6 c d r hq hc hn ih =>
    obtain ⟨⟨b, t, e⟩, hr, hx⟩ := Option.map_eq_some_iff.1 h
    cases hx
    simp only [Bool.and_eq_true, decide_eq_true_eq] at hn
    obtain ⟨rfl, rfl⟩ := hn
    exact .escape rfl (ih hr)
  | case7 c d r hq hc hn ih =>
    obtain ⟨⟨b, t, e⟩, hr, hx⟩ := Option.map_eq_some_iff.1 h
    cases hx
    by_cases hback : c = '\\'
    · subst hback
      simp only [decide_true, Bool.true_and, Bool.or_eq_true, decide_eq_true_eq, not_or] at hc hn
      have hnone : escaped? d = none := escaped?_eq_none hc.1 hc.2 hn
      have happend := splitText_append hr
      cases b with
      | nil => exact absurd (List.cons.inj happend).1.symm hc.1
      | cons d' b =>
        obtain rfl := (List.cons.inj happend).1
        exact .lone hnone (ih hr)
    · exact .plain hq hback (ih hr)

theorem splitText_eq_some_iff :
    splitText cs = some (body, content, rest) ↔ Means body content ∧ cs = body ++ '"' :: rest := by
  constructor
  · intro h
    exact ⟨means_of_splitText h, (splitText_append h).symm⟩
  · rintro ⟨h, rfl⟩
    exact splitText_of_means h rest

theorem splitText_eq_none_iff :
    splitText cs = none ↔ ∀ body content rest, Means body content → cs ≠ body ++ '"' :: rest := by
  rw [Option.eq_none_iff_forall_ne_some]
  simp only [Prod.forall, ne_eq, splitText_eq_some_iff, not_and]

end Quoted

section Lexemes

variable {w : Word} {c : Char} {r raw rest : List Char} {f : Flaw}

theorem splitLexeme_letter (h : isLetter c = true) (r : List Char) :
    splitLexeme c r = .ok (wordLexeme (c :: r)) := by
  have hne : ∀ {d : Char}, isWordChar d = false → c ≠ d :=
    ne_of_isWordChar (isWordChar_of_isLetter h)
  rw [splitLexeme.eq_def, if_neg (hne (by decide)), if_neg (hne (by decide)),
    if_neg (hne (by decide)), if_neg (hne (by decide)), isDigit_of_isLetter h,
    if_neg Bool.false_ne_true, if_pos h]

theorem splitLexeme_digit (h : c.isDigit = true) (r : List Char) :
    splitLexeme c r = numberLexeme [] (c :: r) := by
  have hne : ∀ {d : Char}, isWordChar d = false → c ≠ d :=
    ne_of_isWordChar (isWordChar_of_isDigit h)
  rw [splitLexeme.eq_def, if_neg (hne (by decide)), if_neg (hne (by decide)),
    if_neg (hne (by decide)), if_neg (hne (by decide)), if_pos h]

theorem splitLexeme_minus (h : c.isDigit = true) (r : List Char) :
    splitLexeme '-' (c :: r) = numberLexeme ['-'] (c :: r) := by
  have hne : c ≠ '>' := ne_of_isWordChar (isWordChar_of_isDigit h) (by decide)
  simp [splitLexeme, hne, h]

theorem splitLexeme_run (hraw : IsRun raw)
    (hrest : ∀ d, rest.head? = some d → isWordChar d = false) (h : raw ++ rest = c :: r) :
    splitLexeme c r =
      .ok (⟨((Keyword.ofSpelling? (String.ofList raw)).map .keyword).getD .identifier,
        String.ofList raw, raw⟩, rest) := by
  obtain ⟨⟨d, s, rfl, hd⟩, hevery⟩ := hraw
  have hsplit : Text.splitWhile isWordChar (c :: r) = (d :: s, rest) :=
    Text.splitWhile_eq_iff.2 ⟨h, hevery, hrest⟩
  obtain rfl : d = c := (List.cons.inj h).1
  rw [splitLexeme_letter hd, wordLexeme, hsplit]
  dsimp only
  cases Keyword.ofSpelling? (String.ofList (d :: s)) <;> rfl

theorem splitLexeme_number {sign ds : List Char} (hsign : sign = [] ∨ sign = ['-']) (hne : ds ≠ [])
    (hds : ∀ d ∈ ds, d.isDigit = true) (h : sign ++ ds ++ rest = c :: r) :
    splitLexeme c r = numberLexeme sign (ds ++ rest) := by
  obtain ⟨d, s, rfl⟩ := List.exists_cons_of_ne_nil hne
  have hd := hds d List.mem_cons_self
  rcases hsign with rfl | rfl
  · obtain ⟨rfl, rfl⟩ := List.cons.inj h
    exact splitLexeme_digit hd _
  · obtain ⟨rfl, rfl⟩ := List.cons.inj h
    exact splitLexeme_minus hd _

theorem numberLexeme_eq {sign ds : List Char} (hds : ∀ d ∈ ds, d.isDigit = true)
    (hrest : ∀ d, rest.head? = some d → d.isDigit = false) :
    numberLexeme sign (ds ++ rest) =
      if rest.head?.any isLetter then .error (.digitLed (String.ofList (sign ++ ds)))
      else .ok (⟨.number, String.ofList (sign ++ ds), sign ++ ds⟩, rest) := by
  have hsplit : Text.splitWhile Char.isDigit (ds ++ rest) = (ds, rest) :=
    Text.splitWhile_eq_iff.2 ⟨rfl, hds, hrest⟩
  rw [numberLexeme, hsplit]

theorem splitLexeme_spells (hw : Spells w raw) (hrest : w.Apart rest) (h : raw ++ rest = c :: r) :
    splitLexeme c r = .ok (⟨w.kind, w.text, raw⟩, rest) := by
  cases hw with
  | plain hk =>
    cases w with
    | keyword k =>
      rw [splitLexeme_run k.isRun (hrest trivial) h]
      simp [Word.text, Word.kind, String.ofList_toList, Keyword.ofSpelling?_spelling]
    | openBrace =>
      obtain ⟨rfl, rfl⟩ := List.cons.inj h
      rfl
    | closeBrace =>
      obtain ⟨rfl, rfl⟩ := List.cons.inj h
      rfl
    | arrow =>
      obtain ⟨rfl, rfl⟩ := List.cons.inj h
      rfl
    | identifier name hname =>
      rw [splitLexeme_run hname.run (hrest trivial) h]
      simp [Word.text, Word.kind, String.ofList_toList,
        Keyword.ofSpelling?_eq_none_iff.2 hname.free]
    | number numeral hnumeral =>
      obtain ⟨sign, ds, hn, hsign, hne, hds⟩ := hnumeral
      have hend : ∀ d, rest.head? = some d → isLetter d = false ∧ d.isDigit = false := by
        intro d hd
        have hword := hrest trivial d hd
        rwa [isWordChar_eq, Bool.or_eq_false_iff] at hword
      have hletter : ¬rest.head?.any isLetter = true := by
        rw [Bool.not_eq_true]
        cases rest with
        | nil => rfl
        | cons d s => exact (hend d rfl).1
      change numeral.toList ++ rest = c :: r at h
      rw [hn] at h
      rw [splitLexeme_number hsign hne hds h, numberLexeme_eq hds fun d hd => (hend d hd).2,
        if_neg hletter]
      simp [Word.text, Word.kind, ← hn, String.ofList_toList]
    | quoted content => exact absurd rfl hk
  | @quoted content body hbody =>
    obtain ⟨rfl, rfl⟩ := List.cons.inj h
    have hsplit : splitText (body ++ ['"'] ++ rest) = some (body, content.toList, rest) := by
      rw [List.append_assoc]
      exact splitText_of_means hbody rest
    change textLexeme (body ++ ['"'] ++ rest) = _
    rw [textLexeme, hsplit]
    simp [Word.text, Word.kind, String.ofList_toList]

theorem Spells.front (h : Spells w raw) :
    ∃ c r, raw = c :: r ∧ (c ∈ ['\x7b', '\x7d', '-', '"'] ∨ isWordChar c = true) := by
  cases h with
  | plain hk =>
    cases w with
    | keyword k =>
      obtain ⟨c, r, hr, hc⟩ := k.isRun.first
      exact ⟨c, r, hr, .inr (isWordChar_of_isLetter hc)⟩
    | openBrace => exact ⟨'\x7b', [], rfl, .inl (by decide)⟩
    | closeBrace => exact ⟨'\x7d', [], rfl, .inl (by decide)⟩
    | arrow => exact ⟨'-', ['>'], rfl, .inl (by decide)⟩
    | identifier name hname =>
      obtain ⟨c, r, hr, hc⟩ := hname.run.first
      exact ⟨c, r, hr, .inr (isWordChar_of_isLetter hc)⟩
    | number numeral hnumeral =>
      obtain ⟨sign, ds, hn, rfl | rfl, hne, hds⟩ := hnumeral
      · obtain ⟨d, s, rfl⟩ := List.exists_cons_of_ne_nil hne
        exact ⟨d, s, hn, .inr (isWordChar_of_isDigit (hds d List.mem_cons_self))⟩
      · exact ⟨'-', ds, hn, .inl (by decide)⟩
    | quoted content => exact absurd rfl hk
  | quoted => exact ⟨'"', _, rfl, .inl (by decide)⟩

theorem splitLexeme_unreadable (h : Unreadable (c :: r) f) : splitLexeme c r = .error f := by
  generalize hcs : c :: r = cs at h
  cases h with
  | @strange c' r' hmarks hdigit hletter hminus =>
    obtain ⟨rfl, rfl⟩ := List.cons.inj hcs
    simp only [List.mem_cons, not_or, List.not_mem_nil, not_false_eq_true, and_true] at hmarks
    obtain ⟨hopen, hclose, hquote⟩ := hmarks
    rw [splitLexeme.eq_def, if_neg hopen, if_neg hclose]
    split
    case isTrue hc =>
      cases r with
      | nil => rfl
      | cons d s =>
        obtain ⟨hd, hdd⟩ := hminus hc d rfl
        simp [hd, hdd]
    case isFalse => simp [hdigit, hletter]
  | openText hr =>
    obtain ⟨rfl, rfl⟩ := List.cons.inj hcs
    change textLexeme r = _
    rw [textLexeme, splitText_eq_none_iff.2 hr]
  | @digitLed numeral d s hnumeral hd =>
    obtain ⟨sign, ds, hn, hsign, hne, hds⟩ := hnumeral
    have hrest : ∀ e, (d :: s).head? = some e → e.isDigit = false := by
      rintro e he
      cases he
      exact isDigit_of_isLetter hd
    rw [hn] at hcs
    rw [splitLexeme_number hsign hne hds hcs.symm, numberLexeme_eq hds hrest, ← hn,
      String.ofList_toList]
    exact if_pos hd

theorem readable_or_digitLed {sign : List Char} (hsign : sign = [] ∨ sign = ['-'])
    (hc : c.isDigit = true) (r : List Char) :
    Readable (sign ++ c :: r) ∨ ∃ f, Unreadable (sign ++ c :: r) f := by
  obtain ⟨ds, rest, hsplit⟩ : ∃ ds rest, Text.splitWhile Char.isDigit (c :: r) = (ds, rest) :=
    ⟨_, _, rfl⟩
  obtain ⟨happend, hds, hrest⟩ := Text.splitWhile_eq_iff.1 hsplit
  have hne : ds ≠ [] := by
    rintro rfl
    obtain rfl : rest = c :: r := happend
    exact Bool.noConfusion (hc.symm.trans (hrest c rfl))
  have hnumeral : IsNumeral (String.ofList (sign ++ ds)) :=
    ⟨sign, ds, String.toList_ofList, hsign, hne, hds⟩
  by_cases hletter : ∃ d s, rest = d :: s ∧ isLetter d = true
  · obtain ⟨d, s, rfl, hd⟩ := hletter
    have hcut : Unreadable ((String.ofList (sign ++ ds)).toList ++ d :: s) _ :=
      .digitLed hnumeral hd
    rw [String.toList_ofList, List.append_assoc, happend] at hcut
    exact .inr ⟨_, hcut⟩
  · refine .inl ⟨.number _ hnumeral, sign ++ ds, rest, ?_, fun _ d hd => ?_, ?_⟩
    · have hspells : Spells (.number _ hnumeral) (String.ofList (sign ++ ds)).toList :=
        .plain Kind.noConfusion
      rwa [String.toList_ofList] at hspells
    · rw [isWordChar_eq, hrest d hd, Bool.or_false, ← Bool.not_eq_true]
      intro hl
      obtain ⟨s, rfl⟩ := List.head?_eq_some_iff.1 hd
      exact hletter ⟨d, s, rfl, hl⟩
    · rw [List.append_assoc, happend]

theorem readable_run (hc : isLetter c = true) (r : List Char) : Readable (c :: r) := by
  obtain ⟨raw, rest, hsplit⟩ : ∃ raw rest, Text.splitWhile isWordChar (c :: r) = (raw, rest) :=
    ⟨_, _, rfl⟩
  obtain ⟨happend, hevery, hrest⟩ := Text.splitWhile_eq_iff.1 hsplit
  have hfirst : ∃ s, raw = c :: s := by
    cases raw with
    | nil =>
      obtain rfl : rest = c :: r := happend
      exact Bool.noConfusion ((isWordChar_of_isLetter hc).symm.trans (hrest c rfl))
    | cons d s => exact ⟨s, by rw [(List.cons.inj happend).1]⟩
  obtain ⟨s, rfl⟩ := hfirst
  have htext : (String.ofList (c :: s)).toList = c :: s := String.toList_ofList
  cases hk : Keyword.ofSpelling? (String.ofList (c :: s)) with
  | some k =>
    have hfind :
        Keyword.all.find? (fun k => decide (k.spelling = String.ofList (c :: s))) = some k := hk
    have hspelling : k.spelling = String.ofList (c :: s) := by simpa using List.find?_some hfind
    have hspells : Spells (.keyword k) k.spelling.toList := .plain Kind.noConfusion
    rw [hspelling, htext] at hspells
    exact ⟨_, _, rest, hspells, fun _ => hrest, happend⟩
  | none =>
    have hname : IsIdentifier (String.ofList (c :: s)) :=
      ⟨by rw [htext]; exact ⟨⟨c, s, rfl, hc⟩, hevery⟩, Keyword.ofSpelling?_eq_none_iff.1 hk⟩
    have hspells : Spells (.identifier _ hname) (String.ofList (c :: s)).toList :=
      .plain Kind.noConfusion
    rw [htext] at hspells
    exact ⟨_, _, rest, hspells, fun _ => hrest, happend⟩

theorem readable_quoted_or_open (r : List Char) :
    Readable ('"' :: r) ∨ ∃ f, Unreadable ('"' :: r) f := by
  cases hr : splitText r with
  | none => exact .inr ⟨_, .openText (splitText_eq_none_iff.1 hr)⟩
  | some x =>
    obtain ⟨body, content, rest⟩ := x
    obtain ⟨hbody, rfl⟩ := splitText_eq_some_iff.1 hr
    rw [← String.toList_ofList (l := content)] at hbody
    exact .inl ⟨_, _, rest, .quoted hbody, False.elim, by simp⟩

theorem readable_of_sign {w : Word} (hk : w.kind ≠ .text) (hw : ¬w.RunsOn) (rest : List Char) :
    Readable (w.text.toList ++ rest) :=
  ⟨w, _, rest, .plain hk, fun h => absurd h hw, rfl⟩

theorem readable_or_unreadable (c : Char) (r : List Char) :
    Readable (c :: r) ∨ ∃ f, Unreadable (c :: r) f := by
  by_cases hopen : c = '\x7b'
  · subst hopen
    exact .inl (readable_of_sign (w := .openBrace) Kind.noConfusion id r)
  by_cases hclose : c = '\x7d'
  · subst hclose
    exact .inl (readable_of_sign (w := .closeBrace) Kind.noConfusion id r)
  by_cases hquote : c = '"'
  · subst hquote
    exact readable_quoted_or_open r
  by_cases hdigit : c.isDigit = true
  · exact readable_or_digitLed (.inl rfl) hdigit r
  by_cases hletter : isLetter c = true
  · exact .inl (readable_run hletter r)
  have hstrange : (c = '-' → ∀ d, r.head? = some d → d ≠ '>' ∧ d.isDigit = false) →
      Readable (c :: r) ∨ ∃ f, Unreadable (c :: r) f := fun h => by
    have hmarks : c ∉ ['\x7b', '\x7d', '"'] := by simp [hopen, hclose, hquote]
    exact .inr ⟨_, .strange hmarks (Bool.not_eq_true _ ▸ hdigit) (Bool.not_eq_true _ ▸ hletter) h⟩
  by_cases hminus : c = '-'
  · subst hminus
    cases r with
    | nil => exact hstrange fun _ _ hd => (by cases hd)
    | cons d s =>
      by_cases harrow : d = '>'
      · subst harrow
        exact .inl (readable_of_sign (w := .arrow) Kind.noConfusion id s)
      by_cases hd : d.isDigit = true
      · exact readable_or_digitLed (.inr rfl) hd s
      · refine hstrange fun _ e he => ?_
        cases he
        exact ⟨harrow, (Bool.not_eq_true _).mp hd⟩
  · exact hstrange fun h => absurd h hminus

end Lexemes

end Decl

end Flowgraph
