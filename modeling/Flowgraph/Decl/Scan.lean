import Flowgraph.Decl.Error
import Flowgraph.Text.Blank

namespace Flowgraph.Decl

def isLetter (c : Char) : Bool := c.isAlpha || c = '_'

def isWordChar (c : Char) : Bool := c.isAlphanum || c = '_'

def splitTrivia : (inside : Bool) → List Char → List Char × List Char
  | _, [] => ([], [])
  | true, c :: r =>
      let (t, rest) := splitTrivia (c != '\n') r
      (c :: t, rest)
  | false, c :: r =>
      if Text.isBlank c then
        let (t, rest) := splitTrivia false r
        (c :: t, rest)
      else if c = '#' || (c = '/' && r.head? = some '/') then
        let (t, rest) := splitTrivia true r
        (c :: t, rest)
      else ([], c :: r)

theorem splitTrivia_append (inside : Bool) (cs : List Char) :
    (splitTrivia inside cs).1 ++ (splitTrivia inside cs).2 = cs := by
  induction cs generalizing inside with
  | nil => cases inside <;> rfl
  | cons c r ih =>
      cases inside with
      | true => simp [splitTrivia, ih]
      | false =>
          simp only [splitTrivia]
          split
          · simp [ih]
          · split
            · simp [ih]
            · rfl

structure Lexeme where
  kind : Kind
  text : String
  raw : List Char
deriving DecidableEq, Repr

def splitText : List Char → Option (List Char × List Char × List Char)
  | [] => none
  | [c] => if c = '"' then some ([], [], []) else none
  | c :: d :: r =>
      if c = '"' then some ([], [], d :: r)
      else if c = '\\' && (d = '"' || d = '\\') then
        (splitText r).map fun (raw, text, rest) => (c :: d :: raw, d :: text, rest)
      else if c = '\\' && d = 'n' then
        (splitText r).map fun (raw, text, rest) => (c :: d :: raw, '\n' :: text, rest)
      else (splitText (d :: r)).map fun (raw, text, rest) => (c :: raw, c :: text, rest)

def numberLexeme (sign : List Char) (cs : List Char) : Except Flaw (Lexeme × List Char) :=
  let (ds, rest) := Text.splitWhile Char.isDigit cs
  let raw := sign ++ ds
  if rest.head?.any isLetter then .error (.digitLed (String.ofList raw))
  else .ok (⟨.number, String.ofList raw, raw⟩, rest)

def wordLexeme (cs : List Char) : Lexeme × List Char :=
  let (raw, rest) := Text.splitWhile isWordChar cs
  let text := String.ofList raw
  match Keyword.ofSpelling? text with
  | some k => (⟨.keyword k, text, raw⟩, rest)
  | none => (⟨.identifier, text, raw⟩, rest)

def textLexeme (cs : List Char) : Except Flaw (Lexeme × List Char) :=
  match splitText cs with
  | some (raw, text, rest) => .ok (⟨.text, String.ofList text, '"' :: (raw ++ ['"'])⟩, rest)
  | none => .error .openText

def splitLexeme (c : Char) (r : List Char) : Except Flaw (Lexeme × List Char) :=
  if c = '\x7b' then .ok (⟨.openBrace, "\x7b", [c]⟩, r)
  else if c = '\x7d' then .ok (⟨.closeBrace, "\x7d", [c]⟩, r)
  else if c = '-' then
    match r with
    | d :: r' =>
        if d = '>' then .ok (⟨.arrow, "->", [c, d]⟩, r')
        else if d.isDigit then numberLexeme [c] (d :: r')
        else .error (.strangeChar c)
    | [] => .error (.strangeChar c)
  else if c = '"' then textLexeme r
  else if c.isDigit then numberLexeme [] (c :: r)
  else if isLetter c then .ok (wordLexeme (c :: r))
  else .error (.strangeChar c)

theorem splitText_append {cs raw text rest : List Char}
    (h : splitText cs = some (raw, text, rest)) : raw ++ '"' :: rest = cs := by
  fun_induction splitText cs generalizing raw text rest with
  | case1 => simp at h
  | case2 => simp_all
  | case3 => simp at h
  | case4 => simp_all
  | case5 c d r _ _ ih =>
      simp only [Option.map_eq_some_iff] at h
      obtain ⟨⟨a, b, e⟩, h, hx⟩ := h
      simp only [Prod.mk.injEq] at hx
      obtain ⟨rfl, rfl, rfl⟩ := hx
      simp [ih h]
  | case6 c d r _ _ _ ih =>
      simp only [Option.map_eq_some_iff] at h
      obtain ⟨⟨a, b, e⟩, h, hx⟩ := h
      simp only [Prod.mk.injEq] at hx
      obtain ⟨rfl, rfl, rfl⟩ := hx
      simp [ih h]
  | case7 c d r _ _ _ ih =>
      simp only [Option.map_eq_some_iff] at h
      obtain ⟨⟨a, b, e⟩, h, hx⟩ := h
      simp only [Prod.mk.injEq] at hx
      obtain ⟨rfl, rfl, rfl⟩ := hx
      simp [ih h]

theorem numberLexeme_append {sign cs : List Char} {x : Lexeme} {rest : List Char}
    (h : numberLexeme sign cs = .ok (x, rest)) : x.raw ++ rest = sign ++ cs := by
  simp only [numberLexeme] at h
  split at h
  · simp at h
  · simp only [Except.ok.injEq, Prod.mk.injEq] at h
    obtain ⟨rfl, rfl⟩ := h
    simp [Text.splitWhile_append]

theorem wordLexeme_append (cs : List Char) : (wordLexeme cs).1.raw ++ (wordLexeme cs).2 = cs := by
  simp only [wordLexeme]
  split <;> simp [Text.splitWhile_append]

theorem splitLexeme_append {c : Char} {r rest : List Char} {x : Lexeme}
    (h : splitLexeme c r = .ok (x, rest)) : x.raw ++ rest = c :: r := by
  simp only [splitLexeme] at h
  split at h
  · simp only [Except.ok.injEq, Prod.mk.injEq] at h
    obtain ⟨rfl, rfl⟩ := h
    simp
  split at h
  · simp only [Except.ok.injEq, Prod.mk.injEq] at h
    obtain ⟨rfl, rfl⟩ := h
    simp
  split at h
  · split at h
    · split at h
      · simp only [Except.ok.injEq, Prod.mk.injEq] at h
        obtain ⟨rfl, rfl⟩ := h
        simp
      · split at h
        · simpa using numberLexeme_append h
        · simp at h
    · simp at h
  split at h
  case isTrue hq =>
    simp only [textLexeme] at h
    split at h
    case h_1 raw text rest' ht =>
      simp only [Except.ok.injEq, Prod.mk.injEq] at h
      obtain ⟨rfl, rfl⟩ := h
      simp [hq, splitText_append ht]
    case h_2 => simp at h
  split at h
  · simpa using numberLexeme_append h
  split at h
  · simp only [Except.ok.injEq] at h
    have := wordLexeme_append (c :: r)
    rw [h] at this
    exact this
  · simp at h

theorem splitLexeme_raw_ne_nil {c : Char} {r rest : List Char} {x : Lexeme}
    (h : splitLexeme c r = .ok (x, rest)) : x.raw ≠ [] := by
  simp only [splitLexeme] at h
  split at h
  · simp only [Except.ok.injEq, Prod.mk.injEq] at h
    simp [← h.1]
  split at h
  · simp only [Except.ok.injEq, Prod.mk.injEq] at h
    simp [← h.1]
  split at h
  · split at h
    · split at h
      · simp only [Except.ok.injEq, Prod.mk.injEq] at h
        simp [← h.1]
      · split at h
        · simp only [numberLexeme] at h
          split at h
          · simp at h
          · simp only [Except.ok.injEq, Prod.mk.injEq] at h
            simp [← h.1]
        · simp at h
    · simp at h
  split at h
  · simp only [textLexeme] at h
    split at h
    · simp only [Except.ok.injEq, Prod.mk.injEq] at h
      simp [← h.1]
    · simp at h
  split at h
  case isTrue hd =>
    simp only [numberLexeme] at h
    split at h
    · simp at h
    · simp only [Except.ok.injEq, Prod.mk.injEq] at h
      simp [← h.1, Text.splitWhile, hd]
  split at h
  case isTrue hl =>
    have hw : isWordChar c = true := by
      simp only [isLetter, isWordChar, Char.isAlphanum, Bool.or_eq_true] at hl ⊢
      rcases hl with hl | hl <;> simp [hl]
    simp only [wordLexeme, Except.ok.injEq] at h
    split at h <;>
      · simp only [Prod.mk.injEq] at h
        simp [← h.1, Text.splitWhile, hw]
  case isFalse => simp at h

def scanFrom (p : Place) (cs : List Char) : Except DeclError (List Token) :=
  let here := p.after (splitTrivia false cs).1
  match _hs : (splitTrivia false cs).2 with
  | [] => .ok [⟨.endOfInput, "", here⟩]
  | c :: r =>
      match _hx : splitLexeme c r with
      | .error f => .error (.unreadable here f)
      | .ok (x, rest) => do
          let later ← scanFrom (here.after x.raw) rest
          .ok (⟨x.kind, x.text, here⟩ :: later)
termination_by cs.length
decreasing_by
  have h₁ := congrArg List.length (splitTrivia_append false cs)
  have h₂ := congrArg List.length (splitLexeme_append _hx)
  have h₃ := List.length_pos_iff.2 (splitLexeme_raw_ne_nil _hx)
  simp only [_hs, List.length_append, List.length_cons] at h₁ h₂
  omega

def scan (s : String) : Except DeclError (List Token) := scanFrom {} s.toList

end Flowgraph.Decl
