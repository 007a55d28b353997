import Flowgraph.Decl.Basic
import Flowgraph.Decl.Scan
import Flowgraph.Number.Decimal
import Flowgraph.Number.Range

namespace Flowgraph

namespace Decl

def Token.refused (t : Token) (k : Kind) : DeclError :=
  if t.kind = .endOfInput then .cutShort k else .unexpected k t.text t.place.line

def expect (k : Kind) : List Token → Except DeclError (Token × List Token)
  | [] => .error (.cutShort k)
  | t :: r => if t.kind = k then .ok (t, r) else .error (t.refused k)

def readNumber (text : String) : Except DeclError Int :=
  let n : Int :=
    match text.toList with
    | '-' :: ds => -(natOfDigits ds : Int)
    | ds => natOfDigits ds
  if IntRange.signed64.has n then .ok n else .error (.misfit "number" (.notNumber text))

structure Attribute (α : Type) where
  keyword : Keyword
  kind : Kind
  set : α → String → Except DeclError α

namespace Attribute

variable {α : Type}

def plain (keyword : Keyword) (kind : Kind) (set : α → String → α) : Attribute α :=
  ⟨keyword, kind, fun x v => .ok (set x v)⟩

def number (keyword : Keyword) (set : α → Int → α) : Attribute α :=
  ⟨keyword, .number, fun x v => (readNumber v).map (set x)⟩

def find? (table : List (Attribute α)) (k : Kind) : Option (Attribute α) :=
  table.find? fun a => k = .keyword a.keyword

end Attribute

def headerAttributes : List (Attribute Declaration) := [
  .plain .id .identifier fun d v => { d with id := some v },
  .plain .model .text fun d v => { d with model := some v },
  .plain .description .text fun d v => { d with description := some v },
  .number .maxCounter fun d n => { d with maxCounter := some n },
  .number .sequence fun d n => { d with sequence := some n },
  .plain .condition .text fun d v => { d with condition := some v }]

def nodeAttributes : List (Attribute NodeDecl) := [
  .plain .name .text fun n v => { n with name := some v },
  .plain .description .text fun n v => { n with description := some v },
  .plain .join .identifier fun n v => { n with join := some v },
  .plain .split .identifier fun n v => { n with split := some v },
  .plain .action .text fun n v => { n with action := some v }]

def transitionAttributes : List (Attribute TransitionDecl) := [
  .number .sequence fun t n => { t with sequence := some n },
  .plain .when .text fun t v => { t with guard := some v },
  .plain .name .text fun t v => { t with name := some v },
  .plain .as .identifier fun t v => { t with id := some v }]

def readAttributes {α : Type} (table : List (Attribute α)) (x : α) :
    List Token → Except DeclError (α × List Token)
  | [] => .ok (x, [])
  | t :: r =>
      match Attribute.find? table t.kind with
      | none => .ok (x, t :: r)
      | some a =>
          match r with
          | [] => .error (.cutShort a.kind)
          | v :: r =>
              if v.kind = a.kind then
                match a.set x v.text with
                | .error e => .error e
                | .ok x => readAttributes table x r
              else .error (v.refused a.kind)

def readNodeBody (n : NodeDecl) (ts : List Token) : Except DeclError (NodeDecl × List Token) := do
  let (n, ts) ← readAttributes nodeAttributes n ts
  match ts with
  | [] => .error (.cutShort .closeBrace)
  | t :: r =>
      if t.kind = .closeBrace then .ok (n, r)
      else if t.kind = .endOfInput then .error (.cutShort .closeBrace)
      else .error (.unreadable t.place (.strangeInNode t.text))

def readInlineName (n : NodeDecl) : List Token → NodeDecl × List Token
  | [] => (n, [])
  | t :: r => if t.kind = .text then ({ n with name := some t.text }, r) else (n, t :: r)

def readBraces (n : NodeDecl) : List Token → Except DeclError (NodeDecl × List Token)
  | [] => .ok (n, [])
  | t :: r => if t.kind = .openBrace then readNodeBody n r else .ok (n, t :: r)

def readNode (line : Nat) (ts : List Token) : Except DeclError (NodeDecl × List Token) := do
  let (id, ts) ← expect .identifier ts
  let (_, ts) ← expect (.keyword .type) ts
  let (kind, ts) ← expect .identifier ts
  let (n, ts) := readInlineName { id := id.text, kind := kind.text, line } ts
  readBraces n ts

def readTransition (ts : List Token) : Except DeclError (TransitionDecl × List Token) := do
  let (source, ts) ← expect .identifier ts
  let (_, ts) ← expect .arrow ts
  let (target, ts) ← expect .identifier ts
  readAttributes transitionAttributes
    { source := source.text, target := target.text, line := source.place.line } ts

theorem expect_length {k : Kind} {t : Token} {ts rest : List Token}
    (h : expect k ts = .ok (t, rest)) : rest.length < ts.length := by
  cases ts with
  | nil => simp [expect] at h
  | cons x xs =>
      simp only [expect] at h
      split at h
      · simp only [Except.ok.injEq, Prod.mk.injEq] at h
        simp [h.2]
      · simp at h

theorem readAttributes_length {α : Type} {table : List (Attribute α)} {x y : α}
    {ts rest : List Token} (h : readAttributes table x ts = .ok (y, rest)) :
    rest.length ≤ ts.length := by
  fun_induction readAttributes table x ts with
  | case1 => simp_all
  | case2 x t r _ => simp_all
  | case3 => simp at h
  | case4 => simp at h
  | case5 x t a _ v r _ x' _ ih =>
      have := ih h
      simp only [List.length_cons]
      omega
  | case6 => simp at h

theorem readNodeBody_length {n m : NodeDecl} {ts rest : List Token}
    (h : readNodeBody n ts = .ok (m, rest)) : rest.length < ts.length := by
  simp only [readNodeBody, bind, Except.bind] at h
  split at h
  · simp at h
  case h_2 v hv =>
    have hl := readAttributes_length hv
    split at h
    · simp at h
    case h_2 t r hr =>
      rw [hr] at hl
      split at h
      · simp only [Except.ok.injEq, Prod.mk.injEq] at h
        obtain ⟨-, rfl⟩ := h
        simp only [List.length_cons] at hl
        omega
      · split at h <;> simp at h

theorem readInlineName_length (n : NodeDecl) (ts : List Token) :
    (readInlineName n ts).2.length ≤ ts.length := by
  cases ts with
  | nil => simp [readInlineName]
  | cons t r => simp only [readInlineName]; split <;> simp

theorem readBraces_length {n m : NodeDecl} {ts rest : List Token}
    (h : readBraces n ts = .ok (m, rest)) : rest.length ≤ ts.length := by
  cases ts with
  | nil => simp_all [readBraces]
  | cons t r =>
      simp only [readBraces] at h
      split at h
      · have := readNodeBody_length h
        simp only [List.length_cons]
        omega
      · simp only [Except.ok.injEq, Prod.mk.injEq] at h
        simp [← h.2]

theorem readNode_length {line : Nat} {n : NodeDecl} {ts rest : List Token}
    (h : readNode line ts = .ok (n, rest)) : rest.length < ts.length := by
  simp only [readNode, bind, Except.bind] at h
  split at h
  · simp at h
  case h_2 a ha =>
    split at h
    · simp at h
    case h_2 b hb =>
      split at h
      · simp at h
      case h_2 c hc =>
        have h₁ := expect_length ha
        have h₂ := expect_length hb
        have h₃ := expect_length hc
        have h₄ := readBraces_length h
        have h₅ := readInlineName_length { id := a.1.text, kind := c.1.text, line } c.2
        omega

theorem readTransition_length {t : TransitionDecl} {ts rest : List Token}
    (h : readTransition ts = .ok (t, rest)) : rest.length < ts.length := by
  simp only [readTransition, bind, Except.bind] at h
  split at h
  · simp at h
  case h_2 a ha =>
    split at h
    · simp at h
    case h_2 b hb =>
      split at h
      · simp at h
      case h_2 c hc =>
        have h₁ := expect_length ha
        have h₂ := expect_length hb
        have h₃ := expect_length hc
        have h₄ := readAttributes_length h
        omega

def readTransitions (ts : List Token) : Except DeclError (List TransitionDecl × List Token) :=
  match ts with
  | [] => .error (.cutShort .closeBrace)
  | t :: r =>
      if t.kind = .closeBrace then .ok ([], r)
      else if t.kind = .endOfInput then .error (.cutShort .closeBrace)
      else
        match _h : readTransition (t :: r) with
        | .error e => .error e
        | .ok (x, rest) => do
            let (xs, rest) ← readTransitions rest
            .ok (x :: xs, rest)
termination_by ts.length
decreasing_by exact readTransition_length _h

theorem readTransitions_length {xs : List TransitionDecl} {ts rest : List Token}
    (h : readTransitions ts = .ok (xs, rest)) : rest.length < ts.length := by
  fun_induction readTransitions ts generalizing xs rest with
  | case1 => simp at h
  | case2 t r _ =>
      simp only [Except.ok.injEq, Prod.mk.injEq] at h
      simp [h.2]
  | case3 => simp at h
  | case4 => simp at h
  | case5 t r _ _ x rest' hx ih =>
      simp only [bind, Except.bind] at h
      split at h
      · simp at h
      case h_2 v hv =>
        simp only [Except.ok.injEq, Prod.mk.injEq] at h
        obtain ⟨-, rfl⟩ := h
        exact Nat.lt_trans (ih hv) (readTransition_length hx)

def readBlock (ts : List Token) : Except DeclError (List TransitionDecl × List Token) := do
  let (_, ts) ← expect .openBrace ts
  readTransitions ts

theorem readBlock_length {xs : List TransitionDecl} {ts rest : List Token}
    (h : readBlock ts = .ok (xs, rest)) : rest.length < ts.length := by
  simp only [readBlock, bind, Except.bind] at h
  split at h
  · simp at h
  case h_2 a ha => exact Nat.lt_trans (readTransitions_length h) (expect_length ha)

def readItems (d : Declaration) (ts : List Token) : Except DeclError (Declaration × List Token) :=
  match _ha : readAttributes headerAttributes d ts with
  | .error e => .error e
  | .ok (_, []) => .error (.cutShort .closeBrace)
  | .ok (d, t :: r) =>
      match t.kind with
      | .closeBrace => .ok (d, r)
      | .endOfInput => .error (.cutShort .closeBrace)
      | .keyword .inactive => readItems { d with inactive := true } r
      | .keyword .node =>
          match _hn : readNode t.place.line r with
          | .error e => .error e
          | .ok (n, rest) => readItems { d with nodes := d.nodes ++ [n] } rest
      | .keyword .transitions =>
          match _hb : readBlock r with
          | .error e => .error e
          | .ok (xs, rest) => readItems { d with transitions := d.transitions ++ xs } rest
      | _ => .error (.unknownKeyword t.text)
termination_by ts.length
decreasing_by
  all_goals
    have h := readAttributes_length _ha
    simp only [List.length_cons] at h
  · omega
  · have := readNode_length _hn
    omega
  · have := readBlock_length _hb
    omega

end Decl

def Declaration.ofTokens (ts : List Decl.Token) : Except DeclError Declaration := do
  let (_, ts) ← Decl.expect (.keyword .workflow) ts
  let (name, ts) ← Decl.expect .text ts
  let (_, ts) ← Decl.expect .openBrace ts
  let (d, ts) ← Decl.readItems { name := name.text } ts
  let _ ← Decl.expect .endOfInput ts
  .ok d

def Declaration.read (source : String) : Except DeclError Declaration := do
  Declaration.ofTokens (← Decl.scan source)

end Flowgraph
