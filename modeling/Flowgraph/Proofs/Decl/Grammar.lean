import Flowgraph.Decl.Basic
import Flowgraph.Decl.Token
import Flowgraph.Number.Decimal
import Flowgraph.Number.Range

namespace Flowgraph.Decl

structure Leaf (k : Kind) where
  token : Token
  kind_eq : token.kind = k

def Leaf.text {k : Kind} (l : Leaf k) : String := l.token.text

def Leaf.line {k : Kind} (l : Leaf k) : Nat := l.token.place.line

def numeral (text : String) : Int :=
  match text.toList with
  | '-' :: ds => -(natOfDigits ds : Int)
  | ds => natOfDigits ds

def Token.Fits (t : Token) : Prop :=
  t.kind = .number → IntRange.signed64.has (numeral t.text) = true

def headerTakes : Keyword → Option Kind
  | .id => some .identifier
  | .model => some .text
  | .description => some .text
  | .maxCounter => some .number
  | .sequence => some .number
  | .condition => some .text
  | _ => none

def nodeTakes : Keyword → Option Kind
  | .name => some .text
  | .description => some .text
  | .join => some .identifier
  | .split => some .identifier
  | .action => some .text
  | _ => none

def transitionTakes : Keyword → Option Kind
  | .sequence => some .number
  | .when => some .text
  | .name => some .text
  | .as => some .identifier
  | _ => none

structure Clause (takes : Keyword → Option Kind) where
  keyword : Keyword
  kind : Kind
  takes_kind : takes keyword = some kind
  mark : Leaf (.keyword keyword)
  value : Leaf kind

namespace Clause

variable {takes : Keyword → Option Kind}

def tokens (c : Clause takes) : List Token := [c.mark.token, c.value.token]

def last? (k : Keyword) (cs : List (Clause takes)) : Option String :=
  (cs.filter (·.keyword = k)).getLast?.map (·.value.text)

theorem last?_cons (k : Keyword) (c : Clause takes) (cs : List (Clause takes)) :
    last? k (c :: cs) = (last? k cs).or (last? k [c]) := by
  rw [last?, last?, last?, List.filter_cons, List.filter_cons, List.filter_nil]
  split
  case isTrue =>
    rw [List.getLast?_cons]
    cases (cs.filter (·.keyword = k)).getLast? <;> rfl
  case isFalse => exact (Option.or_none).symm

end Clause

structure NodeBody where
  opening : Leaf .openBrace
  clauses : List (Clause nodeTakes)
  closing : Leaf .closeBrace

def NodeBody.tokens (b : NodeBody) : List Token :=
  b.opening.token :: (b.clauses.flatMap Clause.tokens ++ [b.closing.token])

structure NodePhrase where
  mark : Leaf (.keyword .node)
  id : Leaf .identifier
  type : Leaf (.keyword .type)
  kind : Leaf .identifier
  label : Option (Leaf .text)
  body : Option NodeBody

namespace NodePhrase

variable (n : NodePhrase)

def behindMark : List Token :=
  [n.id.token, n.type.token, n.kind.token] ++ n.label.elim [] (fun l => [l.token]) ++
    n.body.elim [] NodeBody.tokens

def tokens : List Token := n.mark.token :: n.behindMark

def clauses : List (Clause nodeTakes) := n.body.elim [] NodeBody.clauses

def declaration : NodeDecl where
  id := n.id.text
  kind := n.kind.text
  line := n.mark.line
  name := (Clause.last? .name n.clauses).or (n.label.map Leaf.text)
  description := Clause.last? .description n.clauses
  join := Clause.last? .join n.clauses
  split := Clause.last? .split n.clauses
  action := Clause.last? .action n.clauses

end NodePhrase

structure TransitionPhrase where
  source : Leaf .identifier
  arrow : Leaf .arrow
  target : Leaf .identifier
  clauses : List (Clause transitionTakes)

namespace TransitionPhrase

variable (t : TransitionPhrase)

def tokens : List Token :=
  [t.source.token, t.arrow.token, t.target.token] ++ t.clauses.flatMap Clause.tokens

def declaration : TransitionDecl where
  source := t.source.text
  target := t.target.text
  line := t.source.line
  id := Clause.last? .as t.clauses
  name := Clause.last? .name t.clauses
  sequence := (Clause.last? .sequence t.clauses).map numeral
  guard := Clause.last? .when t.clauses

end TransitionPhrase

structure Block where
  mark : Leaf (.keyword .transitions)
  opening : Leaf .openBrace
  transitions : List TransitionPhrase
  closing : Leaf .closeBrace

def Block.behindMark (b : Block) : List Token :=
  b.opening.token :: (b.transitions.flatMap TransitionPhrase.tokens ++ [b.closing.token])

def Block.tokens (b : Block) : List Token := b.mark.token :: b.behindMark

inductive Item where
  | clause (c : Clause headerTakes)
  | inactive (mark : Leaf (.keyword .inactive))
  | node (n : NodePhrase)
  | block (b : Block)

namespace Item

def tokens : Item → List Token
  | .clause c => c.tokens
  | .inactive mark => [mark.token]
  | .node n => n.tokens
  | .block b => b.tokens

@[simp] def clauses : Item → List (Clause headerTakes)
  | .clause c => [c]
  | _ => []

@[simp] def isInactive : Item → Bool
  | .inactive _ => true
  | _ => false

@[simp] def nodes : Item → List NodeDecl
  | .node n => [n.declaration]
  | _ => []

@[simp] def transitions : Item → List TransitionDecl
  | .block b => b.transitions.map TransitionPhrase.declaration
  | _ => []

end Item

structure Sentence where
  mark : Leaf (.keyword .workflow)
  name : Leaf .text
  opening : Leaf .openBrace
  items : List Item
  closing : Leaf .closeBrace
  ending : Leaf .endOfInput

namespace Sentence

variable (s : Sentence)

def tokens : List Token :=
  [s.mark.token, s.name.token, s.opening.token] ++ s.items.flatMap Item.tokens ++
    [s.closing.token, s.ending.token]

def clauses : List (Clause headerTakes) := s.items.flatMap Item.clauses

def declaration : Declaration where
  name := s.name.text
  id := Clause.last? .id s.clauses
  model := Clause.last? .model s.clauses
  description := Clause.last? .description s.clauses
  maxCounter := (Clause.last? .maxCounter s.clauses).map numeral
  sequence := (Clause.last? .sequence s.clauses).map numeral
  condition := Clause.last? .condition s.clauses
  inactive := s.items.any Item.isInactive
  nodes := s.items.flatMap Item.nodes
  transitions := s.items.flatMap Item.transitions

end Sentence

end Flowgraph.Decl
