import Flowgraph.Decl.Place

namespace Flowgraph.Decl

inductive Keyword where
  | workflow
  | id
  | model
  | description
  | maxCounter
  | sequence
  | condition
  | inactive
  | node
  | type
  | name
  | join
  | split
  | action
  | transitions
  | when
  | as
deriving DecidableEq, Repr

def Keyword.spelling : Keyword → String
  | .workflow => "WORKFLOW"
  | .id => "ID"
  | .model => "MODEL"
  | .description => "DESCRIPTION"
  | .maxCounter => "MAX_COUNTER"
  | .sequence => "SEQUENCE"
  | .condition => "CONDITION"
  | .inactive => "INACTIVE"
  | .node => "NODE"
  | .type => "TYPE"
  | .name => "NAME"
  | .join => "JOIN"
  | .split => "SPLIT"
  | .action => "ACTION"
  | .transitions => "TRANSITIONS"
  | .when => "WHEN"
  | .as => "AS"

def Keyword.all : List Keyword :=
  [.workflow, .id, .model, .description, .maxCounter, .sequence, .condition, .inactive, .node,
    .type, .name, .join, .split, .action, .transitions, .when, .as]

def Keyword.ofSpelling? (s : String) : Option Keyword := Keyword.all.find? (·.spelling = s)

inductive Kind where
  | keyword (k : Keyword)
  | identifier
  | text
  | number
  | openBrace
  | closeBrace
  | arrow
  | endOfInput
deriving DecidableEq, Repr

def Kind.name : Kind → String
  | .keyword k => k.spelling
  | .identifier => "identifier"
  | .text => "string literal"
  | .number => "number"
  | .openBrace => "\x7b"
  | .closeBrace => "\x7d"
  | .arrow => "->"
  | .endOfInput => "end of input"

structure Token where
  kind : Kind
  text : String
  place : Place
deriving DecidableEq, Repr

theorem Keyword.mem_all (k : Keyword) : k ∈ Keyword.all := by cases k <;> decide

theorem Keyword.ofSpelling?_spelling (k : Keyword) : Keyword.ofSpelling? k.spelling = some k := by
  cases k <;> decide

end Flowgraph.Decl
