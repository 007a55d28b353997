import Flowgraph.Decl.Read
import Flowgraph.Proofs.Decl.Drafting
import Flowgraph.Proofs.Decl.Grammar

namespace Flowgraph.Decl

theorem expect_ok {k : Kind} {t : Token} {ts rest : List Token}
    (h : expect k ts = .ok (t, rest)) : ∃ l : Leaf k, t = l.token ∧ ts = l.token :: rest := by
  cases ts with
  | nil => cases h
  | cons u us =>
    rw [expect] at h
    split at h
    case isTrue hk =>
      cases h
      exact ⟨⟨t, hk⟩, rfl, rfl⟩
    case isFalse => cases h

theorem expect_leaf {k : Kind} (l : Leaf k) (ts : List Token) :
    expect k (l.token :: ts) = .ok (l.token, ts) := by
  rw [expect, if_pos l.kind_eq]

def nextKind (ts : List Token) : Option Kind := ts.head?.map (·.kind)

theorem nextKind_leaf {k : Kind} (l : Leaf k) (ts : List Token) :
    nextKind (l.token :: ts) = some k := congrArg some l.kind_eq

theorem readNumber_eq (text : String) :
    readNumber text =
      if IntRange.signed64.has (numeral text) then .ok (numeral text)
      else .error (.misfit "number" (.notNumber text)) := rfl

theorem Leaf.fits_of_ne {k : Kind} (l : Leaf k) (h : k ≠ .number) : l.token.Fits :=
  fun hk => absurd (l.kind_eq.symm.trans hk) h

theorem Leaf.fits_number (l : Leaf .number) :
    l.token.Fits ↔ IntRange.signed64.has (numeral l.text) = true :=
  ⟨fun h => h l.kind_eq, fun h _ => h⟩

theorem Clause.fits_iff {takes : Keyword → Option Kind} (c : Clause takes) :
    (∀ t ∈ c.tokens, t.Fits) ↔ c.value.token.Fits := by
  have hmark : c.mark.token.Fits := c.mark.fits_of_ne (by intro h; cases h)
  rw [Clause.tokens]
  simp [hmark]

section Attributes

variable {α : Type} {table : List (Attribute α)} {takes : Keyword → Option Kind}
  {effect : α → List (Clause takes) → α} {x y : α} {ts rest : List Token}

theorem plain_set_ok {keyword : Keyword} {k : Kind} {set : α → String → α} (l : Leaf k)
    (h : k ≠ .number) :
    (Attribute.plain keyword k set).set x l.text = .ok y ↔ l.token.Fits ∧ y = set x l.text := by
  rw [and_iff_right (l.fits_of_ne h), Attribute.plain, Except.ok.injEq]
  exact eq_comm

theorem number_set_ok {keyword : Keyword} {set : α → Int → α} (l : Leaf .number) :
    (Attribute.number keyword set).set x l.text = .ok y ↔
      l.token.Fits ∧ y = set x (numeral l.text) := by
  rw [l.fits_number]
  change (readNumber l.text).map (set x) = .ok y ↔ _
  rw [readNumber_eq]
  split
  case isTrue h =>
    rw [and_iff_right h, Except.map, Except.ok.injEq]
    exact eq_comm
  case isFalse h => simp [h, Except.map]

structure Attribute.Reads (table : List (Attribute α)) (takes : Keyword → Option Kind)
    (effect : α → List (Clause takes) → α) : Prop where
  kind : ∀ k, (Attribute.find? table (.keyword k)).map (·.kind) = takes k
  none : ∀ x, effect x [] = x
  cons : ∀ x c cs, effect x (c :: cs) = effect (effect x [c]) cs
  set : ∀ x y (c : Clause takes) a, Attribute.find? table (.keyword c.keyword) = some a →
    (a.set x c.value.text = .ok y ↔ c.value.token.Fits ∧ y = effect x [c])

theorem Attribute.keyword_of_find {k : Kind} {a : Attribute α}
    (h : Attribute.find? table k = some a) : k = .keyword a.keyword := by
  have := List.find?_some h
  simpa using this

theorem readAttributes_ok (hr : Attribute.Reads table takes effect)
    (h : readAttributes table x ts = .ok (y, rest)) :
    ∃ cs : List (Clause takes), ts = cs.flatMap Clause.tokens ++ rest ∧
      (∀ t ∈ cs.flatMap Clause.tokens, t.Fits) ∧ y = effect x cs := by
  fun_induction readAttributes table x ts with
  | case1 x =>
    cases h
    exact ⟨[], rfl, by simp, (hr.none _).symm⟩
  | case2 x t r hnone =>
    cases h
    exact ⟨[], rfl, by simp, (hr.none _).symm⟩
  | case3 => cases h
  | case4 => cases h
  | case5 x t a hfind v r hkind z hset ih =>
    have hmark : t.kind = .keyword a.keyword := Attribute.keyword_of_find hfind
    rw [hmark] at hfind
    let c : Clause takes :=
      { keyword := a.keyword
        kind := a.kind
        takes_kind := by rw [← hr.kind, hfind, Option.map_some]
        mark := ⟨t, hmark⟩
        value := ⟨v, hkind⟩ }
    obtain ⟨hfits, rfl⟩ := (hr.set x z c a hfind).1 hset
    obtain ⟨cs, rfl, hcs, rfl⟩ := ih h
    refine ⟨c :: cs, rfl, ?_, (hr.cons x c cs).symm⟩
    rw [List.flatMap_cons, List.forall_mem_append]
    exact ⟨c.fits_iff.2 hfits, hcs⟩
  | case6 => cases h

theorem readAttributes_clause (hr : Attribute.Reads table takes effect) (c : Clause takes)
    (hfits : ∀ t ∈ c.tokens, t.Fits) (ts : List Token) :
    readAttributes table x (c.tokens ++ ts) = readAttributes table (effect x [c]) ts := by
  have hkind := hr.kind c.keyword
  rw [c.takes_kind, Option.map_eq_some_iff] at hkind
  obtain ⟨a, hfind, hkind⟩ := hkind
  have hset : a.set x c.value.text = .ok (effect x [c]) :=
    (hr.set x _ c a hfind).2 ⟨c.fits_iff.1 hfits, rfl⟩
  have hmark : Attribute.find? table c.mark.token.kind = some a := by rw [c.mark.kind_eq, hfind]
  have hvalue : c.value.token.kind = a.kind := by rw [c.value.kind_eq, hkind]
  rw [Clause.tokens, List.cons_append, List.cons_append, List.nil_append, readAttributes, hmark]
  simp only [hvalue, if_true]
  rw [← Leaf.text, hset]

theorem readAttributes_clauses (hr : Attribute.Reads table takes effect) (cs : List (Clause takes))
    (hfits : ∀ t ∈ cs.flatMap Clause.tokens, t.Fits) (ts : List Token) :
    readAttributes table x (cs.flatMap Clause.tokens ++ ts) =
      readAttributes table (effect x cs) ts := by
  induction cs generalizing x with
  | nil => rw [hr.none, List.flatMap_nil, List.nil_append]
  | cons c cs ih =>
    rw [List.flatMap_cons, List.forall_mem_append] at hfits
    rw [List.flatMap_cons, List.append_assoc, readAttributes_clause hr c hfits.1, ih hfits.2,
      ← hr.cons]

theorem readAttributes_stop (hr : Attribute.Reads table takes effect)
    (h : ∀ k, nextKind ts = some (.keyword k) → takes k = none) :
    readAttributes table x ts = .ok (x, ts) := by
  cases ts with
  | nil => rw [readAttributes]
  | cons t ts =>
    have hfind : Attribute.find? table t.kind = none := by
      cases hf : Attribute.find? table t.kind with
      | none => rfl
      | some a =>
        have hk : t.kind = .keyword a.keyword := Attribute.keyword_of_find hf
        have hkind := hr.kind a.keyword
        rw [← hk, hf, h _ (congrArg some hk)] at hkind
        cases hkind
    rw [readAttributes, hfind]

end Attributes

def headerOver (d : Declaration) (cs : List (Clause headerTakes)) : Declaration :=
  { d with
    id := (Clause.last? .id cs).or d.id
    model := (Clause.last? .model cs).or d.model
    description := (Clause.last? .description cs).or d.description
    maxCounter := ((Clause.last? .maxCounter cs).map numeral).or d.maxCounter
    sequence := ((Clause.last? .sequence cs).map numeral).or d.sequence
    condition := (Clause.last? .condition cs).or d.condition }

def nodeOver (n : NodeDecl) (cs : List (Clause nodeTakes)) : NodeDecl :=
  { n with
    name := (Clause.last? .name cs).or n.name
    description := (Clause.last? .description cs).or n.description
    join := (Clause.last? .join cs).or n.join
    split := (Clause.last? .split cs).or n.split
    action := (Clause.last? .action cs).or n.action }

def transitionOver (t : TransitionDecl) (cs : List (Clause transitionTakes)) : TransitionDecl :=
  { t with
    id := (Clause.last? .as cs).or t.id
    name := (Clause.last? .name cs).or t.name
    sequence := ((Clause.last? .sequence cs).map numeral).or t.sequence
    guard := (Clause.last? .when cs).or t.guard }

theorem headerAttributes_reads : Attribute.Reads headerAttributes headerTakes headerOver where
  kind k := by cases k <;> rfl
  none x := rfl
  cons x c cs := by
    simp only [headerOver]
    simp only [Clause.last?_cons _ c cs, Option.or_assoc, Option.map_or]
  set x y c a h := by
    obtain ⟨k, kind, hk, mark, value⟩ := c
    cases k <;> cases hk <;> cases h
    case id => exact plain_set_ok value (by decide)
    case model => exact plain_set_ok value (by decide)
    case description => exact plain_set_ok value (by decide)
    case maxCounter => exact number_set_ok value
    case sequence => exact number_set_ok value
    case condition => exact plain_set_ok value (by decide)

theorem nodeAttributes_reads : Attribute.Reads nodeAttributes nodeTakes nodeOver where
  kind k := by cases k <;> rfl
  none x := rfl
  cons x c cs := by
    simp only [nodeOver]
    simp only [Clause.last?_cons _ c cs, Option.or_assoc]
  set x y c a h := by
    obtain ⟨k, kind, hk, mark, value⟩ := c
    cases k <;> cases hk <;> cases h
    case name => exact plain_set_ok value (by decide)
    case description => exact plain_set_ok value (by decide)
    case join => exact plain_set_ok value (by decide)
    case split => exact plain_set_ok value (by decide)
    case action => exact plain_set_ok value (by decide)

theorem transitionAttributes_reads :
    Attribute.Reads transitionAttributes transitionTakes transitionOver where
  kind k := by cases k <;> rfl
  none x := rfl
  cons x c cs := by
    simp only [transitionOver]
    simp only [Clause.last?_cons _ c cs, Option.or_assoc, Option.map_or]
  set x y c a h := by
    obtain ⟨k, kind, hk, mark, value⟩ := c
    cases k <;> cases hk <;> cases h
    case sequence => exact number_set_ok value
    case when => exact plain_set_ok value (by decide)
    case name => exact plain_set_ok value (by decide)
    case as => exact plain_set_ok value (by decide)

end Flowgraph.Decl
