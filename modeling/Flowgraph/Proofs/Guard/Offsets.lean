import Flowgraph.Guard.Evaluate
import Flowgraph.Proofs.Guard.Decomposition
import Flowgraph.Proofs.Guard.Resolution
import Flowgraph.Proofs.Text.Slices

namespace Flowgraph.Guard

open Text (slice? bytes)

abbrev Slicing := ExceptT InvokerError Option

namespace Slicing

variable {α β : Type}

def ofExcept (r : Except InvokerError α) : Slicing α := ExceptT.mk (some r)

theorem run_bind {x : Slicing α} {y : Except InvokerError α} {f : α → Slicing β}
    {g : α → Except InvokerError β} (hx : x.run = some y) (hf : ∀ a, (f a).run = some (g a)) :
    (x >>= f).run = some (y >>= g) := by
  rw [ExceptT.run_bind, hx]
  cases y with
  | error e => rfl
  | ok a => exact hf a

theorem run_lift_bind {o : Option α} {a : α} (h : o = some a) (f : α → Slicing β) :
    (ExceptT.lift o >>= f).run = (f a).run := by
  rw [h]
  rfl

end Slicing

namespace Offset

def trimmed (s : String) : String := String.ofList (Text.trim s.toList)

theorem toList_trimmed (s : String) : (trimmed s).toList = Text.trim s.toList :=
  String.toList_ofList

theorem isEmpty_eq (s : String) : s.isEmpty = s.toList.isEmpty := by
  rw [Bool.eq_iff_iff, String.isEmpty_iff, List.isEmpty_iff, String.toList_eq_nil_iff]

def findFrom (mark text : String) (o : Option Char) (n : Nat) : List Char → Option (Option Nat)
  | [] => some none
  | c :: cs =>
      match o with
      | some q => findFrom mark text (if c = q then none else some q) (n + c.utf8Size) cs
      | none =>
          if isQuote c then findFrom mark text (some c) (n + c.utf8Size) cs
          else do
            let rest ← slice? text n text.utf8ByteSize
            if rest.startsWith mark then return some n
            findFrom mark text none (n + c.utf8Size) cs

def find (mark text : String) : Option (Option Nat) := findFrom mark text none 0 text.toList

def cut (mark text : String) : Option (Option (String × String)) := do
  match ← find mark text with
  | none => return none
  | some n =>
      let before ← slice? text 0 n
      let behind ← slice? text (n + mark.utf8ByteSize) text.utf8ByteSize
      return some (before, behind)

section Cut

variable {mark text : String} {pre cs : List Char}

theorem findFrom_eq (o : Option Char) (h : text.toList = pre ++ cs) :
    findFrom mark text o (bytes pre) cs =
      some ((Guard.cut mark.toList o cs).map fun pair => bytes pre + bytes pair.1) := by
  induction cs generalizing pre o with
  | nil => rfl
  | cons c cs ih =>
    have hnext : text.toList = (pre ++ [c]) ++ cs := by rw [h, List.append_cons]
    have hbytes (l : List Char) : bytes (pre ++ [c]) + bytes l = bytes pre + bytes (c :: l) := by
      rw [← Text.bytes_append, ← Text.bytes_append, List.append_assoc, List.singleton_append]
    cases o with
    | some q =>
      rw [findFrom, ← Text.bytes_concat, ih _ hnext]
      simp [Guard.cut, quoteAfter, Function.comp_def, hbytes]
    | none =>
      by_cases hq : isQuote c = true
      · rw [findFrom, if_pos hq, ← Text.bytes_concat, ih _ hnext]
        simp [Guard.cut, quoteAfter, hq, Function.comp_def, hbytes]
      · -- the rest of the text is a slice, as `pre` ends where a character does
        rw [findFrom, if_neg hq, Text.slice?_back h, ← Text.bytes_concat, ih _ hnext]
        by_cases hp : mark.toList <+: c :: cs
        · simp [Guard.cut, hq, hp, Text.bytes_nil]
        · simp [Guard.cut, quoteAfter, hq, hp, Function.comp_def, hbytes]

theorem find_eq (mark text : String) :
    find mark text =
      some ((Guard.cut mark.toList none text.toList).map fun pair => bytes pair.1) := by
  have htext : text.toList = [] ++ text.toList := rfl
  simpa only [find, Text.bytes_nil, Nat.zero_add] using findFrom_eq none htext

theorem cut_eq (mark text : String) :
    cut mark text =
      some ((Guard.cut mark.toList none text.toList).map fun pair =>
        (String.ofList pair.1, String.ofList pair.2)) := by
  rw [cut, find_eq]
  cases hcut : Guard.cut mark.toList none text.toList with
  | none => rfl
  | some pair =>
    obtain ⟨before, behind⟩ := pair
    have htext := (cut_parts hcut).1
    have hfront : text.toList = before ++ (mark.toList ++ behind) := by
      rw [htext, List.append_assoc]
    have hbytes : bytes before + mark.utf8ByteSize = bytes (before ++ mark.toList) := by
      rw [Text.bytes_append, Text.bytes_toList]
    simp [Text.slice?_front hfront, hbytes, Text.slice?_back htext]

theorem length_behind_lt {before behind : String} (hm : mark ≠ "")
    (h : cut mark text = some (some (before, behind))) : behind.length < text.length := by
  rw [cut_eq, Option.some.injEq] at h
  obtain ⟨⟨l, r⟩, hcut, heq⟩ := Option.map_eq_some_iff.mp h
  obtain ⟨-, rfl⟩ := Prod.mk.inj heq
  have hpos : 0 < mark.toList.length := List.length_pos_iff.mpr (by simpa using hm)
  rw [String.length_ofList, ← String.length_toList, (cut_parts hcut).1, List.length_append,
    List.length_append]
  dsimp only
  omega

end Cut

section Split

def separator (mark : Char) : String := String.ofList [mark, mark]

theorem toList_separator (mark : Char) : (separator mark).toList = [mark, mark] :=
  String.toList_ofList

theorem separator_ne_empty (mark : Char) : separator mark ≠ "" := by
  simp [← String.toList_inj, toList_separator]

def split (mark : Char) (text : String) : Option (List String) :=
  match _h : cut (separator mark) text with
  | none => none
  | some none => some [text]
  | some (some (before, behind)) => (split mark behind).map (before :: ·)
termination_by text.length
decreasing_by exact length_behind_lt (separator_ne_empty mark) ‹_›

theorem split_eq_cut (mark : Char) (text : String) :
    split mark text =
      match cut (separator mark) text with
      | none => none
      | some none => some [text]
      | some (some (before, behind)) => (split mark behind).map (before :: ·) := by
  rw [split]
  split <;> simp_all

theorem split_eq {mark : Char} (hm : isQuote mark = false) (text : String) :
    split mark text = some ((splitAt mark none text.toList).map String.ofList) := by
  have hcut := cut_eq (separator mark) text
  rw [toList_separator] at hcut
  rw [splitAt_eq_cut hm, split_eq_cut]
  cases h : Guard.cut [mark, mark] none text.toList with
  | none =>
    rw [h] at hcut
    rw [hcut]
    simp
  | some pair =>
    obtain ⟨before, behind⟩ := pair
    rw [h] at hcut
    have hlt : behind.length < text.length := by
      simpa using length_behind_lt (separator_ne_empty mark) hcut
    have hbehind := split_eq hm (String.ofList behind)
    rw [hcut]
    simp [hbehind]
termination_by text.length

end Split

section Operands

def isEnclosed (s : String) : Bool :=
  2 ≤ s.utf8ByteSize &&
    (s.startsWith '"' && s.endsWith '"' || s.startsWith '\'' && s.endsWith '\'')

def resolve (vars : Variables) (operand : String) : Slicing String :=
  if operand.isEmpty then throw (.badExpression "")
  else if isEnclosed operand then ExceptT.lift (slice? operand 1 (operand.utf8ByteSize - 1))
  else if isLiteral operand.toList then return operand
  else
    match vars.get? operand with
    | some v => return v
    | none => throw (.unknownVariable operand)

theorem utf8Size_of_isQuote {c : Char} (h : isQuote c = true) : c.utf8Size = 1 := by
  obtain rfl | rfl : c = '"' ∨ c = '\'' := by simpa [isQuote] using h
  · rfl
  · rfl

theorem bytes_enclosed {mark : Char} (h : isQuote mark = true) (body : List Char) :
    bytes (mark :: (body ++ [mark])) = bytes body + 2 := by
  rw [Text.bytes_cons, Text.bytes_concat, utf8Size_of_isQuote h]
  omega

theorem slice?_enclosed {mark : Char} {body : List Char} {operand : String}
    (hq : isQuote mark = true) (h : operand.toList = mark :: (body ++ [mark])) :
    slice? operand 1 (operand.utf8ByteSize - 1) = some (String.ofList body) := by
  have hfirst : bytes [mark] = 1 := by rw [Text.bytes_singleton, utf8Size_of_isQuote hq]
  have hlast : operand.utf8ByteSize - 1 = 1 + bytes body := by
    rw [← Text.bytes_toList, h, bytes_enclosed hq]
    omega
  rw [hlast, ← hfirst]
  exact Text.slice?_middle h

theorem isEnclosed_iff {operand : String} :
    isEnclosed operand = true ↔
      ∃ mark body, isQuote mark = true ∧ operand.toList = mark :: (body ++ [mark]) := by
  have hends : isEnclosed operand = true ↔ 2 ≤ bytes operand.toList ∧
      ∃ mark, isQuote mark = true ∧ operand.toList.head? = some mark ∧
        operand.toList.getLast? = some mark := by
    simp [isEnclosed, isQuote, Text.bytes_toList, String.startsWith_char_eq_head?,
      String.endsWith_char_eq_getLast?, or_and_right, exists_or]
  rw [hends]
  constructor
  · rintro ⟨hsize, mark, hq, hhead, hlast⟩
    obtain ⟨r, hr⟩ := List.head?_eq_some_iff.mp hhead
    rw [hr] at hsize hlast
    have hne : r ≠ [] := by
      rintro rfl
      rw [Text.bytes_singleton, utf8Size_of_isQuote hq] at hsize
      omega
    rw [List.getLast?_cons_of_ne_nil hne] at hlast
    exact ⟨mark, r.dropLast, hq, by rw [hr, List.dropLast_append_getLast? mark hlast]⟩
  · rintro ⟨mark, body, hq, h⟩
    rw [h]
    refine ⟨?_, mark, hq, rfl, by rw [← List.cons_append, List.getLast?_concat]⟩
    rw [bytes_enclosed hq]
    exact Nat.le_add_left 2 _

theorem run_resolve (vars : Variables) (operand : String) :
    (resolve vars operand).run = some (Guard.resolve vars operand.toList) := by
  rw [resolve, Guard.resolve, isEmpty_eq]
  split
  · rfl
  cases hbody : unquoted? operand.toList with
  | some body =>
    obtain ⟨mark, hq, h⟩ := unquoted?_eq_some_iff.mp hbody
    rw [if_pos (isEnclosed_iff.mpr ⟨mark, body, hq, h⟩), slice?_enclosed hq h]
    rfl
  | none =>
    have hno : ¬isEnclosed operand = true := by
      intro he
      obtain ⟨mark, body, hq, h⟩ := isEnclosed_iff.mp he
      rw [h, Operand.unquoted?_quoted hq] at hbody
      cases hbody
    rw [if_neg hno, String.ofList_toList]
    dsimp only
    split
    · rfl
    · cases vars.get? operand <;> rfl

theorem run_resolve_trimmed (vars : Variables) (cs : List Char) :
    (resolve vars (trimmed (String.ofList cs))).run = some (Guard.resolve vars (Text.trim cs)) := by
  rw [run_resolve, toList_trimmed, String.toList_ofList]

end Operands

section Evaluation

def findComparison (term : String) :
    List Comparison → Option (Option (Comparison × String × String))
  | [] => some none
  | c :: cs => do
      match ← cut (String.ofList c.symbol) term with
      | some (left, right) => return some (c, left, right)
      | none => findComparison term cs

variable (vars : Variables)

def evaluateBare (term : String) : Slicing Bool :=
  match term.toList with
  | '!' :: r => do
      let value ← resolve vars (trimmed (String.ofList r))
      .ofExcept (verdict true term.toList value)
  | _ => do
      let value ← resolve vars term
      .ofExcept (verdict false term.toList value)

def evaluateTerm (term : String) : Slicing Bool :=
  if term.isEmpty then throw (.badExpression "")
  else do
    match ← ExceptT.lift (findComparison term Comparison.all) with
    | some (c, left, right) =>
        let a ← resolve vars (trimmed left)
        let b ← resolve vars (trimmed right)
        .ofExcept (c.apply a b term)
    | none => evaluateBare vars term

def evaluateAll : List String → Slicing Bool
  | [] => return true
  | t :: ts => do if ← evaluateTerm vars (trimmed t) then evaluateAll ts else return false

def evaluateAny : List String → Slicing Bool
  | [] => return false
  | p :: ps => do
      let terms ← ExceptT.lift (split '&' p)
      if ← evaluateAll vars terms then return true else evaluateAny ps

def evaluate (text : String) : Slicing Bool :=
  if (trimmed text).isEmpty then throw (.badExpression "")
  else do
    let conjunctions ← ExceptT.lift (split '|' (trimmed text))
    evaluateAny vars conjunctions

theorem findComparison_eq (term : String) (cs : List Comparison) :
    findComparison term cs =
      some ((cs.findSome? fun c =>
        (Guard.cut c.symbol none term.toList).map fun (l, r) => (c, l, r)).map
          fun (c, l, r) => (c, String.ofList l, String.ofList r)) := by
  induction cs with
  | nil => rfl
  | cons c cs ih =>
    rw [findComparison, cut_eq, String.toList_ofList, List.findSome?_cons]
    cases Guard.cut c.symbol none term.toList with
    | none => simpa using ih
    | some pair => rfl

theorem run_evaluateBare (term : String) :
    (evaluateBare vars term).run = some (Guard.evaluateBare vars term.toList) := by
  unfold evaluateBare
  split
  · next r hterm =>
    rw [hterm, evaluateBare_negated]
    exact Slicing.run_bind (run_resolve_trimmed vars r) fun _ => rfl
  · rw [Guard.evaluateBare]
    · exact Slicing.run_bind (run_resolve vars term) fun _ => rfl
    · assumption

theorem run_evaluateTerm (term : String) :
    (evaluateTerm vars term).run = some (Guard.evaluateTerm vars term.toList) := by
  rw [evaluateTerm, Guard.evaluateTerm, isEmpty_eq]
  split
  · rfl
  rw [Slicing.run_lift_bind (findComparison_eq term Comparison.all), ← Guard.findComparison]
  rcases Guard.findComparison term.toList with _ | ⟨c, left, right⟩
  · exact run_evaluateBare vars term
  · refine Slicing.run_bind (run_resolve_trimmed vars left) fun a => ?_
    refine Slicing.run_bind (run_resolve_trimmed vars right) fun b => ?_
    rw [String.ofList_toList]
    rfl

theorem run_evaluateAll (ts : List (List Char)) :
    (evaluateAll vars (ts.map String.ofList)).run = some (Guard.evaluateAll vars ts) := by
  induction ts with
  | nil => rfl
  | cons t ts ih =>
    rw [List.map_cons, evaluateAll, Guard.evaluateAll, ExceptT.run_bind, run_evaluateTerm,
      toList_trimmed, String.toList_ofList]
    rcases Guard.evaluateTerm vars (Text.trim t) with e | ⟨_ | _⟩
    · rfl
    · rfl
    · exact ih

theorem run_evaluateAny (ps : List (List Char)) :
    (evaluateAny vars (ps.map String.ofList)).run = some (Guard.evaluateAny vars ps) := by
  induction ps with
  | nil => rfl
  | cons p ps ih =>
    rw [List.map_cons, evaluateAny, Guard.evaluateAny,
      Slicing.run_lift_bind (split_eq (by decide) _), ExceptT.run_bind, run_evaluateAll,
      String.toList_ofList]
    rcases Guard.evaluateAll vars (splitAt '&' none p) with e | ⟨_ | _⟩
    · rfl
    · exact ih
    · rfl

theorem run_evaluate (text : String) :
    (evaluate vars text).run = some (Guard.evaluate vars text) := by
  rw [evaluate, Guard.evaluate, isEmpty_eq, toList_trimmed]
  split
  · rfl
  · rw [Slicing.run_lift_bind (split_eq (by decide) _), toList_trimmed]
    exact run_evaluateAny vars _

end Evaluation

end Offset

theorem splits_leftmost {mark : Char} (hm : isQuote mark = false) (text : String) :
    Offset.split mark text = some ((splitAt mark none text.toList).map String.ofList) ∧
      Decomposes [mark, mark] (splitAt mark none text.toList) text.toList ∧
      (∀ parts, Decomposes [mark, mark] parts text.toList →
        parts = splitAt mark none text.toList ∨
          List.Lex (fun p q => p.length < q.length) (splitAt mark none text.toList) parts) ∧
      ∀ vars, (Offset.evaluate vars text).run = some (evaluate vars text) :=
  ⟨Offset.split_eq hm text, decomposes_splitAt hm text.toList,
    fun _ h => h.split_or_later hm, fun vars => Offset.run_evaluate vars text⟩

theorem splits_leftmost_overlapping :
    isQuote '|' = false ∧ isQuote '&' = false ∧
      Offset.split '|' "é|||'x||y' || \"ü" = some ["é", "|'x||y' ", " \"ü"] ∧
      Decomposes ['|', '|'] ["é".toList, "|'x".toList] "é|||'x".toList ∧
      Offset.split '&' "'&&\"' &&&& €" = some ["'&&\"' ", "", " €"] ∧
      (Offset.evaluate (Keyed.ofList [("größe", "ü||é")]) "größe == 'ü||é' || €").run =
        some (.ok true) := by
  have hbar : isQuote '|' = false := by decide
  have hand : isQuote '&' = false := by decide
  refine ⟨hbar, hand, ?_, (splits_leftmost hbar "é|||'x").2.1, ?_, ?_⟩
  · exact (splits_leftmost hbar _).1.trans (by decide)
  · exact (splits_leftmost hand _).1.trans (by decide)
  · exact ((splits_leftmost hbar _).2.2.2 _).trans (by decide)

end Flowgraph.Guard
