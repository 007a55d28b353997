namespace Flowgraph

class Key (κ : Type) where
  before : κ → κ → Bool
  irrefl : ∀ a, before a a = false
  trans : ∀ {a b c}, before a b = true → before b c = true → before a c = true
  connected : ∀ {a b}, before a b = false → before b a = false → a = b

instance : Key String where
  before a b := decide (a < b)
  irrefl a := by simp
  trans h₁ h₂ := by simpa using String.lt_trans (of_decide_eq_true h₁) (of_decide_eq_true h₂)
  connected h₁ h₂ :=
    String.le_antisymm (String.not_lt.1 (of_decide_eq_false h₂))
      (String.not_lt.1 (of_decide_eq_false h₁))

theorem Key.ne_of_before {κ : Type} [Key κ] {a b : κ} (h : Key.before a b = true) : a ≠ b := by
  intro e
  subst e
  simp [Key.irrefl] at h

instance {κ ι : Type} [Key κ] [Key ι] [DecidableEq κ] : Key (κ × ι) where
  before a b := Key.before a.1 b.1 || (decide (a.1 = b.1) && Key.before a.2 b.2)
  irrefl a := by simp [Key.irrefl]
  trans {a b c} h₁ h₂ := by
    simp only [Bool.or_eq_true, Bool.and_eq_true, decide_eq_true_eq] at h₁ h₂ ⊢
    rcases h₁ with h₁ | ⟨e₁, h₁⟩ <;> rcases h₂ with h₂ | ⟨e₂, h₂⟩
    · exact .inl (Key.trans h₁ h₂)
    · exact .inl (e₂ ▸ h₁)
    · exact .inl (e₁ ▸ h₂)
    · exact .inr ⟨e₁.trans e₂, Key.trans h₁ h₂⟩
  connected {a b} h₁ h₂ := by
    simp only [Bool.or_eq_false_iff, Bool.and_eq_false_iff, decide_eq_false_iff_not] at h₁ h₂
    have e : a.1 = b.1 := Key.connected h₁.1 h₂.1
    have e' : a.2 = b.2 :=
      Key.connected (h₁.2.resolve_left (fun n => n e)) (h₂.2.resolve_left (fun n => n e.symm))
    exact Prod.ext e e'

structure Keyed (κ : Type) [Key κ] (α : Type) where
  entries : List (κ × α)
  ascending : entries.Pairwise fun a b => Key.before a.1 b.1 = true
deriving DecidableEq, Repr

namespace Keyed

variable {κ α : Type}

def find [DecidableEq κ] (k : κ) : List (κ × α) → Option α
  | [] => none
  | (k', a) :: rest => if k' = k then some a else find k rest

variable [Key κ]

def put (k : κ) (a : α) : List (κ × α) → List (κ × α)
  | [] => [(k, a)]
  | (k', a') :: rest =>
      if Key.before k k' then (k, a) :: (k', a') :: rest
      else if Key.before k' k then (k', a') :: put k a rest
      else (k, a) :: rest

theorem mem_put {k : κ} {a : α} {e : κ × α} :
    ∀ {l : List (κ × α)}, e ∈ put k a l → e = (k, a) ∨ e ∈ l := by
  intro l
  induction l with
  | nil => simp [put]
  | cons x xs ih =>
      intro h
      simp only [put] at h
      split at h
      · simpa using h
      · split at h
        · rcases List.mem_cons.1 h with h | h
          · simp [h]
          · rcases ih h with h | h <;> simp [h]
        · rcases List.mem_cons.1 h with h | h <;> simp [h]

theorem put_ascending (k : κ) (a : α) :
    ∀ {l : List (κ × α)}, l.Pairwise (fun x y => Key.before x.1 y.1 = true) →
      (put k a l).Pairwise (fun x y => Key.before x.1 y.1 = true) := by
  intro l
  induction l with
  | nil => intro _; simp [put]
  | cons x xs ih =>
      intro h
      obtain ⟨hx, hxs⟩ := List.pairwise_cons.1 h
      simp only [put]
      split
      case isTrue hk =>
        refine List.pairwise_cons.2 ⟨?_, h⟩
        intro y hy
        rcases List.mem_cons.1 hy with rfl | hy
        · exact hk
        · exact Key.trans hk (hx y hy)
      case isFalse hk =>
        split
        case isTrue hk' =>
          refine List.pairwise_cons.2 ⟨?_, ih hxs⟩
          intro y hy
          rcases mem_put hy with rfl | hy
          · exact hk'
          · exact hx y hy
        case isFalse hk' =>
          have e : k = x.1 := Key.connected (by simpa using hk) (by simpa using hk')
          exact List.pairwise_cons.2 ⟨fun y hy => by rw [e]; exact hx y hy, hxs⟩

theorem find_put [DecidableEq κ] (k k' : κ) (a : α) (l : List (κ × α)) :
    find k' (put k a l) = if k = k' then some a else find k' l := by
  induction l with
  | nil => simp [put, find]
  | cons x xs ih =>
      simp only [put]
      split
      · simp [find]
      · split
        case isTrue h =>
          by_cases e : x.1 = k'
          · have : k ≠ k' := fun ek => Key.ne_of_before h (e.trans ek.symm)
            simp [find, e, this]
          · simp [find, e, ih]
        case isFalse h h' =>
          have e : k = x.1 := Key.connected (by simpa using h) (by simpa using h')
          by_cases ek : k = k'
          · simp [find, ek]
          · have : x.1 ≠ k' := fun ex => ek (e.trans ex)
            simp [find, ek, this]

def empty : Keyed κ α := ⟨[], .nil⟩

def insert (m : Keyed κ α) (k : κ) (a : α) : Keyed κ α :=
  ⟨put k a m.entries, put_ascending k a m.ascending⟩

def ofList (l : List (κ × α)) : Keyed κ α := l.foldl (fun m e => m.insert e.1 e.2) empty

def keys (m : Keyed κ α) : List κ := m.entries.map (·.1)

def values (m : Keyed κ α) : List α := m.entries.map (·.2)

def size (m : Keyed κ α) : Nat := m.entries.length

def isEmpty (m : Keyed κ α) : Bool := m.entries.isEmpty

variable [DecidableEq κ]

def get? (m : Keyed κ α) (k : κ) : Option α := find k m.entries

def contains (m : Keyed κ α) (k : κ) : Bool := (m.get? k).isSome

def erase (m : Keyed κ α) (k : κ) : Keyed κ α :=
  ⟨m.entries.filter (fun e => e.1 ≠ k), m.ascending.filter _⟩

@[simp] theorem get?_empty (k : κ) : (empty : Keyed κ α).get? k = none := rfl

theorem get?_insert (m : Keyed κ α) (k k' : κ) (a : α) :
    (m.insert k a).get? k' = if k = k' then some a else m.get? k' := find_put k k' a m.entries

@[simp] theorem get?_insert_self (m : Keyed κ α) (k : κ) (a : α) :
    (m.insert k a).get? k = some a := by simp [get?_insert]

theorem get?_insert_of_ne (m : Keyed κ α) {k k' : κ} (a : α) (h : k ≠ k') :
    (m.insert k a).get? k' = m.get? k' := by simp [get?_insert, h]

theorem get?_insert_of_free {m : Keyed κ α} {k k' : κ} {a : α} (b : α) (h : m.get? k = none)
    (h' : m.get? k' = some a) : (m.insert k b).get? k' = some a := by
  rw [get?_insert_of_ne, h']
  rintro rfl
  rw [h] at h'
  cases h'

theorem get?_erase (m : Keyed κ α) (k k' : κ) :
    (m.erase k).get? k' = if k = k' then none else m.get? k' := by
  have : ∀ l : List (κ × α), find k' (l.filter (fun e => e.1 ≠ k))
      = if k = k' then none else find k' l := by
    intro l
    induction l with
    | nil => simp [find]
    | cons x xs ih =>
        by_cases hx : x.1 = k
        · rw [List.filter_cons_of_neg (by simpa using hx), ih]
          by_cases hk : k = k'
          · simp [hk]
          · have : x.1 ≠ k' := fun e => hk (hx ▸ e)
            simp [find, hk, this]
        · rw [List.filter_cons_of_pos (by simpa using hx)]
          simp only [find, ih]
          by_cases hk : k = k'
          · have : x.1 ≠ k' := fun e => hx (hk ▸ e)
            simp [hk, this]
          · simp [hk]
  exact this m.entries

omit [Key κ] in
theorem mem_of_find {k : κ} {a : α} : ∀ {l : List (κ × α)}, find k l = some a → (k, a) ∈ l := by
  intro l
  induction l with
  | nil => simp [find]
  | cons x xs ih =>
      intro h
      simp only [find] at h
      split at h
      case isTrue e =>
        obtain rfl := Option.some.inj h
        subst e
        simp
      case isFalse => exact List.mem_cons_of_mem _ (ih h)

theorem find_of_mem {k : κ} {a : α} :
    ∀ {l : List (κ × α)}, l.Pairwise (fun x y => Key.before x.1 y.1 = true) →
      (k, a) ∈ l → find k l = some a := by
  intro l
  induction l with
  | nil => simp
  | cons x xs ih =>
      intro hl h
      obtain ⟨hx, hxs⟩ := List.pairwise_cons.1 hl
      rcases List.mem_cons.1 h with rfl | h
      · simp [find]
      · have : x.1 ≠ k := Key.ne_of_before (hx _ h)
        simp [find, this, ih hxs h]

theorem get?_eq_some_iff {m : Keyed κ α} {k : κ} {a : α} :
    m.get? k = some a ↔ (k, a) ∈ m.entries :=
  ⟨mem_of_find, find_of_mem m.ascending⟩

theorem mem_values_iff {m : Keyed κ α} {a : α} : a ∈ m.values ↔ ∃ k, m.get? k = some a := by
  simp [values, get?_eq_some_iff]

theorem mem_keys_iff {m : Keyed κ α} {k : κ} : k ∈ m.keys ↔ m.contains k = true := by
  simp [keys, contains, Option.isSome_iff_exists, get?_eq_some_iff]

theorem map_values_key {m : Keyed κ α} {key : α → κ}
    (h : ∀ {k a}, m.get? k = some a → key a = k) : m.values.map key = m.keys := by
  rw [values, keys, List.map_map]
  exact List.map_congr_left fun e he => h (get?_eq_some_iff.2 he)

theorem contains_insert (m : Keyed κ α) (k k' : κ) (a : α) :
    (m.insert k a).contains k' = (decide (k = k') || m.contains k') := by
  by_cases h : k = k' <;> simp [contains, get?_insert, h]

theorem contains_erase (m : Keyed κ α) (k k' : κ) :
    (m.erase k).contains k' = (!decide (k = k') && m.contains k') := by
  by_cases h : k = k' <;> simp [contains, get?_erase, h]

@[simp] theorem contains_empty (k : κ) : (empty : Keyed κ α).contains k = false := rfl

theorem isEmpty_eq_false_iff {m : Keyed κ α} : m.isEmpty = false ↔ ∃ k, m.contains k = true := by
  rw [isEmpty, List.isEmpty_eq_false_iff_exists_mem]
  constructor
  · rintro ⟨e, he⟩
    exact ⟨e.1, mem_keys_iff.1 (List.mem_map_of_mem he)⟩
  · rintro ⟨k, hk⟩
    obtain ⟨e, he, -⟩ := List.mem_map.1 (mem_keys_iff.2 hk)
    exact ⟨e, he⟩

omit [DecidableEq κ] in
theorem nodup_keys (m : Keyed κ α) : m.keys.Nodup :=
  List.pairwise_map.2 (m.ascending.imp Key.ne_of_before)

theorem mem_of_get?_ofList {k : κ} {a : α} {l : List (κ × α)} (h : (ofList l).get? k = some a) :
    (k, a) ∈ l := by
  have : ∀ (l : List (κ × α)) (m : Keyed κ α),
      (l.foldl (fun m e => m.insert e.1 e.2) m).get? k = some a →
        (k, a) ∈ l ∨ m.get? k = some a := by
    intro l
    induction l with
    | nil => intro m h; exact .inr h
    | cons x xs ih =>
        intro m h
        rcases ih _ h with h | h
        · exact .inl (List.mem_cons_of_mem _ h)
        · rw [get?_insert] at h
          split at h
          case isTrue e =>
            obtain rfl := Option.some.inj h
            subst e
            exact .inl (List.mem_cons_self ..)
          case isFalse => exact .inr h
  rcases this l empty h with h | h
  · exact h
  · simp at h

theorem contains_ofList {k : κ} {l : List (κ × α)} :
    (ofList l).contains k = true ↔ k ∈ l.map (·.1) := by
  have : ∀ (l : List (κ × α)) (m : Keyed κ α),
      (l.foldl (fun m e => m.insert e.1 e.2) m).contains k = true ↔
        k ∈ l.map (·.1) ∨ m.contains k = true := by
    intro l
    induction l with
    | nil => intro m; simp
    | cons x xs ih =>
        intro m
        simp only [List.foldl_cons, ih, List.map_cons, List.mem_cons]
        by_cases e : x.1 = k
        · simp [contains, e]
        · have : k ≠ x.1 := fun h => e h.symm
          simp [contains, get?_insert, e, this]
  rw [ofList, this]
  simp [contains]

theorem ext {m m' : Keyed κ α} (h : ∀ k, m.get? k = m'.get? k) : m = m' := by
  have agree : ∀ (l l' : List (κ × α)),
      l.Pairwise (fun x y => Key.before x.1 y.1 = true) →
      l'.Pairwise (fun x y => Key.before x.1 y.1 = true) →
      (∀ e, e ∈ l ↔ e ∈ l') → l = l' := by
    intro l
    induction l with
    | nil =>
        intro l' _ _ h
        cases l' with
        | nil => rfl
        | cons y ys => exact absurd ((h y).2 (List.mem_cons_self ..)) (by simp)
    | cons x xs ih =>
        intro l' hl hl' h
        cases l' with
        | nil => exact absurd ((h x).1 (List.mem_cons_self ..)) (by simp)
        | cons y ys =>
            obtain ⟨hx, hxs⟩ := List.pairwise_cons.1 hl
            obtain ⟨hy, hys⟩ := List.pairwise_cons.1 hl'
            have exy : x = y := by
              rcases List.mem_cons.1 ((h x).1 (List.mem_cons_self ..)) with e | hxy
              · exact e
              rcases List.mem_cons.1 ((h y).2 (List.mem_cons_self ..)) with e | hyx
              · exact e.symm
              exact absurd (Key.trans (hx y hyx) (hy x hxy)) (by simp [Key.irrefl])
            subst exy
            have hrest : ∀ e, e ∈ xs ↔ e ∈ ys := by
              intro e
              constructor
              · intro he
                rcases List.mem_cons.1 ((h e).1 (List.mem_cons_of_mem _ he)) with rfl | hm
                · exact absurd (hx e he) (by simp [Key.irrefl])
                · exact hm
              · intro he
                rcases List.mem_cons.1 ((h e).2 (List.mem_cons_of_mem _ he)) with rfl | hm
                · exact absurd (hy e he) (by simp [Key.irrefl])
                · exact hm
            rw [ih ys hxs hys hrest]
  obtain ⟨l, hl⟩ := m
  obtain ⟨l', hl'⟩ := m'
  have e : l = l' := by
    refine agree l l' hl hl' ?_
    rintro ⟨k, a⟩
    have := h k
    exact ⟨fun hm => mem_of_find ((this.symm.trans (find_of_mem hl hm))),
      fun hm => mem_of_find ((this.trans (find_of_mem hl' hm)))⟩
  subst e
  rfl

def add (s : Keyed κ Unit) (k : κ) : Keyed κ Unit := s.insert k ()

theorem contains_add (s : Keyed κ Unit) (k k' : κ) :
    (s.add k).contains k' = (decide (k = k') || s.contains k') := contains_insert s k k' ()

def ofMembers (l : List κ) : Keyed κ Unit := ofList (l.map (·, ()))

end Keyed

instance {κ α : Type} [Key κ] : Inhabited (Keyed κ α) := ⟨.empty⟩

abbrev IdSet := Keyed String Unit

end Flowgraph
