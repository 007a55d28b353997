import Flowgraph.Proofs.Run.Context

namespace Flowgraph.Json

inductive Canonical : Json → Prop
  | null : Canonical .null
  | bool (b : Bool) : Canonical (.bool b)
  | int (n : Int) : Canonical (.int n)
  | float (x : Binary64) : Canonical (.float x)
  | str (s : String) : Canonical (.str s)
  | arr {items : List Json} (values : ∀ v ∈ items, Canonical v) : Canonical (.arr items)
  | obj {fields : Fields} (ascending : Ascending fields)
      (values : ∀ f ∈ fields, Canonical f.2) : Canonical (.obj fields)

def isObject : Json → Bool
  | .obj _ => true
  | _ => false

def at? : List String → Json → Option Json
  | [], v => some v
  | k :: p, v => (v.field? k).bind (at? p)

def fieldsOf : Option Json → Fields
  | some (.obj fields) => fields
  | _ => []

variable {c v w fields : Fields} {x y : Json} {old : Option Json} {k : String} {p : List String}

theorem fields_ext (hv : Ascending v) (hw : Ascending w)
    (h : ∀ k, Keyed.find k v = Keyed.find k w) : v = w := by
  have hsame : (⟨v, hv⟩ : Keyed String Json) = ⟨w, hw⟩ := Keyed.ext h
  exact congrArg Keyed.entries hsame

theorem Canonical.ascending (h : Canonical (.obj v)) : Ascending v := by
  cases h with
  | obj ascending => exact ascending

theorem Canonical.find (h : Canonical (.obj v)) (hk : Keyed.find k v = some x) : Canonical x := by
  cases h with
  | obj _ values => exact values (k, x) (Keyed.mem_of_find hk)

theorem Canonical.nil : Canonical (.obj []) := .obj .nil (by simp)

theorem Canonical.cons (hx : Canonical x) (hk : ∀ f ∈ v, Key.before k f.1 = true)
    (hv : Canonical (.obj v)) : Canonical (.obj ((k, x) :: v)) := by
  cases hv with
  | obj ascending values =>
    exact .obj (List.pairwise_cons.2 ⟨hk, ascending⟩) (List.forall_mem_cons.2 ⟨hx, values⟩)

theorem canonical_fieldsOf (h : ∀ y, old = some y → Canonical y) :
    Canonical (.obj (fieldsOf old)) := by
  rcases old with _ | _ | _ | _ | _ | _ | _ | fields
  case some.obj => exact h _ rfl
  all_goals exact .nil

theorem find_mergeFields (hv : Ascending v) (c : Fields) (k : String) :
    Keyed.find k (mergeFields c v) =
      ((Keyed.find k v).map (mergeValue (Keyed.find k c))).or (Keyed.find k c) := by
  induction v generalizing c with
  | nil => rw [mergeFields, Keyed.find, Option.map_none, Option.none_or]
  | cons f v ih =>
    obtain ⟨hf, hrest⟩ := List.pairwise_cons.1 hv
    rw [mergeFields, ih hrest, Keyed.find_put, Keyed.find]
    by_cases e : f.1 = k
    · have hfree : Keyed.find k v = none := by
        refine Option.eq_none_iff_forall_ne_some.2 fun y hy => ?_
        exact Key.ne_of_before (hf _ (Keyed.mem_of_find hy)) e
      simp [e, hfree]
    · simp [e]

theorem mergeValue_none (x : Json) : mergeValue none x = x := by
  cases x <;> simp only [mergeValue]

theorem mergeFields_nil (hv : Ascending v) : mergeFields [] v = v := by
  refine fields_ext (mergeFields_ascending .nil v) hv fun k => ?_
  rw [find_mergeFields hv, Keyed.find, funext mergeValue_none, Option.map_id', Option.or_none]

theorem mergeValue_obj (hv : Ascending v) (old : Option Json) :
    mergeValue old (.obj v) = .obj (mergeFields (fieldsOf old) v) := by
  rcases old with _ | _ | _ | _ | _ | _ | _ | fields
  case some.obj => simp only [mergeValue, fieldsOf]
  all_goals simp only [mergeValue, fieldsOf, mergeFields_nil hv]

theorem mergeValue_of_not_object (h : x.isObject = false) (old : Option Json) :
    mergeValue old x = x := by
  cases x with
  | obj fields => cases h
  | _ => simp only [mergeValue]

theorem canonical_mergeFields (hc : Canonical (.obj c)) (hv : Ascending v)
    (h : ∀ k x, Keyed.find k v = some x → Canonical (mergeValue (Keyed.find k c) x)) :
    Canonical (.obj (mergeFields c v)) := by
  have hmerged := mergeFields_ascending hc.ascending v
  refine .obj hmerged fun f hf => ?_
  have hfind := Keyed.find_of_mem hmerged hf
  rw [find_mergeFields hv] at hfind
  cases hk : Keyed.find f.1 v with
  | none =>
    rw [hk, Option.map_none, Option.none_or] at hfind
    exact hc.find hfind
  | some x =>
    rw [hk, Option.map_some, Option.some_or, Option.some.injEq] at hfind
    rw [← hfind]
    exact h f.1 x hk

theorem canonical_mergeValue (hx : Canonical x) (hold : ∀ y, old = some y → Canonical y) :
    Canonical (mergeValue old x) := by
  induction hx generalizing old with
  | @obj fields ascending values ih =>
    rw [mergeValue_obj ascending]
    have hbase := canonical_fieldsOf hold
    refine canonical_mergeFields hbase ascending fun k y hy => ?_
    exact ih (k, y) (Keyed.mem_of_find hy) fun z hz => hbase.find hz
  | arr values =>
    rw [mergeValue_of_not_object rfl]
    exact .arr values
  | _ =>
    rw [mergeValue_of_not_object rfl]
    constructor

theorem mergeFields_again (hc : Ascending c) (hv : Ascending v)
    (h : ∀ k x, Keyed.find k v = some x →
      mergeValue (some (mergeValue (Keyed.find k c) x)) x = mergeValue (Keyed.find k c) x) :
    mergeFields (mergeFields c v) v = mergeFields c v := by
  have hmerged := mergeFields_ascending hc v
  refine fields_ext (mergeFields_ascending hmerged v) hmerged fun k => ?_
  rw [find_mergeFields hv, find_mergeFields hv]
  cases hk : Keyed.find k v with
  | none => rfl
  | some x => exact congrArg some (h k x hk)

theorem mergeValue_again (hx : Canonical x) (hold : ∀ y, old = some y → Canonical y) :
    mergeValue (some (mergeValue old x)) x = mergeValue old x := by
  induction hx generalizing old with
  | @obj fields ascending values ih =>
    rw [mergeValue_obj ascending, mergeValue_obj ascending]
    have hbase := canonical_fieldsOf hold
    refine congrArg obj (mergeFields_again hbase.ascending ascending fun k y hy => ?_)
    exact ih (k, y) (Keyed.mem_of_find hy) fun z hz => hbase.find hz
  | _ => rw [mergeValue_of_not_object rfl, mergeValue_of_not_object rfl]

theorem at?_cons (k : String) (p : List String) (v : Fields) :
    (Json.obj v).at? (k :: p) = (Keyed.find k v).bind (at? p) := rfl

theorem at?_cons_fieldsOf (old : Option Json) (hp : p ≠ []) :
    (Json.obj (fieldsOf old)).at? p = old.bind (at? p) := by
  obtain ⟨k, p, rfl⟩ := List.exists_cons_of_ne_nil hp
  rcases old with _ | _ | _ | _ | _ | _ | _ | fields <;> rfl

theorem at?_mergeFields_of_scalar (hv : Canonical (.obj v)) (h : (Json.obj v).at? p = some x)
    (hx : x.isObject = false) (c : Fields) : (Json.obj (mergeFields c v)).at? p = some x := by
  induction p generalizing c v with
  | nil =>
    cases h
    cases hx
  | cons k p ih =>
    rw [at?_cons, Option.bind_eq_some_iff] at h
    obtain ⟨y, hk, hy⟩ := h
    rw [at?_cons, find_mergeFields hv.ascending, hk, Option.map_some, Option.some_or,
      Option.bind_some]
    cases y with
    | obj inner =>
      have hinner := hv.find hk
      rw [mergeValue_obj hinner.ascending]
      exact ih hinner hy _
    | _ =>
      rw [mergeValue_of_not_object rfl]
      exact hy

theorem at?_mergeFields_of_silent (hv : Canonical (.obj v)) (h : (Json.obj v).at? p = none)
    (hleft : ∀ q x, q <+: p → q ≠ p → (Json.obj v).at? q = some x → x.isObject = true)
    (c : Fields) : (Json.obj (mergeFields c v)).at? p = (Json.obj c).at? p := by
  induction p generalizing c v with
  | nil => cases h
  | cons k p ih =>
    rw [at?_cons] at h
    rw [at?_cons, at?_cons, find_mergeFields hv.ascending]
    cases hk : Keyed.find k v with
    | none => rfl
    | some y =>
      rw [hk, Option.bind_some] at h
      have hp : p ≠ [] := by
        rintro rfl
        cases h
      have hat : ∀ q, (Json.obj v).at? (k :: q) = y.at? q := fun q => by
        rw [at?_cons, hk, Option.bind_some]
      have hobject : y.isObject = true :=
        hleft [k] y (by simp) (by simpa using hp.symm) (hat [])
      cases y with
      | obj inner =>
        have hinner := hv.find hk
        rw [Option.map_some, Option.some_or, Option.bind_some, mergeValue_obj hinner.ascending,
          ← at?_cons_fieldsOf _ hp]
        refine ih hinner h (fun q x hq hne hx => ?_) _
        refine hleft (k :: q) x (List.cons_prefix_cons.2 ⟨rfl, hq⟩) (by simpa using hne) ?_
        rw [hat, hx]
      | _ => cases hobject

theorem mergeFields_comm (hc : Ascending c) (hv : Ascending v) (hw : Ascending w)
    (h : ∀ k, Keyed.find k v = none ∨ Keyed.find k w = none) :
    mergeFields (mergeFields c v) w = mergeFields (mergeFields c w) v := by
  refine fields_ext (mergeFields_ascending (mergeFields_ascending hc v) w)
    (mergeFields_ascending (mergeFields_ascending hc w) v) fun k => ?_
  rw [find_mergeFields hw, find_mergeFields hv, find_mergeFields hv, find_mergeFields hw]
  rcases h k with hk | hk <;> simp [hk]

theorem merge_laws (hc : Canonical (.obj c)) (hv : Canonical (.obj v)) (hw : Canonical (.obj w)) :
    Canonical (.obj (merge c (.obj v))) ∧
      merge (merge c (.obj v)) (.obj v) = merge c (.obj v) ∧
      (∀ x : Json, x.isObject = false → merge c x = c) ∧ merge c (.obj []) = c ∧
      (∀ p x, (Json.obj v).at? p = some x → x.isObject = false →
        (Json.obj (merge c (.obj v))).at? p = some x) ∧
      (∀ p, (Json.obj v).at? p = none →
        (∀ q x, q <+: p → q ≠ p → (Json.obj v).at? q = some x → x.isObject = true) →
        (Json.obj (merge c (.obj v))).at? p = (Json.obj c).at? p) ∧
      ((∀ k ∈ v.map (·.1), k ∉ w.map (·.1)) →
        merge (merge c (.obj v)) (.obj w) = merge (merge c (.obj w)) (.obj v)) := by
  have hfields : ∀ c v, merge c (.obj v) = mergeFields c v := fun c v => rfl
  simp only [hfields]
  refine ⟨?_, ?_, fun x hx => ?_, ?_, fun p x h hx => at?_mergeFields_of_scalar hv h hx c,
    fun p h hleft => at?_mergeFields_of_silent hv h hleft c, fun hapart => ?_⟩
  · refine canonical_mergeFields hc hv.ascending fun k x hk => ?_
    exact canonical_mergeValue (hv.find hk) fun y hy => hc.find hy
  · refine mergeFields_again hc.ascending hv.ascending fun k x hk => ?_
    exact mergeValue_again (hv.find hk) fun y hy => hc.find hy
  · cases x with
    | obj fields => cases hx
    | _ => rfl
  · rw [mergeFields]
  · refine mergeFields_comm hc.ascending hv.ascending hw.ascending fun k => ?_
    rcases hx : Keyed.find k v with _ | x
    · exact .inl rfl
    · refine .inr (Option.eq_none_iff_forall_ne_some.2 fun y hy => ?_)
      exact hapart k (List.mem_map_of_mem (Keyed.mem_of_find hx))
        (List.mem_map_of_mem (Keyed.mem_of_find hy))

def order : Fields := [
  ("buyer", .obj [("address", .obj [("city", .str "Rome")]), ("name", .str "Ann")]),
  ("total", .int 10)]

def offer : Fields := [
  ("buyer", .obj [("address", .str "unknown"), ("rank", .int 2)]),
  ("total", .obj [("net", .int 8)])]

def shipping : Fields := [("carrier", .null)]

theorem canonical_order : Canonical (.obj order) :=
  .cons
    (.cons (.cons (.str "Rome") (by simp) .nil) (by decide +kernel)
      (.cons (.str "Ann") (by simp) .nil))
    (by decide +kernel) (.cons (.int 10) (by simp) .nil)

theorem canonical_offer : Canonical (.obj offer) :=
  .cons
    (.cons (.str "unknown") (by decide +kernel) (.cons (.int 2) (by simp) .nil))
    (by decide +kernel) (.cons (.cons (.int 8) (by simp) .nil) (by simp) .nil)

theorem canonical_shipping : Canonical (.obj shipping) := .cons .null (by simp) .nil

theorem merge_laws_order :
    Canonical (.obj order) ∧ Canonical (.obj offer) ∧ Canonical (.obj shipping) ∧
      merge (merge order (.obj offer)) (.obj offer) = merge order (.obj offer) ∧
      (Json.obj (merge order (.obj offer))).at? ["buyer", "address"] = some (.str "unknown") ∧
      (Json.obj (merge order (.obj offer))).at? ["buyer", "name"] = some (.str "Ann") ∧
      merge (merge order (.obj offer)) (.obj shipping) =
        merge (merge order (.obj shipping)) (.obj offer) := by
  obtain ⟨-, htwice, -, -, hset, hkept, hcomm⟩ :=
    merge_laws canonical_order canonical_offer canonical_shipping
  refine ⟨canonical_order, canonical_offer, canonical_shipping, htwice, hset _ _ rfl rfl, ?_,
    hcomm (by decide +kernel)⟩
  refine hkept ["buyer", "name"] rfl fun q x hq hne hx => ?_
  rcases List.prefix_cons_iff.1 hq with rfl | ⟨q', rfl, hq'⟩
  · cases hx
    rfl
  rcases List.prefix_cons_iff.1 hq' with rfl | ⟨q'', rfl, hnil⟩
  · cases hx
    rfl
  · rw [List.prefix_nil.1 hnil] at hne
    exact absurd rfl hne

end Flowgraph.Json
