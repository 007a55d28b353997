import Flowgraph.Json.Record
import Flowgraph.Proofs.Listing
import Flowgraph.Proofs.Moments

namespace Flowgraph.Json

variable {α : Type} {c : Codec} {k : String} {l l' : Fields}

theorem Codec.standard_lawful : Codec.standard.Lawful := ⟨fun _ _ => rfl, Moment.read_write⟩

def lastNamed (k : String) : Fields → Option Json
  | [] => none
  | e :: l => (lastNamed k l).or (if e.1 = k then some e.2 else none)

theorem find_foldl_put (k : String) (l fs : Fields) :
    Keyed.find k (l.foldl (fun fs e => Keyed.put e.1 e.2 fs) fs) =
      (lastNamed k l).or (Keyed.find k fs) := by
  induction l generalizing fs with
  | nil => rfl
  | cons e l ih =>
    rw [List.foldl_cons, ih, Keyed.find_put, lastNamed, Option.or_assoc]
    split <;> rfl

def Slot.ofOption (o : Option Json) : Slot := o.elim .absent .given

theorem slots_ofFields (hc : c.Lawful) (names : List String) (l : Fields) :
    c.slots? names (ofFields l) = some (names.map fun k => .ofOption (lastNamed k l)) := by
  rw [ofFields, hc.slots_obj]
  simp [slot, find_foldl_put, Slot.ofOption, Keyed.find]

@[simp] theorem lastNamed_nil : lastNamed k [] = none := rfl

@[simp] theorem lastNamed_cons (e : String × Json) :
    lastNamed k (e :: l) = (lastNamed k l).or (if e.1 = k then some e.2 else none) := rfl

@[simp] theorem lastNamed_append : lastNamed k (l ++ l') = (lastNamed k l').or (lastNamed k l) := by
  induction l with
  | nil => simp
  | cons e l ih => simp [ih, Option.or_assoc]

@[simp] theorem lastNamed_whenSome (k' : String) (write : α → Json) (o : Option α) :
    lastNamed k (whenSome k' write o) = if k' = k then o.map write else none := by
  cases o <;> simp [whenSome]

@[simp] theorem lastNamed_whenText (k' s : String) :
    lastNamed k (whenText k' s) =
      if k' = k then (if s = "" then none else some (.str s)) else none := by
  rw [whenText]
  by_cases h : s = "" <;> simp [h]

namespace Slot

variable {read : Json → Option α}

@[simp] theorem required_some (v : Json) : (ofOption (some v)).required read = read v := rfl

@[simp] theorem orElse_some (v : Json) (d : α) : (ofOption (some v)).orElse read d = read v := rfl

@[simp] theorem orElse_text (s : String) :
    (ofOption (if s = "" then none else some (.str s))).orElse readText "" = some s := by
  split
  case isTrue h => rw [h]; rfl
  case isFalse => rfl

theorem optionalOrNone_map (read : Json → Option α) (write : α → Json)
    (h : ∀ a, read (write a) = some a) (hnull : ∀ a, write a ≠ .null) (o : Option α) :
    (ofOption (o.map write)).optionalOrNone read = some o := by
  cases o with
  | none => rfl
  | some a =>
    have hgiven : readOptional read (write a) = (read (write a)).map some := by
      rw [readOptional]
      exact hnull a
    exact hgiven.trans (congrArg (Option.map some) (h a))

@[simp] theorem optionalOrNone_text (o : Option String) :
    (ofOption (o.map Json.str)).optionalOrNone readText = some o :=
  optionalOrNone_map readText Json.str (fun _ => rfl) (fun _ => nofun) o

end Slot

@[simp] theorem readText_str (s : String) : readText (.str s) = some s := rfl

@[simp] theorem readBool_bool (b : Bool) : readBool (.bool b) = some b := rfl

@[simp] theorem readNat_ofNat (n : Nat) : readNat (ofNat n) = some n := by
  simp [readNat, ofNat]

@[simp] theorem readUInt32_ofUInt32 (n : UInt32) : readUInt32 (ofUInt32 n) = some n := by
  have hlt := n.toNat_lt
  have hfits : IntRange.unsigned32.has n.toNat = true := by
    simp only [IntRange.has_iff, IntRange.unsigned32]
    omega
  simp [readUInt32, readInt, ofUInt32, hfits]

@[simp] theorem readUInt64_ofUInt64 (n : UInt64) : readUInt64 (ofUInt64 n) = some n := by
  have hlt := n.toNat_lt
  have hfits : IntRange.unsigned64.has n.toNat = true := by
    simp only [IntRange.has_iff, IntRange.unsigned64]
    omega
  simp [readUInt64, readInt, ofUInt64, hfits]

theorem Codec.Lawful.moment_ofMoment (hc : c.Lawful) (t : Moment) :
    c.moment? (c.ofMoment t) = some t := by
  rw [Codec.moment?, Codec.ofMoment, readText, Option.bind_some, hc.read_write]

@[simp] theorem readInt32_ofInt32 (n : Int32) : readInt32 (ofInt32 n) = some n := by
  have hlt := n.toInt_lt
  have hle := n.le_toInt
  have hfits : IntRange.signed32.has n.toInt = true := by
    simp only [IntRange.has_iff, IntRange.signed32]
    omega
  simp [readInt32, readInt, ofInt32, hfits]

theorem readList_map (read : Json → Option α) (write : α → Json) (f : α → α)
    (h : ∀ a, read (write a) = some (f a)) (l : List α) :
    readList read (.arr (l.map write)) = some (l.map f) := by
  rw [readList, List.mapM_map]
  induction l with
  | nil => rfl
  | cons a l ih => simp_all

theorem ofFields_eq (l : Fields) : ofFields l = .obj (Keyed.ofList l).entries := by
  have hfold : ∀ (l : Fields) (m : Keyed String Json),
      l.foldl (fun fs e => Keyed.put e.1 e.2 fs) m.entries =
        (l.foldl (fun m e => m.insert e.1 e.2) m).entries := by
    intro l
    induction l with
    | nil => exact fun _ => rfl
    | cons e l ih => exact fun m => ih (m.insert e.1 e.2)
  rw [ofFields, Keyed.ofList, ← hfold]
  rfl

@[simp] theorem readSet_ofSet (s : IdSet) : readSet (ofSet s) = some s := by
  have hkeys : readList readText (ofSet s) = some (s.keys.map id) :=
    readList_map readText .str id readText_str s.keys
  have hentries : s.keys.map (·, ()) = s.entries := by
    rw [Keyed.keys, List.map_map]
    exact List.map_id _
  rw [readSet, hkeys, List.map_id, Option.map_some, Keyed.ofMembers, hentries, Keyed.ofList_entries]

theorem readMap_ofMap (read : Json → Option α) (write : α → Json)
    (h : ∀ a, read (write a) = some a) (m : Keyed String α) :
    readMap read (ofMap write m) = some m := by
  have hwritten : ofMap write m = .obj (m.map write).entries := by
    rw [ofMap, ofFields_eq]
    exact congrArg (fun m : Keyed String Json => obj m.entries) (Keyed.ofList_entries (m.map write))
  have hread : (m.map write).entries.mapM (fun e => (read e.2).map (e.1, ·)) = some m.entries := by
    rw [Keyed.map, List.mapM_map]
    induction m.entries with
    | nil => rfl
    | cons e l ih => simp_all
  rw [hwritten, readMap, hread, Option.map_some, Keyed.ofList_entries]

end Flowgraph.Json
