import Flowgraph.Json.Basic
import Flowgraph.Moment
import Flowgraph.Number.Range

namespace Flowgraph.Json

inductive Slot where
  | given (v : Json)
  | absent
  | cut

def slot (fs : Fields) (k : String) : Slot := (Keyed.find k fs).elim .absent .given

def slots? (names : List String) : Json → Option (List Slot)
  | .obj fs => some (names.map (slot fs))
  | .arr items =>
      if names.length < items.length then none
      else some (items.map .given ++ List.replicate (names.length - items.length) .cut)
  | _ => none

namespace Slot

variable {α : Type}

def required (read : Json → Option α) : Slot → Option α
  | .given v => read v
  | _ => none

def orElse (read : Json → Option α) (d : α) : Slot → Option α
  | .given v => read v
  | _ => some d

def readOptional (read : Json → Option α) : Json → Option (Option α)
  | .null => some none
  | v => (read v).map some

def optional (read : Json → Option α) : Slot → Option (Option α)
  | .given v => readOptional read v
  | .absent => some none
  | .cut => none

def optionalOrNone (read : Json → Option α) : Slot → Option (Option α)
  | .given v => readOptional read v
  | _ => some none

end Slot

def readText : Json → Option String
  | .str s => some s
  | _ => none

def readBool : Json → Option Bool
  | .bool b => some b
  | _ => none

def readInt (r : IntRange) : Json → Option Int
  | .int n => if r.has n then some n else none
  | _ => none

def readNat : Json → Option Nat
  | .int n => if 0 ≤ n then some n.toNat else none
  | _ => none

def readUInt32 (v : Json) : Option UInt32 :=
  (readInt .unsigned32 v).map fun n => UInt32.ofNat n.toNat

def readUInt64 (v : Json) : Option UInt64 :=
  (readInt .unsigned64 v).map fun n => UInt64.ofNat n.toNat

def readInt32 (v : Json) : Option Int32 := (readInt .signed32 v).map Int32.ofInt

def readInt64 : Json → Option Int := readInt .signed64

def readList {α : Type} (read : Json → Option α) : Json → Option (List α)
  | .arr items => items.mapM read
  | _ => none

def readSet : Json → Option IdSet := fun v => (readList readText v).map .ofMembers

def readMap {α : Type} (read : Json → Option α) : Json → Option (Keyed String α)
  | .obj fs => (fs.mapM fun (e : String × Json) => (read e.2).map (e.1, ·)).map .ofList
  | _ => none

structure Codec where
  slots? : List String → Json → Option (List Slot)
  writeMoment : Moment → String
  readMoment : String → Option Moment

structure Codec.Lawful (c : Codec) : Prop where
  slots_obj (names : List String) (fs : Fields) :
    c.slots? names (.obj fs) = some (names.map (slot fs))
  read_write (t : Moment) : c.readMoment (c.writeMoment t) = some t

def Codec.standard : Codec where
  slots? := Json.slots?
  writeMoment := Moment.write
  readMoment := Moment.read

def Codec.moment? (c : Codec) (v : Json) : Option Moment := (readText v).bind c.readMoment

def Codec.ofMoment (c : Codec) (t : Moment) : Json := .str (c.writeMoment t)

def readName {α : Type} (named : String → Option α) : Json → Option α
  | .str s => named s
  | .obj [(s, .null)] => named s
  | _ => none

def ofOption {α : Type} (write : α → Json) : Option α → Json
  | none => .null
  | some a => write a

def ofUInt32 (n : UInt32) : Json := .int n.toNat

def ofUInt64 (n : UInt64) : Json := .int n.toNat

def ofInt32 (n : Int32) : Json := .int n.toInt

def ofNat (n : Nat) : Json := .int n

def ofSet (s : IdSet) : Json := .arr (s.keys.map .str)

def ofMap {α : Type} (write : α → Json) (m : Keyed String α) : Json :=
  ofFields (m.entries.map fun (k, a) => (k, write a))

def whenSome {α : Type} (k : String) (write : α → Json) : Option α → List (String × Json)
  | none => []
  | some a => [(k, write a)]

def whenText (k : String) (s : String) : List (String × Json) :=
  if s.isEmpty then [] else [(k, .str s)]

end Flowgraph.Json
