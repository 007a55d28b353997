import Flowgraph.Engine.Advance
import Flowgraph.Engine.Lease
import Flowgraph.Json.Record

namespace Flowgraph

structure Config where
  lockPolicy : LockPolicy := .block
  lockTimeout : Option Nat := none
  recordHistory : Bool := true
  maxPasses : Option UInt32 := none
deriving DecidableEq, Repr

def LockPolicy.name : LockPolicy → String
  | .block => "block"
  | .failFast => "fail_fast"

def LockPolicy.ofName? : String → Option LockPolicy
  | "block" => some .block
  | "fail_fast" => some .failFast
  | _ => none

namespace Config

open Json

def options (c : Config) : Options :=
  { recordHistory := c.recordHistory, maxPasses := c.maxPasses }

def fields : List String := ["lock_policy", "lock_timeout_ms", "record_history", "max_passes"]

def ofJson? (c : Codec) (v : Json) : Option Config := do
  match ← c.slots? fields v with
  | [lockPolicy, lockTimeout, recordHistory, maxPasses] =>
      some {
        lockPolicy := ← lockPolicy.orElse (readName LockPolicy.ofName?) .block
        lockTimeout := ← lockTimeout.optionalOrNone readNat
        recordHistory := ← recordHistory.orElse readBool true
        maxPasses := ← maxPasses.optionalOrNone readUInt32 }
  | _ => none

def toJson (c : Config) : Json :=
  ofFields [
    ("lock_policy", .str c.lockPolicy.name),
    ("lock_timeout_ms", ofOption ofNat c.lockTimeout),
    ("record_history", .bool c.recordHistory),
    ("max_passes", ofOption ofUInt32 c.maxPasses)]

end Config

end Flowgraph
