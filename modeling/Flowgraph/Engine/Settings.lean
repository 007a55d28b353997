import Flowgraph.Engine.Config
import Flowgraph.Toml.Reader

namespace Flowgraph

namespace Toml

def isEmptyValue : Toml → Bool
  | .table _ es => es.isEmpty
  | .arr l => l.isEmpty
  | .tables l => l.isEmpty
  | _ => false

def readName {α : Type} (named : String → Option α) : Toml → Option α
  | .str s => named s
  | .table _ [(s, v)] => if isEmptyValue v then named s else none
  | _ => none

def readBool : Toml → Option Bool
  | .bool b => some b
  | _ => none

def readNat : Toml → Option Nat
  | .int n => if 0 ≤ n then some n.toNat else none
  | _ => none

def readUInt32 (v : Toml) : Option UInt32 :=
  (readNat v).bind fun n => if IntRange.unsigned32.has n then some (UInt32.ofNat n) else none

def setting {α : Type} (es : Entries) (k : String) (read : Toml → Option α) (d : α) : Option α :=
  match Keyed.find k es with
  | none => some d
  | some v => read v

end Toml

namespace Config

def ofEntries? (es : Toml.Entries) : Option Config := do
  some {
    lockPolicy := ← Toml.setting es "lock_policy" (Toml.readName LockPolicy.ofName?) .block
    lockTimeout := ← Toml.setting es "lock_timeout_ms" (fun v => (Toml.readNat v).map some) none
    recordHistory := ← Toml.setting es "record_history" Toml.readBool true
    maxPasses := ← Toml.setting es "max_passes" (fun v => (Toml.readUInt32 v).map some) none }

def ofToml? (s : String) : Option Config := (Toml.read s).bind ofEntries?

def ofFile? : Option ByteArray → Option Config
  | none => some {}
  | some bytes => (String.fromUTF8? bytes).bind ofToml?

end Config

end Flowgraph
