import Flowgraph.Instance.Basic

namespace Flowgraph

inductive LockPolicy where
  | block
  | failFast
deriving DecidableEq, Repr

structure Leases where
  held : IdSet
deriving DecidableEq, Repr

inductive Leases.Attempt where
  | granted (leases : Leases)
  | refused
  | waiting
deriving DecidableEq, Repr

namespace Leases

def empty : Leases := ⟨.empty⟩

def isHeld (l : Leases) (id : InstanceId) : Bool := l.held.contains id

def attempt (l : Leases) (policy : LockPolicy) (id : InstanceId) : Attempt :=
  if l.isHeld id then
    match policy with
    | .failFast => .refused
    | .block => .waiting
  else .granted ⟨l.held.add id⟩

def release (l : Leases) (id : InstanceId) : Leases := ⟨l.held.erase id⟩

def acquire? (l : Leases) (policy : LockPolicy) (id : InstanceId) : Option Leases :=
  match l.attempt policy id with
  | .granted l => some l
  | _ => none

end Leases

end Flowgraph
