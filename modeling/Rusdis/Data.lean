import Mathlib.Data.List.AList
import Mathlib.Logic.Function.Basic
import Rusdis.Resp
/-!
# Data — the state commands are executed in

`Server` holds what `execute_multi_commands` reads and writes: the command line, the replication info, the number of
replicas, the current database and the messages given to the broadcast channel.  A `HashMap` is an association list;
its order is not the source's, which is unspecified.
-/
namespace Rusdis

open Decimal (intText natText)

/-- A `SystemTime` in nanoseconds since the epoch; its seconds are an `i64`. -/
abbrev SystemTime := Int

/-- `now.checked_add(Duration::from_millis(mills))`. -/
def checkedAdd (now : SystemTime) (mills : UInt64) : Option SystemTime :=
  let fu := now + mills.toNat * 1000000
  if fu < 9223372036854775808 * 1000000000 then some fu else none

structure StringData where
  data : List Char
  expiration : Option SystemTime
  deriving DecidableEq, Repr

def StringData.isExpired (now : SystemTime) (d : StringData) : Bool :=
  match d.expiration with
  | some expiration => decide (expiration ≤ now)
  | none            => false

def StringData.setData (s : List Char) (d : StringData) : StringData := { d with data := s }

inductive ReplicaRole where
  | master
  | slave
  deriving DecidableEq, Repr

structure ReplicationInfo where
  role : ReplicaRole
  masterReplid : List Char
  masterReplOffset : UInt64
  deriving DecidableEq, Repr

/-- `increment_offset`; the sum wraps. -/
def ReplicationInfo.incrementOffset (num : UInt64) (r : ReplicationInfo) : ReplicationInfo :=
  { r with masterReplOffset := r.masterReplOffset + num }

structure Args where
  dir : Option (List Char)
  dbfilename : Option (List Char)
  port : Option (List Char)
  replicaof : Option (List Char)
  deriving DecidableEq, Repr

abbrev DataMap := AList (fun _ : List Char => StringData)

structure Server where
  args : Args
  replicationInfo : ReplicationInfo
  slavesCount : Nat
  map : DataMap
  broadcast : List (List Char)

def Server.start (role : ReplicaRole) (slavesCount : Nat) : Server :=
  { args := ⟨none, none, none, none⟩, replicationInfo := ⟨role, [], 0⟩, slavesCount, map := ∅, broadcast := [] }

def StringData.kept (d : StringData) : Option (List Char) :=
  match d.expiration with
  | none   => some d.data
  | some _ => none

/-- What `f` sees of each entry. -/
def view (f : StringData → Option (List Char)) (m : DataMap) (key : List Char) : Option (List Char) :=
  (m.lookup key).bind f

/-- The part of a map that never expires. -/
abbrev persistent (m : DataMap) : List Char → Option (List Char) := view StringData.kept m

abbrev texts (m : DataMap) : List Char → Option (List Char) := view (fun d => some d.data) m

theorem StringData.kept_of_none {d : StringData} (h : d.expiration = none) : d.kept = some d.data := by
  rw [StringData.kept, h]

theorem StringData.kept_of_ne {d : StringData} (h : d.expiration ≠ none) : d.kept = none := by
  obtain ⟨t, ht⟩ := Option.ne_none_iff_exists'.1 h
  rw [StringData.kept, ht]

theorem StringData.kept_setData (s : List Char) (d : StringData) : (d.setData s).kept = d.kept.map (fun _ => s) := by
  rw [StringData.kept, StringData.kept, StringData.setData]
  cases d.expiration <;> rfl

section
variable {f : StringData → Option (List Char)}

theorem view_of_lookup {m : DataMap} {key : List Char} {d : StringData} (h : m.lookup key = some d) :
    view f m key = f d := by rw [view, h, Option.bind_some]

theorem view_insert_self (m : DataMap) (key : List Char) (d : StringData) : view f (m.insert key d) key = f d :=
  view_of_lookup (AList.lookup_insert m)

theorem view_insert_ne {key key' : List Char} (h : key' ≠ key) (m : DataMap) (d : StringData) :
    view f (m.insert key d) key' = view f m key' := by
  rw [view, AList.lookup_insert_ne h, view]

theorem view_insert (m : DataMap) (key : List Char) (d : StringData) :
    view f (m.insert key d) = Function.update (view f m) key (f d) := by
  funext key'
  by_cases hk : key' = key
  · subst hk
    rw [view_insert_self, Function.update_self]
  · rw [view_insert_ne hk, Function.update_of_ne hk]

end

theorem persistent_erase {m : DataMap} {key : List Char} {d : StringData} (hd : m.lookup key = some d)
    (he : d.expiration ≠ none) : persistent (m.erase key) = persistent m := by
  funext key'
  by_cases hk : key' = key
  · subst hk
    rw [persistent, persistent, view_of_lookup hd, StringData.kept_of_ne he, view, AList.lookup_erase,
      Option.bind_none]
  · rw [persistent, persistent, view, view, AList.lookup_erase_ne hk]

end Rusdis
