import Rusdis.Data
/-!
# Execute — `execute_multi_commands`

`execute` is the body of its loop for one command, with the clock it reads; the arms that touch the map are
definitions of their own.  `Regex::new` and `is_match` are a parameter.
-/
namespace Rusdis

open Decimal (intText natText)
open Utf8 (byteLen)

def Server.store (key : List Char) (d : StringData) (σ : Server) : Server :=
  { σ with map := σ.map.insert key d }

def Server.propagate (cmd : Command) (σ : Server) : Server :=
  if σ.replicationInfo.role = .master ∧ σ.slavesCount ≠ 0 then
    { σ with broadcast := σ.broadcast ++ [generateResp cmd] }
  else σ

theorem propagate_map (cmd : Command) (σ : Server) : (σ.propagate cmd).map = σ.map := by
  unfold Server.propagate; split <;> rfl

/-- The expiration a `SET` gives its entry; none at all when the clock cannot hold it. -/
def setExpiration (now : SystemTime) : Option UInt64 → Option (Option SystemTime)
  | none       => some none
  | some mills => (checkedAdd now mills).map some

def executeSet (now : SystemTime) (key value : List Char) (px : Option UInt64) (σ : Server) : Server × List Char :=
  match setExpiration now px with
  | none            => (σ, "-ERR Instant Addtion Error".toList)
  | some expiration => ((σ.store key ⟨value, expiration⟩).propagate (.set key value px), "+OK\r\n".toList)

theorem executeSet_map {now : SystemTime} {px : Option UInt64} {e : Option SystemTime}
    (h : setExpiration now px = some e) (key value : List Char) (σ : Server) :
    (executeSet now key value px σ).1.map = σ.map.insert key ⟨value, e⟩ := by
  rw [executeSet, h]
  exact propagate_map _ _

def executeGet (now : SystemTime) (key : List Char) (σ : Server) : Server × List Char :=
  match σ.map.lookup key with
  | some d =>
    if d.isExpired now then ({ σ with map := σ.map.erase key }, "$-1\r\n".toList)
    else (σ, encodeBulk d.data)
  | none => (σ, "$-1\r\n".toList)

theorem executeGet_map (now : SystemTime) (key : List Char) (σ : Server) :
    (executeGet now key σ).1.map = σ.map ∨ ∃ key' d, σ.map.lookup key' = some d ∧ d.expiration ≠ none ∧
      (executeGet now key σ).1.map = σ.map.erase key' := by
  unfold executeGet
  split
  · rename_i d hd
    split
    · rename_i hexp
      refine Or.inr ⟨key, d, hd, fun he => ?_, rfl⟩
      rw [StringData.isExpired, he] at hexp
      cases hexp
    · exact Or.inl rfl
  · exact Or.inl rfl

theorem executeGet_broadcast (now : SystemTime) (key : List Char) (σ : Server) :
    (executeGet now key σ).1.broadcast = σ.broadcast := by
  unfold executeGet
  split
  · split <;> rfl
  · rfl

def executeKeys (regex : List Char → Option (List Char → Bool)) (patternString : List Char) (σ : Server) : List Char :=
  match regex patternString with
  | none         => "-ERR Invalid Regex Format".toList
  | some pattern =>
    let resVec := σ.map.keys.filter pattern
    ['*'] ++ natText resVec.length ++ crlf ++ resVec.flatMap encodeBulk

def parseI64 (s : List Char) : Except Decimal.IntErrorKind Int :=
  Decimal.readInt true (-9223372036854775808) 9223372036854775807 s

/-- `entry(key).or_insert(d)`: the map, and what it now holds for the key. -/
def orInsert (key : List Char) (d : StringData) (m : DataMap) : DataMap × StringData :=
  match m.lookup key with
  | some d => (m, d)
  | none   => (m.insert key d, d)

def executeIncr (key : List Char) (σ : Server) : Server × List Char :=
  let (map, d) := orInsert key ⟨['0'], none⟩ σ.map
  match parseI64 d.data with
  | .ok num =>
    let num := if num < 9223372036854775807 then num + 1 else num
    ({ σ with map := map.insert key (d.setData (intText num)) }, [':'] ++ intText num ++ crlf)
  | .error _ => ({ σ with map := map }, "-ERR value is not an integer or out of range\r\n".toList)

theorem lookup_executeIncr_ne {key key' : List Char} (hne : key ≠ key') (σ : Server) :
    (executeIncr key' σ).1.map.lookup key = σ.map.lookup key := by
  have hentry : (orInsert key' ⟨['0'], none⟩ σ.map).1.lookup key = σ.map.lookup key := by
    unfold orInsert
    split
    · rfl
    · exact AList.lookup_insert_ne hne
  unfold executeIncr
  simp only
  split
  · exact (AList.lookup_insert_ne hne).trans hentry
  · exact hentry

def roleText : ReplicaRole → List Char
  | .master => "master".toList
  | .slave  => "slave".toList

def infoText (r : ReplicationInfo) : InfoSection → List Char
  | .replication =>
    "role:".toList ++ roleText r.role ++ ['\n'] ++
      ("master_replid:".toList ++ r.masterReplid ++ ['\n']) ++
      ("master_repl_offset:".toList ++ natText r.masterReplOffset.toNat ++ ['\n'])

/-- The reply to `INFO`; with no section its counter wraps below zero. -/
def executeInfo (sections : List InfoSection) (σ : Server) : List Char :=
  let string := sections.flatMap (infoText σ.replicationInfo)
  let cnt := UInt64.ofNat (byteLen string) - 1
  ['$'] ++ natText cnt.toNat ++ crlf ++ (string.dropLast ++ crlf)

theorem toNat_ofNat_pred (n : Nat) : (UInt64.ofNat (n + 1) - 1).toNat = n ↔ n < 18446744073709551616 := by
  have hsub : UInt64.ofNat (n + 1) - 1 = UInt64.ofNat n := by
    rw [UInt64.ofNat_add]
    exact UInt64.add_sub_cancel _ _
  rw [hsub, UInt64.toNat_ofNat']
  exact Nat.mod_eq_iff_lt (by decide)

def configText (name : String) : Option (List Char) → List Char
  | some s => "*2\r\n".toList ++ encodeBulk name.toList ++ encodeBulk s
  | none   => "*2\r\n".toList ++ encodeBulk name.toList ++ "$-1\r\n".toList

def executeConfig : ConfigSubcommand → Args → List Char
  | .get .dir,        args => configText "dir" args.dir
  | .get .dbFilename, args => configText "dbfilename" args.dbfilename

def executeReplconf : ReplconfSubcommand → Server → List Char
  | .listeningPort _, _ => "+OK\r\n".toList
  | .capa _,          _ => "+OK\r\n".toList
  | .getack _,        σ =>
    "*3\r\n$8\r\nREPLCONF\r\n$3\r\nACK\r\n".toList ++ encodeBulk (natText σ.replicationInfo.masterReplOffset.toNat)
  | .ack _,           _ => []

section
variable (regex : List Char → Option (List Char → Bool))

/-- One command of `execute_multi_commands`: the state after it, and what it appends to the reply. -/
def execute (now : SystemTime) : Command → Server → Server × List Char
  | .ping,              σ => (σ, "+PONG\r\n".toList)
  | .echo words,        σ => (σ, ['+'] ++ words ++ crlf)
  | .config subcommand, σ => (σ, executeConfig subcommand σ.args)
  | .set key value px,  σ => executeSet now key value px σ
  | .get key,           σ => executeGet now key σ
  | .keys pattern,      σ => (σ, executeKeys regex pattern σ)
  | .incr key,          σ => executeIncr key σ
  | .info sections,     σ => (σ, executeInfo sections σ)
  | .replconf sub,      σ => (σ, executeReplconf sub σ)
  | .multi,             σ => (σ, "-ERR not supported command".toList)
  | .exec,              σ => (σ, "-ERR not supported command".toList)
  | .discard,           σ => (σ, "-ERR not supported command".toList)
  | .psync _ _,         σ => (σ, "-ERR not supported command".toList)

/-- **Every command keeps the arguments, the replication info and the number of replicas.** -/
theorem execute_frame (now : SystemTime) (cmd : Command) (σ : Server) :
    (execute regex now cmd σ).1.args = σ.args ∧ (execute regex now cmd σ).1.replicationInfo = σ.replicationInfo ∧
      (execute regex now cmd σ).1.slavesCount = σ.slavesCount := by
  cases cmd with
  | set key value px =>
    simp only [execute, executeSet]
    split
    · exact ⟨rfl, rfl, rfl⟩
    · unfold Server.propagate; split <;> exact ⟨rfl, rfl, rfl⟩
  | get key =>
    simp only [execute, executeGet]
    split
    · split <;> exact ⟨rfl, rfl, rfl⟩
    · exact ⟨rfl, rfl, rfl⟩
  | incr key =>
    simp only [execute, executeIncr]
    split <;> exact ⟨rfl, rfl, rfl⟩
  | _ => exact ⟨rfl, rfl, rfl⟩

def executeAll : List (SystemTime × Command) → Server → Server × List Char
  | [],               σ => (σ, [])
  | (now, cmd) :: cs, σ =>
    let (σ, reply) := execute regex now cmd σ
    let (σ, replies) := executeAll cs σ
    (σ, reply ++ replies)

def executeMultiCommands (commands : List (SystemTime × Command)) (isMulti : Bool) (σ : Server) : Server × List Char :=
  let (σ, replies) := executeAll regex commands σ
  (σ, (if isMulti then ['*'] ++ natText commands.length ++ crlf else []) ++ replies)

/-- A `SET` whose expiry the clock can hold. -/
def Holdable : SystemTime × Command → Prop
  | (now, .set _ _ px) => setExpiration now px ≠ none
  | _                  => False

theorem Holdable.isSet {now : SystemTime} {cmd : Command} (h : Holdable (now, cmd)) : IsSet cmd := by
  cases cmd with
  | set key value px => exact ⟨key, value, px, rfl⟩
  | _ => exact absurd h id

theorem execute_holdable {now : SystemTime} {key value : List Char} {px : Option UInt64} (σ : Server)
    (h : Holdable (now, .set key value px)) : ∃ e, setExpiration now px = some e ∧
      (execute regex now (.set key value px) σ).1.map = σ.map.insert key ⟨value, e⟩ := by
  obtain ⟨e, he⟩ := Option.ne_none_iff_exists'.1 h
  exact ⟨e, he, executeSet_map he key value σ⟩

end

end Rusdis
