import Rusdis.Execute
/-!
# Checked — `execute_multi_commands` with every number in range

`checkedExecute` is `execute` with every sum and difference checked, as in a build that stops at an overflow.  It
completes on the commands that count up from nothing below zero or past the largest length, which of the accepted ones
are all but some `INFO`s (`completes_iff`); where it completes it is `execute` (`checkedMultiCommands_eq`).
-/
namespace Rusdis

open Fallible (bind_eq_ok)
open Decimal (intText natText)
open Utf8 (byteLen byteLen_append)

/-! ## Sums and differences -/

def addUsize (a b : Nat) : Option Nat := if a + b < 18446744073709551616 then some (a + b) else none

def subUsize (a b : Nat) : Option Nat := if b ≤ a then some (a - b) else none

def addI64 (a b : Int) : Option Int :=
  if -9223372036854775808 ≤ a + b ∧ a + b ≤ 9223372036854775807 then some (a + b) else none

/-! ## The executor -/

/-- One section of an `INFO`, its lines counted one by one. -/
def checkedSection (r : ReplicationInfo) : InfoSection → List Char × Nat → Option (List Char × Nat)
  | .replication, (string, cnt) => do
    let role := "role:".toList ++ roleText r.role ++ ['\n']
    let cnt ← addUsize cnt (byteLen role)
    let masterReplid := "master_replid:".toList ++ r.masterReplid ++ ['\n']
    let cnt ← addUsize cnt (byteLen masterReplid)
    let masterReplOffset := "master_repl_offset:".toList ++ natText r.masterReplOffset.toNat ++ ['\n']
    let cnt ← addUsize cnt (byteLen masterReplOffset)
    return (string ++ (role ++ masterReplid ++ masterReplOffset), cnt)

def checkedSections (r : ReplicationInfo) : List InfoSection → List Char × Nat → Option (List Char × Nat)
  | [],                  acc => some acc
  | section_ :: sections, acc => do checkedSections r sections (← checkedSection r section_ acc)

def checkedInfo (sections : List InfoSection) (σ : Server) : Option (List Char) := do
  let (string, cnt) ← checkedSections σ.replicationInfo sections ([], 0)
  let cnt ← subUsize cnt 1
  return ['$'] ++ natText cnt ++ crlf ++ (string.dropLast ++ crlf)

def checkedIncr (key : List Char) (σ : Server) : Option (Server × List Char) :=
  let (map, d) := orInsert key ⟨['0'], none⟩ σ.map
  match parseI64 d.data with
  | .ok num => do
    let num ← if num < 9223372036854775807 then addI64 num 1 else some num
    return ({ σ with map := map.insert key (d.setData (intText num)) }, [':'] ++ intText num ++ crlf)
  | .error _ => some ({ σ with map := map }, "-ERR value is not an integer or out of range\r\n".toList)

section
variable (regex : List Char → Option (List Char → Bool))

/-- The arms that add or subtract checked; a `SET` adds with `checked_add` only, the others not at all. -/
def checkedExecute (now : SystemTime) (cmd : Command) (σ : Server) : Option (Server × List Char) :=
  match cmd with
  | .incr key      => checkedIncr key σ
  | .info sections => do return (σ, ← checkedInfo sections σ)
  | cmd            => some (execute regex now cmd σ)

def checkedAll : List (SystemTime × Command) → Server → Option (Server × List Char)
  | [],               σ => some (σ, [])
  | (now, cmd) :: cs, σ => do
    let (σ, reply) ← checkedExecute regex now cmd σ
    let (σ, replies) ← checkedAll cs σ
    return (σ, reply ++ replies)

def checkedMultiCommands (commands : List (SystemTime × Command)) (isMulti : Bool) (σ : Server) :
    Option (Server × List Char) := do
  let (σ, replies) ← checkedAll regex commands σ
  return (σ, (if isMulti then ['*'] ++ natText commands.length ++ crlf else []) ++ replies)

end

/-! ## When a command completes -/

/-- What an `INFO` says has bytes, and no more of them than a `usize` counts. -/
def InRange (r : ReplicationInfo) : Command → Prop
  | .info sections =>
    0 < byteLen (sections.flatMap (infoText r)) ∧ byteLen (sections.flatMap (infoText r)) < 18446744073709551616
  | _ => True

theorem addUsize_bind {α : Type} {a b : Nat} {f : Nat → Option α} {r : α} :
    (addUsize a b).bind f = some r ↔ a + b < 18446744073709551616 ∧ f (a + b) = some r := by
  unfold addUsize
  split
  · rename_i h
    exact ⟨fun hr => ⟨h, hr⟩, fun hr => hr.2⟩
  · rename_i h
    exact ⟨nofun, fun hr => absurd hr.1 h⟩

theorem checkedSection_eq_some {r : ReplicationInfo} {s : InfoSection} {string : List Char} {cnt : Nat}
    {acc : List Char × Nat} : checkedSection r s (string, cnt) = some acc ↔
      cnt + byteLen (infoText r s) < 18446744073709551616 ∧
        acc = (string ++ infoText r s, cnt + byteLen (infoText r s)) := by
  cases s with
  | replication =>
    unfold checkedSection infoText
    dsimp only
    generalize "role:".toList ++ roleText r.role ++ ['\n'] = role
    generalize "master_replid:".toList ++ r.masterReplid ++ ['\n'] = masterReplid
    generalize "master_repl_offset:".toList ++ natText r.masterReplOffset.toNat ++ ['\n'] = masterReplOffset
    rw [byteLen_append, byteLen_append]
    simp only [Option.bind_eq_bind, addUsize_bind, Option.pure_def, Option.some.injEq, Nat.add_assoc]
    constructor
    · rintro ⟨-, -, h, rfl⟩
      refine ⟨by omega, ?_⟩
      rfl
    · rintro ⟨h, rfl⟩
      exact ⟨by omega, by omega, h, rfl⟩

theorem checkedSections_eq_some {r : ReplicationInfo} : ∀ (sections : List InfoSection) (string : List Char) (cnt : Nat)
    (acc : List Char × Nat), cnt < 18446744073709551616 → (checkedSections r sections (string, cnt) = some acc ↔
      cnt + byteLen (sections.flatMap (infoText r)) < 18446744073709551616 ∧
        acc = (string ++ sections.flatMap (infoText r), cnt + byteLen (sections.flatMap (infoText r))))
  | [], string, cnt, acc, hcnt => by
    rw [checkedSections, List.flatMap_nil, List.append_nil, Utf8.byteLen_nil, Nat.add_zero, Option.some.injEq]
    exact ⟨fun h => ⟨hcnt, h.symm⟩, fun h => h.2.symm⟩
  | s :: sections, string, cnt, acc, _ => by
    rw [checkedSections, Option.bind_eq_bind, Option.bind_eq_some_iff, List.flatMap_cons, byteLen_append]
    constructor
    · rintro ⟨acc', hs, h⟩
      obtain ⟨hlt, rfl⟩ := checkedSection_eq_some.1 hs
      obtain ⟨hlt', rfl⟩ := (checkedSections_eq_some sections _ _ acc hlt).1 h
      exact ⟨by omega, by rw [List.append_assoc, Nat.add_assoc]⟩
    · rintro ⟨hlt, rfl⟩
      have hfirst : cnt + byteLen (infoText r s) < 18446744073709551616 := by omega
      refine ⟨_, checkedSection_eq_some.2 ⟨hfirst, rfl⟩, ?_⟩
      rw [checkedSections_eq_some sections _ _ _ hfirst, List.append_assoc, Nat.add_assoc]
      exact ⟨hlt, rfl⟩

theorem toNat_ofNat_sub_one {n : Nat} (h0 : 0 < n) (h : n < 18446744073709551616) :
    (UInt64.ofNat n - 1).toNat = n - 1 := by
  obtain ⟨m, rfl⟩ := Nat.exists_eq_succ_of_ne_zero (Nat.ne_of_gt h0)
  exact (toNat_ofNat_pred m).2 (by omega)

theorem checkedInfo_eq_some {sections : List InfoSection} {σ : Server} {reply : List Char} :
    checkedInfo sections σ = some reply ↔
      InRange σ.replicationInfo (.info sections) ∧ reply = executeInfo sections σ := by
  unfold checkedInfo executeInfo InRange
  rw [Option.bind_eq_bind, Option.bind_eq_some_iff]
  constructor
  · rintro ⟨acc, hacc, h⟩
    obtain ⟨hlt, rfl⟩ := (checkedSections_eq_some sections [] 0 acc (by decide)).1 hacc
    rw [List.nil_append, Nat.zero_add] at h
    rw [Nat.zero_add] at hlt
    obtain ⟨cnt, hcnt, he⟩ := Option.bind_eq_some_iff.1 h
    obtain ⟨hpos, hsub⟩ := Option.ite_none_right_eq_some.1 hcnt
    cases Option.some.inj hsub
    refine ⟨⟨hpos, hlt⟩, ?_⟩
    dsimp only
    rw [toNat_ofNat_sub_one hpos hlt]
    exact (Option.some.inj he).symm
  · rintro ⟨⟨hpos, hlt⟩, rfl⟩
    refine ⟨_, (checkedSections_eq_some sections [] 0 _ (by decide)).2 ⟨by rwa [Nat.zero_add], rfl⟩, ?_⟩
    rw [List.nil_append, Nat.zero_add]
    simp only [subUsize, if_pos (Nat.succ_le_of_lt hpos), Option.bind_eq_bind, Option.bind_some,
      toNat_ofNat_sub_one hpos hlt]
    rfl

theorem checkedIncr_eq (key : List Char) (σ : Server) : checkedIncr key σ = some (executeIncr key σ) := by
  unfold checkedIncr executeIncr
  cases hnum : parseI64 (orInsert key ⟨['0'], none⟩ σ.map).2.data with
  | error e => simp only [hnum]
  | ok num =>
    simp only [hnum]
    have hrange : -9223372036854775808 ≤ num := (Decimal.readInt_range (by decide) (by decide) hnum).1
    by_cases hlt : num < 9223372036854775807
    · have hadd : addI64 num 1 = some (num + 1) := if_pos ⟨by omega, by omega⟩
      simp only [if_pos hlt, hadd]
      rfl
    · simp only [if_neg hlt]
      rfl

section
variable (regex : List Char → Option (List Char → Bool))

/-- **A command completes in range, and then as it is executed.** -/
theorem checkedExecute_eq_some {now : SystemTime} {cmd : Command} {σ : Server} {r : Server × List Char} :
    checkedExecute regex now cmd σ = some r ↔ InRange σ.replicationInfo cmd ∧ r = execute regex now cmd σ := by
  cases cmd with
  | incr key =>
    change checkedIncr key σ = some r ↔ True ∧ r = executeIncr key σ
    rw [checkedIncr_eq, Option.some.injEq, true_and, eq_comm]
  | info sections =>
    change (checkedInfo sections σ).bind (fun reply => some (σ, reply)) = some r ↔ _ ∧ r = (σ, executeInfo sections σ)
    rw [Option.bind_eq_some_iff]
    constructor
    · rintro ⟨reply, hreply, he⟩
      obtain ⟨hrange, rfl⟩ := checkedInfo_eq_some.1 hreply
      exact ⟨hrange, (Option.some.inj he).symm⟩
    · rintro ⟨hrange, rfl⟩
      exact ⟨_, checkedInfo_eq_some.2 ⟨hrange, rfl⟩, rfl⟩
  | _ => exact ⟨fun h => ⟨trivial, (Option.some.inj h).symm⟩, fun h => congrArg some h.2.symm⟩

/-- **A queue completes when all of its commands are in range.** -/
theorem checkedAll_eq_some : ∀ (cs : List (SystemTime × Command)) (σ : Server) (r : Server × List Char),
    checkedAll regex cs σ = some r ↔ (∀ c ∈ cs, InRange σ.replicationInfo c.2) ∧ r = executeAll regex cs σ
  | [], σ, r => by
    rw [checkedAll, executeAll, Option.some.injEq, eq_comm]
    exact ⟨fun h => ⟨nofun, h⟩, fun h => h.2⟩
  | (now, cmd) :: cs, σ, r => by
    have hframe := (execute_frame regex now cmd σ).2.1
    rw [checkedAll, Option.bind_eq_bind, Option.bind_eq_some_iff, List.forall_mem_cons, executeAll]
    constructor
    · rintro ⟨⟨σ', reply⟩, hexec, h⟩
      obtain ⟨hrange, he⟩ := (checkedExecute_eq_some regex).1 hexec
      obtain ⟨⟨σ'', replies⟩, hall, h⟩ := Option.bind_eq_some_iff.1 h
      obtain ⟨hranges, he'⟩ := (checkedAll_eq_some cs σ' _).1 hall
      rw [← he]
      dsimp only
      rw [← he']
      have hinfo : σ'.replicationInfo = σ.replicationInfo := by rw [← hframe, ← he]
      exact ⟨⟨hrange, fun c hc => hinfo ▸ hranges c hc⟩, (Option.some.inj h).symm⟩
    · rintro ⟨⟨hrange, hranges⟩, rfl⟩
      refine ⟨_, (checkedExecute_eq_some regex).2 ⟨hrange, rfl⟩, Option.bind_eq_some_iff.2 ⟨_, ?_, rfl⟩⟩
      exact (checkedAll_eq_some cs _ _).2 ⟨fun c hc => hframe.symm ▸ hranges c hc, rfl⟩

/-- **Where everything is in range, `execute_multi_commands` does what it does with its numbers checked**, and nowhere
else does that complete. -/
theorem checkedMultiCommands_eq_some {commands : List (SystemTime × Command)} {isMulti : Bool} {σ : Server}
    {r : Server × List Char} : checkedMultiCommands regex commands isMulti σ = some r ↔
      (∀ c ∈ commands, InRange σ.replicationInfo c.2) ∧ r = executeMultiCommands regex commands isMulti σ := by
  unfold checkedMultiCommands executeMultiCommands
  rw [Option.bind_eq_bind, Option.bind_eq_some_iff]
  constructor
  · rintro ⟨⟨σ', replies⟩, hall, h⟩
    obtain ⟨hranges, he⟩ := (checkedAll_eq_some regex commands σ _).1 hall
    rw [← he]
    exact ⟨hranges, (Option.some.inj h).symm⟩
  · rintro ⟨hranges, rfl⟩
    exact ⟨_, (checkedAll_eq_some regex commands σ _).2 ⟨hranges, rfl⟩, rfl⟩

/-! ## Accepted commands -/

/-- A word that names the section `REPLICATION`. -/
def namesReplication : Value → Bool
  | .bulkString s => decide (toUppercase s = "REPLICATION".toList)
  | _             => false

/-- After the word `INFO` come words that name a section, and not too many of them. -/
def InfoFits (r : ReplicationInfo) (xs : List Value) : Prop :=
  ∀ cmd vs, xs = .bulkString cmd :: vs → toUppercase cmd = "INFO".toList →
    0 < vs.countP namesReplication ∧ vs.countP namesReplication * byteLen (infoText r .replication) < 18446744073709551616

theorem length_infoSections : ∀ (vs : List Value) (sections : List InfoSection), infoSections vs = .ok sections →
    sections.length = vs.countP namesReplication
  | [], _, h => by
    cases h
    rfl
  | .bulkString s :: vs, _, h => by
    obtain ⟨sections, hsections, he⟩ := bind_eq_ok.1 h
    cases he
    have ih := length_infoSections vs sections hsections
    by_cases hs : toUppercase s = "REPLICATION".toList
    · have hnames : namesReplication (.bulkString s) = true := decide_eq_true hs
      rw [if_pos hs, List.length_cons, ih, List.countP_cons_of_pos hnames]
    · have hnames : ¬ namesReplication (.bulkString s) = true := by rwa [namesReplication, decide_eq_true_iff]
      rw [if_neg hs, ih, List.countP_cons_of_neg hnames]
  | .simpleString _ :: _, _, h | .simpleError _ :: _, _, h | .integer _ :: _, _, h | .array _ :: _, _, h
  | .null :: _, _, h => by
    cases h

theorem byteLen_infoText (r : ReplicationInfo) : ∀ (sections : List InfoSection),
    byteLen (sections.flatMap (infoText r)) = sections.length * byteLen (infoText r .replication)
  | [] => (Nat.zero_mul _).symm
  | .replication :: sections => by
    rw [List.flatMap_cons, byteLen_append, byteLen_infoText r sections, List.length_cons, Nat.add_one_mul, Nat.add_comm]

theorem infoText_pos (r : ReplicationInfo) : 0 < byteLen (infoText r .replication) := by
  refine Nat.pos_of_ne_zero (fun h => ?_)
  rw [Utf8.byteLen_eq_zero] at h
  cases h

theorem inRange_iff {r : ReplicationInfo} {xs : List Value} {c : Command} (h : parseCommand xs = .ok c) :
    InRange r c ↔ InfoFits r xs := by
  obtain ⟨cmd, vs, rfl, -⟩ := parseCommand_eq_ok h
  have hinfo := parseCommand_info_iff h
  by_cases hw : toUppercase cmd = "INFO".toList
  · obtain ⟨sections, rfl, hsections⟩ := hinfo.2 hw
    have hpos := infoText_pos r
    unfold InRange InfoFits
    dsimp only
    rw [byteLen_infoText, length_infoSections vs sections hsections, Nat.mul_pos_iff_of_pos_right hpos]
    constructor
    · rintro h cmd' vs' he -
      obtain ⟨-, rfl⟩ := List.cons.inj he
      exact h
    · exact fun h => h cmd vs rfl hw
  · constructor
    · rintro - cmd' vs' he hw'
      obtain ⟨hcmd, -⟩ := List.cons.inj he
      cases hcmd
      exact absurd hw' hw
    · intro _
      rcases parseNamed_eq_ok h with ⟨-, hset⟩ | ⟨hw', -⟩ | hother
      · obtain ⟨_, _, _, _, _, _, rfl⟩ := parseSetCommand_eq_ok hset
        trivial
      · exact absurd hw' hw
      · cases c with
        | info => exact absurd hother id
        | _ => trivial

/-- **A queue of accepted commands completes in range exactly when every `INFO` among them names a section**, and does
not name it more often than a length can count. -/
theorem completes_iff {xss : List (List Value)} {commands : List (SystemTime × Command)}
    (h : List.Forall₂ (fun xs c => parseCommand xs = .ok c.2) xss commands) (isMulti : Bool) (σ : Server) :
    (∃ r, checkedMultiCommands regex commands isMulti σ = some r) ↔ ∀ xs ∈ xss, InfoFits σ.replicationInfo xs := by
  have hranges : (∀ c ∈ commands, InRange σ.replicationInfo c.2) ↔ ∀ xs ∈ xss, InfoFits σ.replicationInfo xs := by
    constructor
    · intro hc xs hxs
      obtain ⟨c, hc', hparse⟩ := Fallible.exists_of_mem_left h xs hxs
      exact (inRange_iff hparse).1 (hc c hc')
    · intro hxs c hc
      obtain ⟨xs, hxs', hparse⟩ := Fallible.exists_of_mem_right h c hc
      exact (inRange_iff hparse).2 (hxs xs hxs')
  rw [← hranges]
  constructor
  · rintro ⟨r, hr⟩
    exact ((checkedMultiCommands_eq_some regex).1 hr).1
  · exact fun hc => ⟨_, (checkedMultiCommands_eq_some regex).2 ⟨hc, rfl⟩⟩

end

/-- An `INFO` that names its section twice, an `INCR` and a `PING` in one queue. -/
theorem completes_info : ∃ r, checkedMultiCommands (fun _ => none)
    [(0, .info [.replication, .replication]), (0, .incr ['k']), (0, .ping)] true (.start .master 0) = some r := by
  let words (args : List String) : List Value := args.map (fun a => .bulkString a.toList)
  have hother : ∀ args : List String, args.head?.map (fun a => toUppercase a.toList) ≠ some "INFO".toList →
      InfoFits (Server.start .master 0).replicationInfo (words args) := by
    intro args hhead cmd vs he hw
    cases args with
    | nil => cases he
    | cons a as =>
      cases he
      exact absurd (congrArg some hw) hhead
  have hinfo : InfoFits (Server.start .master 0).replicationInfo
      (words ["INFO", "replication", "k", "REPLICATION"]) := by
    intro cmd vs he hw
    cases he
    decide
  have hfits : ∀ xs ∈ [["INFO", "replication", "k", "REPLICATION"], ["INCR", "k"], ["PING"]].map words,
      InfoFits (Server.start .master 0).replicationInfo xs :=
    List.forall_mem_cons.2 ⟨hinfo, List.forall_mem_cons.2
      ⟨hother ["INCR", "k"] (by decide), List.forall_mem_singleton.2 (hother ["PING"] (by decide))⟩⟩
  exact (completes_iff _ (.cons (by decide) (.cons (by decide) (.cons (by decide) .nil))) true _).2 hfits

/-- **An `INFO` alone counts below zero.** -/
theorem completes_bare : ¬ ∀ (regex : List Char → Option (List Char → Bool)) (xss : List (List Value))
    (commands : List (SystemTime × Command)) (isMulti : Bool) (σ : Server),
      List.Forall₂ (fun xs c => parseCommand xs = .ok c.2) xss commands →
        ∃ r, checkedMultiCommands regex commands isMulti σ = some r := by
  intro h
  obtain ⟨r, hr⟩ := h (fun _ => none) [[.bulkString "INFO".toList]] [(0, .info [])] false (.start .master 0)
    (.cons (by decide) .nil)
  cases hr

end Rusdis
