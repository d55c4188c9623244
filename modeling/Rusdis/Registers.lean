import Rusdis.Linear
/-!
# Registers — every key is a register of its own

`register` says what a `SET`, a `GET` or an `INCR` does to the one entry it names, and `registers` what a list of them
does.  However the calls of the connections interleave, the commands that name a key are answered as its register
answers them by themselves (`keys_apart`): no other command can be seen through them.
-/
namespace Rusdis

open Steps
open Decimal (intText)

/-- The key whose entry a command reads or writes. -/
def Command.named : Command → Option (List Char)
  | .set key _ _ => some key
  | .get key     => some key
  | .incr key    => some key
  | _            => none

/-- What a command does to the entry it names, and its reply. -/
def register (now : SystemTime) : Command → Option StringData → Option StringData × List Char
  | .set _ value px, v =>
    match setExpiration now px with
    | none            => (v, "-ERR Instant Addtion Error".toList)
    | some expiration => (some ⟨value, expiration⟩, "+OK\r\n".toList)
  | .get _, some d => if d.isExpired now then (none, "$-1\r\n".toList) else (some d, encodeBulk d.data)
  | .get _, none => (none, "$-1\r\n".toList)
  | .incr _, v =>
    let d := v.getD ⟨['0'], none⟩
    match parseI64 d.data with
    | .ok num =>
      let num := if num < 9223372036854775807 then num + 1 else num
      (some (d.setData (intText num)), [':'] ++ intText num ++ crlf)
    | .error _ => (some d, "-ERR value is not an integer or out of range\r\n".toList)
  | _, v => (v, [])

def registers : List (SystemTime × Command) → Option StringData → Option StringData × List (List Char)
  | [],               v => (v, [])
  | (now, cmd) :: cs, v =>
    let (v, reply) := register now cmd v
    let (v, replies) := registers cs v
    (v, reply :: replies)

theorem registers_cons (now : SystemTime) (cmd : Command) (cs : List (SystemTime × Command)) (v : Option StringData) :
    registers ((now, cmd) :: cs) v = ((registers cs (register now cmd v).1).1,
      (register now cmd v).2 :: (registers cs (register now cmd v).1).2) := rfl

section
variable (regex : List Char → Option (List Char → Bool)) {now : SystemTime} {key : List Char}

theorem orInsert_eq (key : List Char) (d : StringData) (m : DataMap) :
    (orInsert key d m).1.lookup key = some (orInsert key d m).2 ∧ (orInsert key d m).2 = (m.lookup key).getD d := by
  unfold orInsert
  cases hd : m.lookup key with
  | some d' => exact ⟨hd, rfl⟩
  | none => exact ⟨AList.lookup_insert m, rfl⟩

/-- A command is its register's. -/
theorem execute_named {cmd : Command} (h : cmd.named = some key) (σ : Server) :
    ((execute regex now cmd σ).1.map.lookup key, (execute regex now cmd σ).2) = register now cmd (σ.map.lookup key) := by
  cases cmd with
  | set key' value px =>
    obtain rfl := Option.some.inj h
    cases he : setExpiration now px with
    | none => simp only [execute, executeSet, register, he]
    | some e =>
      rw [execute, executeSet_map he, AList.lookup_insert]
      simp only [executeSet, register, he]
  | get key' =>
    obtain rfl := Option.some.inj h
    cases hd : σ.map.lookup key' with
    | none => simp only [execute, executeGet, register, hd]
    | some d =>
      simp only [execute, executeGet, register, hd]
      split
      · rw [AList.lookup_erase]
      · rw [hd]
  | incr key' =>
    obtain rfl := Option.some.inj h
    obtain ⟨hentry, hd⟩ := orInsert_eq key' ⟨['0'], none⟩ σ.map
    simp only [execute, executeIncr, register, ← hd]
    cases hnum : parseI64 (orInsert key' ⟨['0'], none⟩ σ.map).2.data with
    | ok num => simp only [AList.lookup_insert]
    | error e => simp only [hentry]
  | _ => cases h

/-- It leaves all other registers as they are. -/
theorem execute_other {cmd : Command} (h : cmd.named ≠ some key) (σ : Server) :
    (execute regex now cmd σ).1.map.lookup key = σ.map.lookup key := by
  cases cmd with
  | set key' value px =>
    have hne : key ≠ key' := fun he => h (congrArg some he.symm)
    cases he : setExpiration now px with
    | none => rw [execute, executeSet, he]
    | some e => rw [execute, executeSet_map he, AList.lookup_insert_ne hne]
  | get key' =>
    have hne : key ≠ key' := fun he => h (congrArg some he.symm)
    simp only [execute, executeGet]
    split
    · split
      · exact AList.lookup_erase_ne hne
      · rfl
    · rfl
  | incr key' => exact lookup_executeIncr_ne (fun he => h (congrArg some he.symm)) σ
  | _ => rfl

section
variable {regex} {ι : Type}

/-- The commands of a history that name the key. -/
def naming (key : List Char) (h : List (Entry ι)) : List (Entry ι) := h.filter (fun e => e.command.named = some key)

theorem naming_registers : ∀ (h : List (Entry ι)) (σ : Server), (serial regex σ h).2 = h.map Entry.reply →
    registers ((naming key h).map Entry.timed) (σ.map.lookup key) =
      ((serial regex σ h).1.map.lookup key, (naming key h).map Entry.reply)
  | [], _, _ => rfl
  | e :: h, σ, hreplies => by
    rw [← List.singleton_append, serial_append, serial_single, List.singleton_append, List.singleton_append,
      List.map_cons] at hreplies
    obtain ⟨hreply, hrest⟩ := List.cons.inj hreplies
    have ih : registers ((naming key h).map Entry.timed) ((execute regex e.time e.command σ).1.map.lookup key) =
        ((serial regex σ (e :: h)).1.map.lookup key, (naming key h).map Entry.reply) := by
      rw [← List.singleton_append, serial_append, serial_single]
      exact naming_registers h _ hrest
    by_cases hnamed : e.command.named = some key
    · have hnaming : naming key (e :: h) = e :: naming key h := List.filter_cons_of_pos (by simpa using hnamed)
      rw [hnaming, List.map_cons, Entry.timed, registers_cons, ← execute_named regex hnamed, ih, List.map_cons, ← hreply]
    · have hnaming : naming key (e :: h) = naming key h := List.filter_cons_of_neg (by simpa using hnamed)
      rw [hnaming, ← ih, execute_other regex hnamed]

/-- **Every key is a register of its own**: whatever the interleaving of the connections' calls, the commands that name
a key are answered as its register answers them by themselves, in the order in which they acquired the lock; and while
nobody holds the lock, the register holds the key's entry. -/
theorem keys_apart [DecidableEq ι] {σ : Server} {s : Clients regex ι} {acts : List (ι × Act)}
    (hrun : (Clients.start σ).run acts = some s) (key : List Char) :
    (registers ((naming key s.shared.history).map Entry.timed) (σ.map.lookup key)).2 =
        (naming key s.shared.history).map Entry.reply ∧
      (s.shared.lock = none → s.shared.server.map.lookup key =
        (registers ((naming key s.shared.history).map Entry.timed) (σ.map.lookup key)).1) := by
  have hs : Serial σ s := run_keeps serial_step hrun (serial_start σ)
  rw [naming_registers s.shared.history σ hs.replies]
  exact ⟨rfl, fun hlock => by rw [hs.server hlock]⟩

end

end

/-- One connection sets a key while another counts a second one: its register sees only the `INCR`. -/
theorem keys_apart_two :
    let go (i : Bool) (n : Nat) : List (Bool × Act) := List.replicate n (i, .go 0)
    let acts := [(false, .call (.single (.set ['l'] ['7'] none))), (true, .call (.single (.incr ['k'])))] ++ go false 4 ++
      go true 2 ++ go false 3 ++ go true 5
    ∃ s : Clients (fun _ => none) Bool, (Clients.start (Server.start .master 0)).run acts = some s ∧
      s.shared.history.map Entry.command = [.set ['l'] ['7'] none, .incr ['k']] ∧
      (registers ((naming ['k'] s.shared.history).map Entry.timed) none).2 = [":1\r\n".toList] := by
  intro go acts
  have hrun : ((Clients.start (Server.start .master 0) : Clients (fun _ => none) Bool).run acts).map
      (fun s => (s.shared.history.map Entry.command, (naming ['k'] s.shared.history).map Entry.reply)) =
      some ([.set ['l'] ['7'] none, .incr ['k']], [":1\r\n".toList]) := by decide +kernel
  obtain ⟨s, hs, hseen⟩ := Option.map_eq_some_iff.1 hrun
  obtain ⟨hcommands, hreplies⟩ := Prod.mk.inj hseen
  exact ⟨s, hs, hcommands, (keys_apart hs ['k']).1.trans hreplies⟩

end Rusdis
