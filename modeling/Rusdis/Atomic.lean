import Rusdis.Linear
/-!
# Atomic — what may come between the commands of an `EXEC`

The map's lock is released after every command, so an `EXEC` is no block: another connection's `SET` comes between its
two `GET`s (`exec_interrupted`).  Its commands are executed in the order of the queue and answered so, and an `EXEC`
that nothing comes between does what `execute_multi_commands` does at once (`exec_in_turn`).
-/
namespace Rusdis

open Steps
open Decimal (isDigit_of_mem_natText natText natText_ne_nil)

section
variable {ι : Type} {regex : List Char → Option (List Char → Bool)}

/-- The reply to an `EXEC` and the map are those of some run of the executed commands with its queue in one block. -/
def OneBlock (regex : List Char → Option (List Char → Bool)) (σ : Server) (executed queue : List Command)
    (reply : List Char) (map : DataMap) : Prop :=
  ∃ before block later : List (SystemTime × Command), block.map Prod.snd = queue ∧
    List.Perm ((before ++ block ++ later).map Prod.snd) executed ∧
    reply = (executeMultiCommands regex block true (executeAll regex before σ).1).2 ∧
    map = (executeAll regex (before ++ block ++ later) σ).1.map

/-- Every `EXEC` is atomic. -/
def Atomic (σ : Server) (s : Clients regex ι) : Prop :=
  ∀ (i : ι) (k : Nat) (queue : List Command) (reply : List Char),
    (s.task i).replied[k]? = some (.exec queue, reply) →
      OneBlock regex σ (s.shared.history.map Entry.command) queue reply s.shared.server.map

/-! ## An `EXEC` that is no block -/

/-- A `GET` that finds nothing leaves nothing. -/
theorem executeGet_missing {now : SystemTime} {key x r : List Char} {σ : Server}
    (h : (executeGet now key σ).2 ++ x = "$-1\r\n".toList ++ r) :
    x = r ∧ (executeGet now key σ).1.map.lookup key = none := by
  unfold executeGet at h ⊢
  cases hd : σ.map.lookup key with
  | none =>
    rw [hd] at h
    exact ⟨List.append_cancel_left h, hd⟩
  | some d =>
    simp only [hd] at h ⊢
    by_cases hexp : d.isExpired now = true
    · rw [if_pos hexp] at h ⊢
      exact ⟨List.append_cancel_left h, AList.lookup_erase key σ.map⟩
    · rw [if_neg hexp] at h
      exact absurd h (encodeBulk_append_ne d.data x _)

/-- **In one block the second `GET` of a key finds nothing when the first has found nothing.** -/
theorem gets_in_block (regex : List Char → Option (List Char → Bool)) {t t' : SystemTime} {key r : List Char}
    {σ : Server} (h : (executeMultiCommands regex [(t, .get key), (t', .get key)] true σ).2 =
      "*2\r\n".toList ++ ("$-1\r\n".toList ++ r)) : r = "$-1\r\n".toList := by
  have hreply : (executeMultiCommands regex [(t, .get key), (t', .get key)] true σ).2 =
      "*2\r\n".toList ++ ((executeGet t key σ).2 ++ (executeGet t' key (executeGet t key σ).1).2) := by
    have hhead : ['*'] ++ natText 2 ++ crlf = "*2\r\n".toList := by decide +kernel
    rw [executeMultiCommands_singly, singly_cons, singly_cons]
    simp only [singly, execute, List.flatten_cons, List.flatten_nil, List.append_nil]
    exact congrArg (· ++ _) hhead
  rw [hreply] at h
  obtain ⟨rfl, hnone⟩ := executeGet_missing (List.append_cancel_left h)
  rw [executeGet, hnone]

end

/-- **An `EXEC` is not atomic**: between its two `GET`s another connection sets their key, and no run with the two in
one block replies so. -/
theorem exec_interrupted :
    let go (i : Bool) (n : Nat) : List (Bool × Act) := List.replicate n (i, .go 0)
    ∃ s : Clients (fun _ => none) Bool,
      (Clients.start (Server.start .master 0)).run
        ([(false, .call (.exec [.get ['k'], .get ['k']])), (true, .call (.single (.set ['k'] ['v'] none)))] ++
          go false 5 ++ go true 7 ++ go false 6) = some s ∧
      (∀ i, (s.task i).running.isNone = true) ∧ ¬ Atomic (Server.start .master 0) s := by
  intro go
  have hrun : ((Clients.start (Server.start .master 0) : Clients (fun _ => none) Bool).run
      ([(false, .call (.exec [.get ['k'], .get ['k']])), (true, .call (.single (.set ['k'] ['v'] none)))] ++
        go false 5 ++ go true 7 ++ go false 6)).map
        (fun s => ((s.task false).running.isNone, (s.task true).running.isNone, (s.task false).replied[0]?)) =
      some (true, true, some (.exec [.get ['k'], .get ['k']],
        "*2\r\n".toList ++ ("$-1\r\n".toList ++ "$1\r\nv\r\n".toList))) := by decide +kernel
  obtain ⟨s, hs, hseen⟩ := Option.map_eq_some_iff.1 hrun
  obtain ⟨hidle, hseen⟩ := Prod.mk.inj hseen
  obtain ⟨hidle', hreplied⟩ := Prod.mk.inj hseen
  refine ⟨s, hs, Bool.rec hidle hidle', fun hatomic => ?_⟩
  obtain ⟨before, block, later, hqueue, -, hreply, -⟩ := hatomic false 0 _ _ hreplied
  obtain ⟨⟨t, cmd⟩, rest, rfl, rfl, hrest⟩ := List.map_eq_cons_iff.1 hqueue
  obtain ⟨⟨t', cmd'⟩, rest, rfl, rfl, hnone⟩ := List.map_eq_cons_iff.1 hrest
  obtain rfl := List.map_eq_nil_iff.1 hnone
  have hnil := gets_in_block _ hreply.symm
  revert hnil
  decide

/-! ## What an `EXEC` keeps -/

section
variable {ι : Type} {regex : List Char → Option (List Char → Bool)} {σ : Server}

theorem executeAll_serial (σ : Server) (h : List (Entry ι)) :
    (executeAll regex (h.map Entry.timed) σ).1 = (serial regex σ h).1 := by rw [executeAll_singly, serial]

/-- The replies of a part of the history are those of the part, run where it stands. -/
theorem replies_middle {before part later : List (Entry ι)}
    (h : (serial regex σ (before ++ part ++ later)).2 = (before ++ part ++ later).map Entry.reply) :
    (serial regex (serial regex σ before).1 part).2 = part.map Entry.reply := by
  have hlen : ∀ (σ : Server) (h : List (Entry ι)), (serial regex σ h).2.length = h.length := fun σ h => by
    rw [serial, length_singly, List.length_map]
  rw [serial_append, serial_append, List.map_append, List.map_append] at h
  have hbefore := (List.append_inj h (by rw [List.length_append, List.length_append, hlen, hlen, List.length_map,
    List.length_map])).1
  exact (List.append_inj hbefore (by rw [hlen, List.length_map])).2

variable [DecidableEq ι]

/-- What an `EXEC` keeps: its commands are executed in the order of its queue, each whole, and answered as the order of
the lock has it; and if nothing comes between them they are one block. -/
structure InTurn (σ : Server) (s : Clients regex ι) : Prop where
  server  : s.shared.lock = none → s.shared.server = (executeAll regex (s.shared.history.map Entry.timed) σ).1
  order   : s.shared.acquired =
    (s.shared.history.filter (fun e => locks regex e.timed)).map (fun e => (e.who, e.command)) ++ s.taken
  replies : ∀ before e later, s.shared.history = before ++ [e] ++ later →
    e.reply = (execute regex e.time e.command (executeAll regex (before.map Entry.timed) σ).1).2
  queue   : ∀ (i : ι) (k : Nat) (queue : List Command) (reply : List Char),
    (s.task i).replied[k]? = some (.exec queue, reply) →
      (entries s.shared.history i k).map Entry.command = queue ∧
        reply = ['*'] ++ natText queue.length ++ crlf ++ (entries s.shared.history i k).flatMap Entry.reply
  block   : ∀ (i : ι) (k : Nat) (queue : List Command) (reply : List Char) (before later : List (Entry ι)),
    (s.task i).replied[k]? = some (.exec queue, reply) →
      s.shared.history = before ++ entries s.shared.history i k ++ later →
        reply = (executeMultiCommands regex ((entries s.shared.history i k).map Entry.timed) true
          (executeAll regex (before.map Entry.timed) σ).1).2

/-- **The commands of an `EXEC` are executed in turn**, with those of other connections between them or not. -/
theorem exec_in_turn {acts : List (ι × Act)} {s : Clients regex ι} (hrun : (Clients.start σ).run acts = some s) :
    InTurn σ s := by
  have hs : Serial σ s := run_keeps serial_step hrun (serial_start σ)
  have hk : ∀ j, Kept s.shared.history j (s.task j) := run_keeps kept_step hrun (kept_start σ)
  have hmiddle : ∀ {before part later}, s.shared.history = before ++ part ++ later →
      (serial regex (serial regex σ before).1 part).2 = part.map Entry.reply := fun heq =>
    replies_middle (heq ▸ hs.replies)
  refine ⟨fun hlock => ?_, hs.acquired, fun before e later heq => ?_, fun i k queue reply hget => ?_,
    fun i k queue reply before later hget heq => ?_⟩
  · rw [executeAll_serial]
    exact hs.server hlock
  · have hreplies := hmiddle heq
    rw [serial_single, List.map_singleton] at hreplies
    rw [executeAll_serial]
    exact (List.cons.inj hreplies).1.symm
  · exact ⟨((hk i).finished hget).commands, ((hk i).finished hget).reply⟩
  · obtain ⟨hcommands, hreply⟩ := (hk i).finished hget
    have hqueue : (entries s.shared.history i k).map Entry.command = queue := hcommands
    have hlen : queue.length = ((entries s.shared.history i k).map Entry.timed).length := by
      rw [← hqueue, List.length_map, List.length_map]
    rw [executeMultiCommands_singly, executeAll_serial, ← hlen]
    exact hreply.trans (congrArg _ (congrArg List.flatten (hmiddle heq).symm))

end

/-- A `SET` that waits for the lock comes after an `EXEC` that asks for it again sooner. -/
theorem exec_in_turn_two :
    let go (i : Bool) (n : Nat) : List (Bool × Act) := List.replicate n (i, .go 0)
    ∃ s : Clients (fun _ => none) Bool,
      (Clients.start (Server.start .master 0)).run
        ([(false, .call (.exec [.incr ['k'], .get ['k']])), (true, .call (.single (.set ['k'] ['v'] none)))] ++
          go true 2 ++ go false 12 ++ go true 5) = some s ∧ InTurn (Server.start .master 0) s ∧
      (s.task false).replied = [(.exec [.incr ['k'], .get ['k']], "*2\r\n:1\r\n$1\r\n1\r\n".toList)] := by
  intro go
  have hrun : ((Clients.start (Server.start .master 0) : Clients (fun _ => none) Bool).run
      ([(false, .call (.exec [.incr ['k'], .get ['k']])), (true, .call (.single (.set ['k'] ['v'] none)))] ++
        go true 2 ++ go false 12 ++ go true 5)).map (fun s => (s.task false).replied) =
      some [(.exec [.incr ['k'], .get ['k']], "*2\r\n:1\r\n$1\r\n1\r\n".toList)] := by decide +kernel
  obtain ⟨s, hs, hreplied⟩ := Option.map_eq_some_iff.1 hrun
  exact ⟨s, hs, exec_in_turn hs, hreplied⟩

end Rusdis
