import Rusdis.Follower
/-!
# Beside — what the connections of a replica see of its stream

Every command finds the first commands of the stream executed and counted, and at most one `SET` more that is executed
and not counted yet (`offset_behind`).  Connections that only read a key leave it to the map that `main` has loaded and to
the commands of the stream since (`readers_apart`).
-/
namespace Rusdis

open Steps Utf8

/-! ## A place in the order -/

section
variable {regex : List Char → Option (List Char → Bool)} {ι : Type} [DecidableEq ι]

theorem Obeys.first {i : ι} {offset : UInt64} {cs : List Command} {log : List (Record ι Mark)} {server : Server}
    {l : Loop regex} (h : Obeys i offset cs log server l) : own i log <+: cs.flatMap marks := by
  have hstream := h.stream
  have hlog := h.log
  cases hrunning : l.client.running with
  | none =>
    rw [Loop.underway, hrunning, Option.elim_none, List.append_nil] at hstream
    rw [Loop.waiting, Loop.underway, hrunning, Option.elim_none, Option.elim_none, List.map_nil, List.append_nil,
      List.append_nil] at hlog
    rw [← hstream, List.flatMap_append]
    exact List.IsPrefix.trans ⟨_, hlog⟩ (List.prefix_append _ _)
  | some r =>
    obtain ⟨cmd, hcall, hcounting, -⟩ := h.calls r hrunning
    have hcmds : l.underway = [cmd] := by
      rw [Loop.underway, hrunning, Option.elim_some, hcall]
      rfl
    have hcmd : [.inl cmd] <+: marks cmd := by
      cases cmd with
      | set key value px => exact List.prefix_append [_] [_]
      | _ => exact List.prefix_rfl
    rw [hcounting, Option.toList_none, List.map_nil, List.append_nil, hcmds] at hlog
    rw [← hstream, hcmds, List.flatMap_append, List.flatMap_append, List.flatMap_singleton]
    refine List.IsPrefix.trans ⟨_, hlog⟩ (List.IsPrefix.trans ?_ (List.prefix_append _ _))
    exact (List.prefix_append_right_inj _).2 hcmd

end

section
variable {regex : List Char → Option (List Char → Bool)} {ι : Type} [DecidableEq ι] {σ : Server} {p : Process regex ι}

end

/-! ## Connections that only read -/

section
variable (regex : List Char → Option (List Char → Bool)) {key : List Char}

/-- A command that neither sets nor counts a key leaves what never expires of it. -/
theorem persistent_other (now : SystemTime) {cmd : Command} (hset : ∀ value px, cmd ≠ .set key value px)
    (hincr : cmd ≠ .incr key) (σ : Server) : persistent (execute regex now cmd σ).1.map key = persistent σ.map key := by
  cases cmd with
  | set key' value px =>
    have hne : key ≠ key' := fun heq => hset value px (by rw [heq])
    cases he : setExpiration now px with
    | none => rw [execute, executeSet, he]
    | some e => rw [execute, executeSet_map he, persistent, persistent, view_insert_ne hne]
  | get key' =>
    rcases executeGet_map now key' σ with hmap | ⟨key'', d, hd, hexp, hmap⟩
    · rw [execute, hmap]
    · rw [execute, hmap, persistent_erase hd hexp]
  | incr key' =>
    have hne : key ≠ key' := fun heq => hincr (by rw [heq])
    exact congrArg (Option.bind · _) (lookup_executeIncr_ne hne σ)
  | _ => rfl

/-- What never expires of a key is the same after a command that does not count it, if it was before. -/
theorem persistent_execute (now : SystemTime) {cmd : Command} (hincr : cmd ≠ .incr key) {σ ρ : Server}
    (h : persistent ρ.map key = persistent σ.map key) :
    persistent (execute regex now cmd ρ).1.map key = persistent (execute regex now cmd σ).1.map key := by
  by_cases hset : ∀ value px, cmd ≠ .set key value px
  · rw [persistent_other regex now hset hincr, persistent_other regex now hset hincr, h]
  · push Not at hset
    obtain ⟨value, px, rfl⟩ := hset
    cases he : setExpiration now px with
    | none =>
      rw [execute, execute, executeSet, executeSet, he]
      exact h
    | some e =>
      rw [execute, execute, executeSet_map he, executeSet_map he, persistent, persistent, view_insert_self,
        view_insert_self]

variable {ι : Type}

/-- The commands of the loop in a history, with their times. -/
def loopTimed (h : List (Entry (Option ι))) : List (SystemTime × Command) :=
  (h.filter (fun e => e.who.isNone)).map Entry.timed

/-- What the loop's commands leave of a key that nobody counts and the connections do not set. -/
theorem persistent_replay : ∀ (log : List (Record (Option ι) Mark)) {σ ρ : Server}, Unloaded log →
    persistent ρ.map key = persistent σ.map key →
    (∀ e ∈ log.filterMap Sum.getLeft?, e.command ≠ .incr key ∧
      (e.who ≠ none → ∀ value px, e.command ≠ .set key value px)) →
    persistent (executeAll regex (loopTimed (log.filterMap Sum.getLeft?)) ρ).1.map key =
      persistent (replay regex Server.mark log σ).map key
  | [], _, _, _, h, _ => h
  | .inr (.load map) :: log, _, _, hlog, _, _ => absurd List.mem_cons_self (hlog map)
  | .inr (.count n) :: log, σ, ρ, hlog, h, hall =>
    persistent_replay log (σ := σ.incrementOffset n) (fun map hmem => hlog map (List.mem_cons_of_mem _ hmem)) h hall
  | .inl e :: log, σ, ρ, hlog, h, hall => by
    obtain ⟨hincr, hset⟩ := hall e List.mem_cons_self
    have hall' := fun e' he' => hall e' (List.mem_cons_of_mem _ he')
    have hlog' : Unloaded log := fun map hmem => hlog map (List.mem_cons_of_mem _ hmem)
    have hmap : (Sum.inl e :: log).filterMap Sum.getLeft? = e :: log.filterMap Sum.getLeft? := rfl
    rw [hmap]
    cases hwho : e.who with
    | none =>
      have hloop : loopTimed (e :: log.filterMap Sum.getLeft?) = e.timed :: loopTimed (log.filterMap Sum.getLeft?) := by
        rw [loopTimed, List.filter_cons_of_pos (by rw [hwho]; rfl), List.map_cons]
        rfl
      rw [hloop]
      exact persistent_replay log hlog' (persistent_execute regex e.time hincr h) hall'
    | some i =>
      have hloop : loopTimed (e :: log.filterMap Sum.getLeft?) = loopTimed (log.filterMap Sum.getLeft?) := by
        rw [loopTimed, List.filter_cons_of_neg (by rw [hwho]; nofun)]
        rfl
      rw [hloop]
      refine persistent_replay log hlog' (h.trans (persistent_other regex e.time (hset ?_) hincr σ).symm) hall'
      rw [hwho]
      nofun

theorem left_marks : ∀ cs : List Command, (cs.flatMap marks).filterMap Sum.getLeft? = cs
  | [] => rfl
  | c :: cs => by
    rw [List.flatMap_cons, List.filterMap_append, left_marks cs]
    cases c <;> rfl

theorem left_own [DecidableEq ι] : ∀ log : List (Record (Option ι) Mark),
    (own none log).filterMap Sum.getLeft? = (loopTimed (log.filterMap Sum.getLeft?)).map Prod.snd
  | [] => rfl
  | .inr (.count _) :: log => left_own log
  | .inr (.load _) :: log => left_own log
  | .inl e :: log => by
    have hmap : (Sum.inl e :: log).filterMap Sum.getLeft? = e :: log.filterMap Sum.getLeft? := rfl
    have ih := left_own log
    rw [hmap, ← List.singleton_append, own_append, List.filterMap_append, ih]
    cases hwho : e.who with
    | none => simp [own, hwho, loopTimed, Entry.timed]
    | some i => simp [own, hwho, loopTimed]

end

section
variable {regex : List Char → Option (List Char → Bool)} {ι : Type} [DecidableEq ι] {σ : Server} {p : Process regex ι}

/-- **A key that the connections only read is the stream's**: while nobody holds the map's lock, what never expires of
it is as if the loop's commands since `main`'s load, each once and in the order of the stream, had been executed alone
over the map it has loaded. -/
theorem readers_apart {events : List (Happening ι)} (hrun : run Process.step events (Process.start σ) = some p)
    (hlock : p.slave.shared.lock = none) {key : List Char}
    (hincr : ∀ e ∈ p.slave.shared.history.drop p.past, e.command ≠ .incr key)
    (hset : ∀ e ∈ p.slave.shared.history.drop p.past, e.who ≠ none → ∀ value px, e.command ≠ .set key value px) :
    persistent p.slave.shared.server.map key = persistent
        (executeAll regex (loopTimed (p.slave.shared.history.drop p.past)) { σ with map := p.base }).1.map key ∧
      (loopTimed p.slave.shared.history).map Prod.snd <+: events.flatMap received := by
  obtain ⟨before, later, hp⟩ := processed_run (processed_start σ) hrun
  have hhistory := hp.ordered.followed.history
  have hlater : later.filterMap Sum.getLeft? = p.slave.shared.history.drop p.past := by
    rw [← hhistory, List.filterMap_append, ← hp.past, List.drop_left]
  constructor
  · rw [hp.ordered.followed.server hlock, replay_append, ← hlater]
    refine (persistent_replay regex later hp.unloaded ?_ (fun e he => ?_)).symm
    · rw [hp.base]
    · rw [hlater] at he
      exact ⟨hincr e he, hset e he⟩
  · rw [← hhistory, ← left_own, ← left_marks (events.flatMap received)]
    exact hp.ordered.obeys.first.filterMap _

end

/-- The first `SET` of the stream comes before `main`'s load.  The second has been executed and not yet counted when a
connection asks for the offset; then it is counted, and another connection gets the key. -/
def askedBetween : List (Happening Bool) :=
  let go (j : Option Bool) (n : Nat) : List (Happening Bool) := List.replicate n (.task (j, .go 0))
  let set (value : String) : List UInt8 :=
    encode ("*3\r\n$3\r\nset\r\n$1\r\nk\r\n$1\r\n".toList ++ value.toList ++ crlf)
  [.task (none, .read (set "v"))] ++ go none 9 ++ [.main (some (AList.insert ['j'] ⟨['7'], none⟩ ∅))] ++
    [.task (none, .read (set "w"))] ++ go none 8 ++
    [.task (some true, .read (Turn.start ["INFO", "replication"]).buf)] ++ go (some true) 2 ++ go none 1 ++
    [.task (some false, .read (Turn.start ["GET", "k"]).buf)] ++ go (some false) 6

/-- What the process has come to. -/
theorem askedBetween_run : ∃ p : Process (fun _ => none) Bool,
    run Process.step askedBetween (Process.start (Server.start .slave 0)) = some p ∧ p.slave.shared.lock = none ∧
    loopTimed (p.slave.shared.history.drop p.past) = [(0, .set ['k'] ['w'] none)] ∧
    p.slave.shared.history.map (fun e => (e.who, e.command, e.reply)) =
      [(none, .set ['k'] ['v'] none, "+OK\r\n".toList), (none, .set ['k'] ['w'] none, "+OK\r\n".toList),
        (some true, .info [.replication], "$47\r\nrole:slave\nmaster_replid:\nmaster_repl_offset:18\r\n".toList),
        (some false, .get ['k'], "$1\r\nw\r\n".toList)] := by
  have hrun : (run Process.step askedBetween (Process.start (Server.start .slave 0) : Process (fun _ => none) Bool)).map
      (fun p => (p.slave.shared.lock, loopTimed (p.slave.shared.history.drop p.past))) =
        some (none, [(0, .set ['k'] ['w'] none)]) := by decide +kernel
  have hpast : (run Process.step askedBetween (Process.start (Server.start .slave 0) : Process (fun _ => none) Bool)).map
      (fun p => p.slave.shared.history.map (fun e => (e.who, e.command, e.reply))) = some
      [(none, .set ['k'] ['v'] none, "+OK\r\n".toList), (none, .set ['k'] ['w'] none, "+OK\r\n".toList),
        (some true, .info [.replication], "$47\r\nrole:slave\nmaster_replid:\nmaster_repl_offset:18\r\n".toList),
        (some false, .get ['k'], "$1\r\nw\r\n".toList)] := by decide +kernel
  obtain ⟨p, hp, hseen⟩ := Option.map_eq_some_iff.1 hrun
  obtain ⟨hlock, htimed⟩ := Prod.mk.inj hseen
  rw [hp] at hpast
  exact ⟨p, hp, hlock, htimed, Option.some.inj hpast⟩

/-- The key is what the second `SET` leaves of it. -/
theorem readers_apart_one : ∃ p : Process (fun _ => none) Bool,
    run Process.step askedBetween (Process.start (Server.start .slave 0)) = some p ∧
    persistent p.slave.shared.server.map ['k'] = some ['w'] := by
  obtain ⟨p, hp, hlock, htimed, hhistory⟩ := askedBetween_run
  have hmem : ∀ e ∈ p.slave.shared.history.drop p.past, (e.who, e.command, e.reply) ∈ _ := fun e he =>
    hhistory ▸ List.mem_map_of_mem (List.mem_of_mem_drop he)
  simp only [List.mem_cons, List.not_mem_nil, or_false, Prod.mk.injEq] at hmem
  refine ⟨p, hp, ?_⟩
  rw [(readers_apart hp hlock (fun e he heq => ?_) (fun e he hwho value px heq => ?_)).1, htimed]
  · exact view_insert_self _ _ _
  · rcases hmem e he with ⟨-, hcmd, -⟩ | ⟨-, hcmd, -⟩ | ⟨-, hcmd, -⟩ | ⟨-, hcmd, -⟩ <;> simp [hcmd] at heq
  · rcases hmem e he with ⟨hnone, -⟩ | ⟨hnone, -⟩ | ⟨-, hcmd, -⟩ | ⟨-, hcmd, -⟩
    · exact hwho hnone
    · exact hwho hnone
    · simp [hcmd] at heq
    · simp [hcmd] at heq

end Rusdis
