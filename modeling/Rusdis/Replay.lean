import Rusdis.Calls
/-!
# Replay — one order of all that happens to the server

Commands are recorded as they end, and between them a process may mark what else it does to the server: a replica counts
bytes.  The marks are a parameter here.  In every state the server, and all replies, are those of commands and marks one
after the other, but for what the holder of the map's lock has done (`Replays`); every step of a call keeps that and adds
to the order what it has recorded (`replays_advances`).
-/
namespace Rusdis

open Steps

/-- What happens to the server: a command is executed, or a mark is made. -/
abbrev Record (ι M : Type) := Entry ι ⊕ M

section
variable {ι M : Type} (regex : List Char → Option (List Char → Bool)) (mark : M → Server → Server)

def Server.apply (σ : Server) : Record ι M → Server
  | .inl e => (execute regex e.time e.command σ).1
  | .inr m => mark m σ

def Record.answer (σ : Server) : Record ι M → List (List Char)
  | .inl e => [(execute regex e.time e.command σ).2]
  | .inr _ => []

/-- One after the other: the server they leave. -/
def replay (log : List (Record ι M)) (σ : Server) : Server := log.foldl (Server.apply regex mark) σ

/-- The replies to the commands among them. -/
def answers : List (Record ι M) → Server → List (List Char)
  | [],            _ => []
  | record :: log, σ => record.answer regex σ ++ answers log (σ.apply regex mark record)

theorem replay_append (log log' : List (Record ι M)) (σ : Server) :
    replay regex mark (log ++ log') σ = replay regex mark log' (replay regex mark log σ) := List.foldl_append

theorem replay_concat (log : List (Record ι M)) (record : Record ι M) (σ : Server) :
    replay regex mark (log ++ [record]) σ = (replay regex mark log σ).apply regex mark record :=
  replay_append regex mark log [record] σ

theorem answers_append : ∀ (log log' : List (Record ι M)) (σ : Server),
    answers regex mark (log ++ log') σ =
      answers regex mark log σ ++ answers regex mark log' (replay regex mark log σ)
  | [],            _,    _ => rfl
  | record :: log, log', σ => by
    rw [List.cons_append, answers, answers, answers_append log log', List.append_assoc]
    rfl

theorem answers_concat (record : Record ι M) (log : List (Record ι M)) (σ : Server) :
    answers regex mark (log ++ [record]) σ =
      answers regex mark log σ ++ record.answer regex (replay regex mark log σ) := by
  rw [answers_append, answers, answers, List.append_nil]

variable {regex mark}

def Client.pending (t : Client regex) : List Command := t.running.elim [] (fun r => r.point.pending)

/-- The command that has acquired the lock and not yet released it. -/
def Clients.taken (s : Clients regex ι) : List (ι × Command) :=
  s.shared.lock.elim [] (fun i => (s.task i).pending.map (fun cmd => (i, cmd)))

def Client.Midway (S σ : Server) (t : Client regex) : Prop := ∀ r ∈ t.running, r.point.Midway S σ

theorem Client.midway_of_outside {S σ : Server} {t : Client regex} (h : t.inside = false) : t.Midway S σ := by
  obtain ⟨replied, running⟩ := t
  intro r hr
  obtain rfl := Option.mem_def.1 hr
  exact Rusdis.midway_of_outside h

theorem Client.midway_some {S σ : Server} {replied : List (Call × List Char)} {r : Running regex}
    (h : r.point.Midway S σ) : Client.Midway S σ ⟨replied, some r⟩ := fun r' hr => by
  obtain rfl := Option.some.inj hr
  exact h

/-- While one connection is inside, no other is midway. -/
theorem midway_of_ne {s : Clients regex ι} {i : ι} (hs : Exclusive Client.inside s.shared.lock s.task)
    (hin : (s.task i).inside = true) (S σ : Server) {j : ι} (hj : j ≠ i) : (s.task j).Midway S σ :=
  Client.midway_of_outside (Bool.eq_false_iff.2 (fun hin' => hj (hs.unique hin' hin)))

/-! ## One order -/

variable (mark)

/-- Only the holder of the lock is midway; all others see the server of commands and marks so far. -/
structure Replays (σ : Server) (log : List (Record ι M)) (s : Clients regex ι) : Prop where
  exclusive : Exclusive Client.inside s.shared.lock s.task
  history   : log.filterMap Sum.getLeft? = s.shared.history
  replies   : answers regex mark log σ = s.shared.history.map Entry.reply
  server    : s.shared.lock = none → s.shared.server = replay regex mark log σ
  midway    : ∀ i, (s.task i).Midway (replay regex mark log σ) s.shared.server
  acquired  : s.shared.acquired =
    (s.shared.history.filter (fun e => locks regex e.timed)).map (fun e => (e.who, e.command)) ++ s.taken

theorem replays_start (σ : Server) : Replays mark σ [] (Clients.start σ : Clients regex ι) where
  exclusive := fun _ => iff_of_false nofun nofun
  history   := rfl
  replies   := rfl
  server    := fun _ => rfl
  midway    := fun _ _ hr => nomatch hr
  acquired  := rfl

variable {mark} {σ : Server} {log : List (Record ι M)} {s : Clients regex ι}

/-- A command ends before the lock as the order has it. -/
theorem Replays.frame (hs : Replays mark σ log s) : s.shared.server.args = (replay regex mark log σ).args ∧
    s.shared.server.replicationInfo = (replay regex mark log σ).replicationInfo := by
  cases hlock : s.shared.lock with
  | none =>
    rw [hs.server hlock]
    exact ⟨rfl, rfl⟩
  | some i =>
    have hin : (s.task i).inside = true := (hs.exclusive i).2 hlock
    have hmid := hs.midway i
    generalize s.task i = t at hin hmid
    obtain ⟨replied, running⟩ := t
    cases running with
    | none => cases hin
    | some r => exact frame_of_midway hin (hmid r rfl)

/-- What a step has recorded was answered by the server before it. -/
theorem Replays.answer {s' : Clients regex ι} {e : Entry ι} (hs : Replays mark σ log s)
    (hs' : Replays mark σ (log ++ [.inl e]) s') (hhistory : s'.shared.history = s.shared.history ++ [e]) :
    e.reply = (execute regex e.time e.command (replay regex mark log σ)).2 := by
  have hreplies := hs'.replies
  rw [answers_concat, hs.replies, hhistory, List.map_append, List.map_singleton] at hreplies
  exact (List.singleton_inj.1 (List.append_cancel_left hreplies)).symm

/-- **A mark that keeps what is midway goes between the steps of the calls.** -/
theorem Replays.marked (hs : Replays mark σ log s) (m : M)
    (hmid : ∀ i, (s.task i).Midway (mark m (replay regex mark log σ)) (mark m s.shared.server)) :
    Replays mark σ (log ++ [.inr m]) ⟨{ s.shared with server := mark m s.shared.server }, s.task⟩ where
  exclusive := hs.exclusive
  history   := by rw [List.filterMap_append, hs.history]; exact List.append_nil _
  replies   := by rw [answers_concat, hs.replies]; exact List.append_nil _
  server    := fun hlock => by
    rw [replay_concat]
    exact congrArg (mark m) (hs.server hlock)
  midway    := fun i => by
    rw [replay_concat]
    exact hmid i
  acquired  := hs.acquired

theorem Replays.record (hs : Replays mark σ log s) {e : Entry ι}
    (hexec : execute regex e.time e.command (replay regex mark log σ) = (replay regex mark log σ, e.reply))
    (hlocks : locks regex e.timed = false) :
    Replays mark σ (log ++ [.inl e]) (⟨s.shared.record e, s.task⟩ : Clients regex ι) := by
  have hreplay : replay regex mark (log ++ [.inl e]) σ = replay regex mark log σ := by
    rw [replay_concat, Server.apply, hexec]
  have hfilter : (s.shared.history ++ [e]).filter (fun e => locks regex e.timed) =
      s.shared.history.filter (fun e => locks regex e.timed) := by simp [hlocks]
  refine ⟨hs.exclusive, ?_, ?_, fun hlock => ?_, fun i => ?_, ?_⟩
  · rw [List.filterMap_append, hs.history]
    rfl
  · rw [answers_concat, hs.replies, Record.answer, hexec, Common.record, List.map_append]
    rfl
  · rw [hreplay]
    exact hs.server hlock
  · rw [hreplay]
    exact hs.midway i
  · simp only [Common.record, hfilter]
    exact hs.acquired

section
variable [DecidableEq ι] {i : ι} {t : Client regex}

theorem Replays.outside (hs : Replays mark σ log s) (hout : (s.task i).inside = false) (hout' : t.inside = false) :
    Replays mark σ log ⟨s.shared, Function.update s.task i t⟩ := by
  have htaken : Clients.taken ⟨s.shared, Function.update s.task i t⟩ = s.taken := by
    cases hlock : s.shared.lock with
    | none => rw [Clients.taken, Clients.taken, hlock]; rfl
    | some j =>
      have hne : j ≠ i := by
        rintro rfl
        rw [(hs.exclusive j).2 hlock] at hout
        cases hout
      simp only [Clients.taken, hlock, Option.elim_some, Function.update_of_ne hne]
  exact {
    exclusive := hs.exclusive.stay (hout'.trans hout.symm)
    history := hs.history
    replies := hs.replies
    server := hs.server
    midway := (Function.forall_update_iff s.task (p := fun _ t => Client.Midway _ _ t)).2
      ⟨Client.midway_of_outside hout', fun j _ => hs.midway j⟩
    acquired := hs.acquired.trans (congrArg _ htaken.symm) }

theorem Replays.inside (hs : Replays mark σ log s) {server : Server} (hin : (s.task i).inside = true)
    (hin' : t.inside = true) (hpending : t.pending = (s.task i).pending)
    (hmid : t.Midway (replay regex mark log σ) server) :
    Replays mark σ log ⟨{ s.shared with server }, Function.update s.task i t⟩ := by
  have hlock : s.shared.lock = some i := (hs.exclusive i).1 hin
  have htaken : s.taken = Clients.taken ⟨{ s.shared with server }, Function.update s.task i t⟩ := by
    simp only [Clients.taken, hlock, Option.elim_some, Function.update_self, hpending]
  exact {
    exclusive := hs.exclusive.stay (hin'.trans hin.symm)
    history := hs.history
    replies := hs.replies
    server := fun hnone => nomatch hlock.symm.trans hnone
    midway := (Function.forall_update_iff s.task (p := fun _ t => Client.Midway _ _ t)).2
      ⟨hmid, fun j hj => midway_of_ne hs.exclusive hin _ _ hj⟩
    acquired := hs.acquired.trans (congrArg _ htaken) }

theorem Replays.acquire (hs : Replays mark σ log s) {cmd : Command} (hlock : s.shared.lock = none)
    (hin : t.inside = true) (hpending : t.pending = [cmd])
    (hmid : t.Midway (replay regex mark log σ) (replay regex mark log σ)) :
    Replays mark σ log ⟨{ s.shared with lock := some i, acquired := s.shared.acquired ++ [(i, cmd)] },
      Function.update s.task i t⟩ := by
  have hserver := hs.server hlock
  have hacquired := hs.acquired
  rw [Clients.taken, hlock, Option.elim_none, List.append_nil] at hacquired
  exact {
    exclusive := Exclusive.acquire (hlock ▸ hs.exclusive) hin
    history := hs.history
    replies := hs.replies
    server := nofun
    midway := (Function.forall_update_iff s.task (p := fun _ t => Client.Midway _ _ t)).2
      ⟨by rw [hserver]; exact hmid, fun j _ => hs.midway j⟩
    acquired := by simp only [hacquired, Clients.taken, Option.elim_some, Function.update_self, hpending,
      List.map_singleton] }

theorem Replays.release (hs : Replays mark σ log s) {e : Entry ι} (he : e.who = i)
    (hin : (s.task i).inside = true) (hout : t.inside = false) (hpending : (s.task i).pending = [e.command])
    (hexec : execute regex e.time e.command (replay regex mark log σ) = (s.shared.server, e.reply))
    (hlocks : locks regex e.timed = true) :
    Replays mark σ (log ++ [.inl e]) ⟨Common.record e { s.shared with lock := none }, Function.update s.task i t⟩ := by
  have hlock : s.shared.lock = some i := (hs.exclusive i).1 hin
  have hacquired := hs.acquired
  rw [Clients.taken, hlock, Option.elim_some, hpending] at hacquired
  exact {
    exclusive := hs.exclusive.release hin hout
    history := by rw [List.filterMap_append, hs.history]; rfl
    replies := by rw [answers_concat, hs.replies, Record.answer, hexec, Common.record, List.map_append]; rfl
    server := fun _ => by rw [replay_concat, Server.apply, hexec]; rfl
    midway := (Function.forall_update_iff s.task (p := fun _ t => Client.Midway _ _ t)).2
      ⟨Client.midway_of_outside hout, fun j hj => midway_of_ne hs.exclusive hin _ _ hj⟩
    acquired := by simp [Common.record, Clients.taken, hacquired, hlocks, he] }

/-- **Every step of a call keeps the order**, and adds to it what it has recorded: it goes on outside, or it is the
holder's. -/
theorem replays_advances {sh : Common ι} (hs : Replays mark σ log s)
    (h : Advances i s.shared (s.task i).replied (s.task i).running sh t) :
    ∃ new : Option (Entry ι), sh.history = s.shared.history ++ new.toList ∧ (∀ e ∈ new, e.who = i) ∧
      Replays mark σ (log ++ new.toList.map .inl) ⟨sh, Function.update s.task i t⟩ := by
  have hmid := hs.midway i
  generalize hc : s.task i = c at h hmid
  obtain ⟨replied, running⟩ := c
  have hinside : (s.task i).inside = Client.inside ⟨replied, running⟩ := congrArg Client.inside hc
  have hpending : (s.task i).pending = Client.pending ⟨replied, running⟩ := congrArg Client.pending hc
  have hquiet : ∀ {sh : Common ι}, sh.history = s.shared.history →
      Replays mark σ log ⟨sh, Function.update s.task i t⟩ →
      ∃ new : Option (Entry ι), sh.history = s.shared.history ++ new.toList ∧ (∀ e ∈ new, e.who = i) ∧
        Replays mark σ (log ++ new.toList.map .inl) ⟨sh, Function.update s.task i t⟩ := fun hhistory hreplays =>
    ⟨none, hhistory.trans (List.append_nil _).symm, (fun _ he => nomatch he), (List.append_nil log).symm ▸ hreplays⟩
  have hmine : ∀ e : Entry ι, e.who = i → ∀ e' ∈ some e, e'.who = i := fun e he e' he' => Option.some.inj he' ▸ he
  cases h with
  | call c => exact hquiet rfl (hs.outside hinside rfl)
  | reply c res => exact hquiet rfl (hs.outside hinside rfl)
  | alone c rest rest' res p p' hin hin' h => exact hquiet rfl (hs.outside (hinside.trans hin) hin')
  | free c rest res now cmd reply h =>
    have hexec := execute_of_prepare h hs.frame.1 hs.frame.2
    exact ⟨some ⟨i, replied.length, now, cmd, reply⟩, rfl, hmine _ rfl,
      (hs.outside (t := ⟨replied, some ⟨c, rest, res ++ reply, .next⟩⟩) hinside rfl).record hexec.1 hexec.2⟩
  | acquire c rest res job hlock => exact hquiet rfl (hs.acquire hlock rfl rfl (Client.midway_some rfl))
  | work c rest res now hd =>
    have hstep := step_inside now s.shared.server hd
    exact hquiet rfl (hs.inside hinside hstep.1 (hstep.2.trans hpending.symm)
      (Client.midway_some (step_midway now (hmid _ rfl))))
  | release c rest res time cmd reply =>
    obtain ⟨hexec, hlocks⟩ : Point.Midway _ _ (.done time cmd reply) := hmid _ rfl
    exact ⟨some ⟨i, replied.length, time, cmd, reply⟩, rfl, hmine _ rfl,
      hs.release (e := ⟨i, replied.length, time, cmd, reply⟩) rfl hinside rfl hpending hexec hlocks⟩

end

end

end Rusdis
