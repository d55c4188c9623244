import Rusdis.Replay
/-!
# Linear — the commands are linearizable

In every state of a run, the replies and, while nobody holds the map's lock, the server are those of the executed
commands run one at a time in the order in which they acquired it (`calls_linear`).  The history is that order: only
the holder of the lock is midway (`Serial`, the order of `Replay` without marks), and every call has taken its commands
in theirs (`Kept`).
-/
namespace Rusdis

open Steps
open Decimal (intText readInt_intText)

section
variable {ι : Type}

/-- The commands of a history run one at a time: the server and the replies. -/
def serial (regex : List Char → Option (List Char → Bool)) (σ : Server) (h : List (Entry ι)) :
    Server × List (List Char) :=
  singly regex (h.map Entry.timed) σ

theorem serial_append (regex : List Char → Option (List Char → Bool)) (σ : Server) (h h' : List (Entry ι)) :
    serial regex σ (h ++ h') = ((serial regex (serial regex σ h).1 h').1,
      (serial regex σ h).2 ++ (serial regex (serial regex σ h).1 h').2) := by
  rw [serial, List.map_append, singly_append]
  rfl

theorem serial_single (regex : List Char → Option (List Char → Bool)) (σ : Server) (e : Entry ι) :
    serial regex σ [e] = ((execute regex e.time e.command σ).1, [(execute regex e.time e.command σ).2]) := by
  rw [serial, List.map_singleton, Entry.timed, singly_cons]
  rfl

/-- A call that has executed these entries was answered by their replies. -/
structure Returns (es : List (Entry ι)) (c : Call) (reply : List Char) : Prop where
  commands : es.map Entry.command = c.commands
  reply : reply = c.header ++ es.flatMap Entry.reply

section
variable [DecidableEq ι]

/-- What call `k` of connection `i` has executed. -/
def entries (h : List (Entry ι)) (i : ι) (k : Nat) : List (Entry ι) := h.filter (fun e => e.who = i ∧ e.call = k)

theorem entries_concat_self (h : List (Entry ι)) (e : Entry ι) :
    entries (h ++ [e]) e.who e.call = entries h e.who e.call ++ [e] := by simp [entries]

theorem entries_concat_other {h : List (Entry ι)} {e : Entry ι} {i : ι} {k : Nat} (hne : e.who = i → e.call ≠ k) :
    entries (h ++ [e]) i k = entries h i k := by
  have hfalse : ¬ (e.who = i ∧ e.call = k) := fun he => hne he.1 he.2
  simp [entries, hfalse]

end

/-! ## The order of the lock -/

variable {regex : List Char → Option (List Char → Bool)}

/-- A server with connections only makes no marks. -/
def noMark : Empty → Server → Server := Empty.elim

theorem replay_inl : ∀ (h : List (Entry ι)) (σ : Server), replay regex noMark (h.map .inl) σ = (serial regex σ h).1
  | [],     _ => rfl
  | e :: h, σ => by
    rw [← List.singleton_append, serial_append, serial_single, ← replay_inl h]
    rfl

theorem answers_inl : ∀ (h : List (Entry ι)) (σ : Server), answers regex noMark (h.map .inl) σ = (serial regex σ h).2
  | [],     _ => rfl
  | e :: h, σ => by
    rw [← List.singleton_append, serial_append, serial_single, ← answers_inl h]
    rfl

/-- Only the holder of the lock is midway; all others see the server of the history. -/
abbrev Serial (σ : Server) (s : Clients regex ι) : Prop := Replays noMark σ (s.shared.history.map .inl) s

theorem serial_start (σ : Server) : Serial σ (Clients.start σ : Clients regex ι) := replays_start noMark σ

variable {σ : Server} {s s' : Clients regex ι} {i : ι}

theorem Serial.replies (hs : Serial σ s) : (serial regex σ s.shared.history).2 = s.shared.history.map Entry.reply :=
  (answers_inl _ σ).symm.trans (Replays.replies hs)

theorem Serial.server (hs : Serial σ s) (hlock : s.shared.lock = none) :
    s.shared.server = (serial regex σ s.shared.history).1 := (Replays.server hs hlock).trans (replay_inl _ σ)

theorem Serial.midway (hs : Serial σ s) (i : ι) :
    (s.task i).Midway (serial regex σ s.shared.history).1 s.shared.server :=
  replay_inl s.shared.history σ ▸ Replays.midway hs i

/-- A command ends before the lock as the history of its server has it. -/
theorem Serial.frame (hs : Serial σ s) : s.shared.server.args = (serial regex σ s.shared.history).1.args ∧
    s.shared.server.replicationInfo = (serial regex σ s.shared.history).1.replicationInfo :=
  replay_inl s.shared.history σ ▸ Replays.frame hs

section
variable [DecidableEq ι]

/-- **Every step keeps the order.** -/
theorem serial_advances {sh : Common ι} {t : Client regex} (hs : Serial σ s)
    (h : Advances i s.shared (s.task i).replied (s.task i).running sh t) :
    Serial σ ⟨sh, Function.update s.task i t⟩ := by
  obtain ⟨new, hhistory, -, hreplays⟩ := replays_advances hs h
  rw [← List.map_append, ← hhistory] at hreplays
  exact hreplays

theorem serial_step {a : ι × Act} (h : s.step Client.act a = some s') (hs : Serial σ s) : Serial σ s' := by
  obtain ⟨i, c⟩ := a
  obtain ⟨sh, t, hact, rfl⟩ := step_eq_some.1 h
  exact serial_advances hs (act_advances hact)

end

/-! ## The order of a call -/

/-- Every finished call of a connection was answered by what it executed, and the call under way has executed its
commands up to the one it has taken. -/
structure Kept [DecidableEq ι] (h : List (Entry ι)) (i : ι) (t : Client regex) : Prop where
  finished : ∀ {k c reply}, t.replied[k]? = some (c, reply) → Returns (entries h i k) c reply
  idle     : t.running = none → entries h i t.replied.length = []
  current  : ∀ r ∈ t.running, r.call.commands =
      (entries h i t.replied.length).map Entry.command ++ (r.point.pending ++ r.rest) ∧
    r.res = r.call.header ++ (entries h i t.replied.length).flatMap Entry.reply
  later    : ∀ k, t.replied.length < k → entries h i k = []

section
variable [DecidableEq ι] {h : List (Entry ι)} {replied : List (Call × List Char)} {c : Call}
  {rest rest' : List Command} {res : List Char} {p p' : Point regex}

theorem kept_start (σ : Server) (j : ι) : Kept (Clients.start σ : Clients regex ι).shared.history j
    ((Clients.start σ : Clients regex ι).task j) where
  finished := nofun
  idle     := fun _ => rfl
  current  := fun _ hr => nomatch hr
  later    := fun _ _ => rfl

theorem Kept.other {t : Client regex} (hk : Kept h i t) {e : Entry ι} (he : e.who ≠ i) : Kept (h ++ [e]) i t := by
  have hsame : ∀ k, entries (h ++ [e]) i k = entries h i k := fun k => entries_concat_other (fun hi => absurd hi he)
  constructor
  · intro k c reply hget
    rw [hsame]
    exact hk.finished hget
  · rw [hsame]
    exact hk.idle
  · rw [hsame]
    exact hk.current
  · intro k hlt
    rw [hsame]
    exact hk.later k hlt

theorem Kept.call (hk : Kept h i (⟨replied, none⟩ : Client regex)) :
    Kept h i (⟨replied, some ⟨c, c.commands, c.header, .next⟩⟩ : Client regex) := by
  refine ⟨hk.finished, nofun, fun r hr => ?_, hk.later⟩
  obtain rfl := Option.some.inj hr
  have hidle : entries h i replied.length = [] := hk.idle rfl
  simp [hidle, Point.pending]

theorem Kept.goto (hk : Kept h i ⟨replied, some ⟨c, rest, res, p⟩⟩) (hp : p.pending ++ rest = p'.pending ++ rest') :
    Kept h i ⟨replied, some ⟨c, rest', res, p'⟩⟩ := by
  refine ⟨hk.finished, nofun, fun r hr => ?_, hk.later⟩
  obtain rfl := Option.some.inj hr
  obtain ⟨hcommands, hres⟩ := hk.current _ rfl
  exact ⟨hcommands.trans (congrArg _ hp), hres⟩

/-- A command ends with its reply. -/
theorem Kept.record (hk : Kept h i ⟨replied, some ⟨c, rest, res, p⟩⟩) {time : SystemTime} {cmd : Command}
    {reply : List Char} (hp : p.pending ++ rest = cmd :: (p'.pending ++ rest')) :
    Kept (h ++ [⟨i, replied.length, time, cmd, reply⟩]) i ⟨replied, some ⟨c, rest', res ++ reply, p'⟩⟩ := by
  have hself : entries (h ++ [⟨i, replied.length, time, cmd, reply⟩]) i replied.length =
      entries h i replied.length ++ [⟨i, replied.length, time, cmd, reply⟩] :=
    entries_concat_self h ⟨i, replied.length, time, cmd, reply⟩
  have hother : ∀ k, replied.length ≠ k →
      entries (h ++ [⟨i, replied.length, time, cmd, reply⟩]) i k = entries h i k :=
    fun k hne => entries_concat_other (fun _ => hne)
  refine ⟨fun {k c' reply'} hget => ?_, nofun, fun r hr => ?_, fun k hlt => ?_⟩
  · obtain ⟨hlt, -⟩ := List.getElem?_eq_some_iff.1 hget
    rw [hother k (Nat.ne_of_gt hlt)]
    exact hk.finished hget
  · obtain rfl := Option.some.inj hr
    obtain ⟨hcommands, hres⟩ := hk.current _ rfl
    simp only at hcommands hres
    refine ⟨?_, ?_⟩
    · rw [hself, hcommands, hp]
      simp
    · rw [hself, hres]
      simp
  · rw [hother k (Nat.ne_of_lt hlt)]
    exact hk.later k hlt

/-- A call ends with its reply. -/
theorem Kept.reply (hk : Kept h i (⟨replied, some ⟨c, [], res, .next⟩⟩ : Client regex)) :
    Kept h i (⟨replied ++ [(c, res)], none⟩ : Client regex) := by
  obtain ⟨hcommands, hres⟩ := hk.current _ rfl
  have hlater : ∀ k, (replied ++ [(c, res)]).length ≤ k → entries h i k = [] := fun k hlt =>
    hk.later k (by rwa [List.length_append, List.length_singleton] at hlt)
  refine ⟨fun {k c' reply'} hget => ?_, fun _ => hlater _ (Nat.le_refl _), (fun _ hr => nomatch hr),
    fun k hlt => hlater k (Nat.le_of_lt hlt)⟩
  rcases Nat.lt_trichotomy k replied.length with hlt | rfl | hlt
  · exact hk.finished (by rwa [List.getElem?_append_left hlt] at hget)
  · rw [List.getElem?_concat_length] at hget
    cases hget
    exact ⟨by simpa [Point.pending] using hcommands.symm, hres⟩
  · rw [List.getElem?_eq_none (by rw [List.length_append, List.length_singleton]; exact hlt)] at hget
    cases hget

theorem kept_advances {sh : Common ι} {t : Client regex} (hs : ∀ j, Kept s.shared.history j (s.task j))
    (h : Advances i s.shared (s.task i).replied (s.task i).running sh t) (j : ι) :
    Kept sh.history j (Function.update s.task i t j) := by
  have hi := hs i
  revert j
  refine (Function.forall_update_iff s.task (p := fun j t => Kept sh.history j t)).2 ?_
  generalize s.task i = u at h hi
  obtain ⟨replied, running⟩ := u
  cases h with
  | call c => exact ⟨hi.call, fun j _ => hs j⟩
  | reply c res => exact ⟨hi.reply, fun j _ => hs j⟩
  | free c rest res now cmd reply h => exact ⟨hi.record rfl, fun j hj => (hs j).other (Ne.symm hj)⟩
  | alone c rest rest' res p p' hin hin' h => exact ⟨hi.goto h, fun j _ => hs j⟩
  | acquire c rest res job hlock => exact ⟨hi.goto rfl, fun j _ => hs j⟩
  | work c rest res now hd =>
    have hpending : Point.pending (.held hd) ++ rest = (hd.step now s.shared.server).2.pending ++ rest := by
      rw [(step_inside now s.shared.server hd).2, Point.pending]
    exact ⟨hi.goto hpending, fun j _ => hs j⟩
  | release c rest res time cmd reply => exact ⟨hi.record rfl, fun j hj => (hs j).other (Ne.symm hj)⟩

theorem kept_step {a : ι × Act} (h : s.step Client.act a = some s') (hs : ∀ j, Kept s.shared.history j (s.task j)) :
    ∀ j, Kept s'.shared.history j (s'.task j) := by
  obtain ⟨i, c⟩ := a
  obtain ⟨sh, t, hact, rfl⟩ := step_eq_some.1 h
  exact kept_advances hs (act_advances hact)

end

/-! ## A counter -/

/-- The command stores a value under the key. -/
def Writes (key : List Char) (c : SystemTime × Command) : Prop :=
  ∃ value px, c.2 = .set key value px ∧ setExpiration c.1 px ≠ none

def integerReply (v : Int) : List Char := [':'] ++ intText v ++ crlf

/-- An entry that never expires stays while nobody stores or counts under its key. -/
theorem lookup_execute {now : SystemTime} {cmd : Command} {σ : Server} {key : List Char} {d : StringData}
    (hd : σ.map.lookup key = some d) (hexp : d.expiration = none) (hwrites : ¬ Writes key (now, cmd))
    (hincr : cmd ≠ .incr key) : (execute regex now cmd σ).1.map.lookup key = some d := by
  cases cmd with
  | set key' value px =>
    cases he : setExpiration now px with
    | none =>
      rw [execute, executeSet, he]
      exact hd
    | some e =>
      have hne : key ≠ key' := by
        rintro rfl
        exact hwrites ⟨value, px, rfl, by rw [he]; simp⟩
      rw [execute, executeSet_map he, AList.lookup_insert_ne hne]
      exact hd
  | get key' =>
    rcases executeGet_map now key' σ with hm | ⟨key'', d', hd', hexp', hm⟩
    · rw [execute, hm]
      exact hd
    · have hne : key ≠ key'' := by
        rintro rfl
        obtain rfl := Option.some.inj (hd.symm.trans hd')
        exact hexp' hexp
      rw [execute, hm, AList.lookup_erase_ne hne]
      exact hd
  | incr key' =>
    have hne : key ≠ key' := by
      rintro rfl
      exact hincr rfl
    exact (lookup_executeIncr_ne hne σ).trans hd
  | _ => exact hd

theorem executeIncr_integer {σ : Server} {key : List Char} {d : StringData} {v : Int}
    (hd : σ.map.lookup key = some d) (hv : parseI64 d.data = .ok v) (hlt : v < 9223372036854775807) :
    executeIncr key σ =
      ({ σ with map := σ.map.insert key (d.setData (intText (v + 1))) }, integerReply (v + 1)) := by
  simp only [executeIncr, orInsert, hd, hv, if_pos hlt]
  rfl

def incrs (key : List Char) (h : List (Entry ι)) : List (Entry ι) := h.filter (fun e => e.command = .incr key)

/-- **The `INCR`s of a key that nobody else writes count up from its value.** -/
theorem incr_replies {key : List Char} : ∀ (h : List (Entry ι)) {σ : Server} {d : StringData} {v : Int},
    (serial regex σ h).2 = h.map Entry.reply → σ.map.lookup key = some d → d.expiration = none →
      parseI64 d.data = .ok v → (∀ e ∈ h, ¬ Writes key e.timed) → v + (incrs key h).length ≤ 9223372036854775807 →
        (incrs key h).map Entry.reply =
          (List.range (incrs key h).length).map (fun j : Nat => integerReply (v + 1 + j))
  | [], _, _, _, _, _, _, _, _, _ => rfl
  | e :: h, σ, d, v, hreplies, hd, hexp, hv, hwrites, hle => by
    rw [← List.singleton_append, serial_append, serial_single, List.singleton_append, List.singleton_append,
      List.map_cons] at hreplies
    obtain ⟨hreply, hrest⟩ := List.cons.inj hreplies
    have hwrites' : ∀ e ∈ h, ¬ Writes key e.timed := fun e' he => hwrites e' (List.mem_cons_of_mem _ he)
    by_cases hincr : e.command = .incr key
    · have hincrs : incrs key (e :: h) = e :: incrs key h := List.filter_cons_of_pos (by simpa using hincr)
      rw [hincrs, List.length_cons] at hle ⊢
      have hlt : v < 9223372036854775807 := by omega
      have hlo := (Decimal.readInt_range (by decide) (by decide) hv).1
      have hexec : execute regex e.time e.command σ =
          ({ σ with map := σ.map.insert key (d.setData (intText (v + 1))) }, integerReply (v + 1)) := by
        rw [hincr]
        exact executeIncr_integer hd hv hlt
      rw [hexec] at hreply hrest
      have hv' : parseI64 (d.setData (intText (v + 1))).data = .ok (v + 1) :=
        readInt_intText (by omega) (by omega) (by decide) (by decide)
      have ih := incr_replies h hrest (AList.lookup_insert _) hexp hv' hwrites' (by push_cast at hle; omega)
      rw [List.map_cons, ih, List.range_succ_eq_map, List.map_cons, List.map_map, ← hreply]
      refine congrArg₂ List.cons (by simp) (List.map_congr_left (fun j _ => ?_))
      simp only [Function.comp_apply, Nat.succ_eq_add_one]
      push_cast
      congr 1
      omega
    · have hincrs : incrs key (e :: h) = incrs key h := List.filter_cons_of_neg (by simpa using hincr)
      rw [hincrs] at hle ⊢
      exact incr_replies h hrest (lookup_execute hd hexp (hwrites e List.mem_cons_self) hincr) hexp hv hwrites' hle

/-! ## Whole runs -/

section
variable [DecidableEq ι]

/-- What the order of the lock says of a state. -/
structure Linear (σ : Server) (s : Clients regex ι) : Prop where
  replies  : (serial regex σ s.shared.history).2 = s.shared.history.map Entry.reply
  server   : s.shared.lock = none → s.shared.server = (serial regex σ s.shared.history).1
  order    : s.shared.acquired =
    (s.shared.history.filter (fun e => locks regex e.timed)).map (fun e => (e.who, e.command)) ++ s.taken
  returned : ∀ i k c reply, (s.task i).replied[k]? = some (c, reply) → Returns (entries s.shared.history i k) c reply
  counted  : ∀ key d v, σ.map.lookup key = some d → d.expiration = none → parseI64 d.data = .ok v →
    (∀ e ∈ s.shared.history, ¬ Writes key e.timed) →
      v + (s.shared.history.filter (fun e => e.command = .incr key)).length ≤ 9223372036854775807 →
        (s.shared.history.filter (fun e => e.command = .incr key)).map Entry.reply =
          (List.range (s.shared.history.filter (fun e => e.command = .incr key)).length).map
            (fun j : Nat => integerReply (v + 1 + j))
  removes  : ∀ i, ∀ r ∈ (s.task i).running, ∀ time key d, r.point = .held (.stale time key d) →
    s.shared.server.map.lookup key = some d ∧ d.isExpired time = true

/-- **The commands are linearizable**: whatever the interleaving, the replies and the server are those of the commands
run one at a time in the order in which they acquired the lock.  So the `INCR`s of a key that nobody else writes count
up, and a `GET` removes no entry but the expired one it has read. -/
theorem calls_linear {acts : List (ι × Act)} (hrun : (Clients.start σ).run acts = some s) : Linear σ s := by
  have hs : Serial σ s := run_keeps serial_step hrun (serial_start σ)
  have hk : ∀ j, Kept s.shared.history j (s.task j) := run_keeps kept_step hrun (kept_start σ)
  exact {
    replies  := hs.replies
    server   := hs.server
    order    := hs.acquired
    returned := fun i k c reply hget => (hk i).finished hget
    counted  := fun key d v => incr_replies s.shared.history hs.replies
    removes  := fun i r hr time key d hpoint => by
      have hmid := hs.midway i r hr
      rw [hpoint] at hmid
      rw [hmid.1]
      exact hmid.2 }

end

end

/-- Two connections count one key; the second waits for the lock until the first has counted. -/
theorem calls_linear_two :
    let σ : Server := { Server.start .master 0 with map := AList.insert ['k'] ⟨['5'], none⟩ ∅ }
    let go (i : Bool) (n : Nat) : List (Bool × Act) := List.replicate n (i, .go 0)
    ∃ s : Clients (fun _ => none) Bool,
      (Clients.start σ).run ([(false, .call (.single (.incr ['k']))), (true, .call (.single (.incr ['k'])))] ++
        go false 4 ++ go true 2 ++ go false 3 ++ go true 5) = some s ∧ Linear σ s ∧
      (s.task false).replied = [(.single (.incr ['k']), ":6\r\n".toList)] ∧
      (s.task true).replied = [(.single (.incr ['k']), ":7\r\n".toList)] := by
  intro σ go
  have hrun : ((Clients.start σ : Clients (fun _ => none) Bool).run
      ([(false, .call (.single (.incr ['k']))), (true, .call (.single (.incr ['k'])))] ++
        go false 4 ++ go true 2 ++ go false 3 ++ go true 5)).map
        (fun s => ((s.task false).replied, (s.task true).replied)) =
      some ([(.single (.incr ['k']), ":6\r\n".toList)], [(.single (.incr ['k']), ":7\r\n".toList)]) := by
    decide +kernel
  obtain ⟨s, hs, hreplied⟩ := Option.map_eq_some_iff.1 hrun
  exact ⟨s, hs, calls_linear hs, Prod.mk.inj hreplied⟩

end Rusdis
