import Rusdis.Replay
import Rusdis.Replica
/-!
# Offset — what a replica does to its server beside the commands

Its loop counts the bytes of its `SET`s, and its `main` may replace the map by that of an RDB file once.  A count changes
nothing that a command inside the map's lock reads (`midway_incrementOffset`), and the map is replaced while nobody
holds its lock, so both have a place in the order of the commands (`Replays.count`, `Replays.load`).
-/
namespace Rusdis

open Steps

inductive Mark where
  | count (n : UInt64)
  | load (map : DataMap)

def Server.mark : Mark → Server → Server
  | .count n,  σ => σ.incrementOffset n
  | .load map, σ => { σ with map }

section
variable {ι : Type} {regex : List Char → Option (List Char → Bool)}

/-! ## A count beside a command -/

theorem propagate_incrementOffset (cmd : Command) (n : UInt64) (σ : Server) :
    (σ.incrementOffset n).propagate cmd = (σ.propagate cmd).incrementOffset n := by
  unfold Server.propagate
  by_cases hrole : σ.replicationInfo.role = .master ∧ σ.slavesCount ≠ 0
  · rw [if_pos hrole]
    exact if_pos hrole
  · rw [if_neg hrole]
    exact if_neg hrole

/-- **A command inside the lock does not see a count.** -/
theorem execute_incrementOffset {now : SystemTime} {cmd : Command} (h : locks regex (now, cmd) = true) (n : UInt64)
    (σ : Server) : execute regex now cmd (σ.incrementOffset n) =
      ((execute regex now cmd σ).1.incrementOffset n, (execute regex now cmd σ).2) := by
  cases cmd with
  | set key value px =>
    simp only [execute, executeSet]
    split
    · rfl
    · rename_i e he
      exact congrArg (Prod.mk · _) (propagate_incrementOffset (.set key value px) n (σ.store key ⟨value, e⟩))
  | get key =>
    simp only [execute, executeGet, Server.incrementOffset]
    split
    · split <;> rfl
    · rfl
  | keys patternString => rfl
  | incr key =>
    simp only [execute, executeIncr, Server.incrementOffset]
    split <;> rfl
  | _ => cases h

theorem midway_incrementOffset {S σ : Server} {p : Point regex} (h : p.Midway S σ) (n : UInt64) :
    p.Midway (S.incrementOffset n) (σ.incrementOffset n) := by
  cases p with
  | next | ready | fetched => trivial
  | held hd =>
    cases hd with
    | locked job => exact congrArg (Server.incrementOffset n) h
    | stored time key value px =>
      obtain ⟨e, he, rfl⟩ := h
      exact ⟨e, he, rfl⟩
    | stale time key d =>
      obtain ⟨rfl, hd⟩ := h
      exact ⟨rfl, hd⟩
    | entered key d =>
      obtain ⟨hentry, hσ⟩ := h
      exact ⟨hentry, congrArg (Server.incrementOffset n) hσ⟩
  | done time cmd reply =>
    obtain ⟨hexec, hlocks⟩ := h
    refine ⟨?_, hlocks⟩
    rw [execute_incrementOffset hlocks, hexec]

/-! ## Their place in the order -/

variable {σ : Server} {log : List (Record ι Mark)} {s : Clients regex ι}

/-- **The loop counts between the steps of the calls.** -/
theorem Replays.count (hs : Replays Server.mark σ log s) (n : UInt64) : Replays Server.mark σ (log ++ [.inr (.count n)])
    ⟨{ s.shared with server := s.shared.server.incrementOffset n }, s.task⟩ :=
  hs.marked (.count n) (fun i r hr => midway_incrementOffset (hs.midway i r hr) n)

/-- **The map is replaced while nobody is midway.** -/
theorem Replays.load (hs : Replays Server.mark σ log s) (hlock : s.shared.lock = none) (map : DataMap) :
    Replays Server.mark σ (log ++ [.inr (.load map)])
      ⟨{ s.shared with server := { s.shared.server with map } }, s.task⟩ := by
  refine hs.marked (.load map) (fun i => Client.midway_of_outside (Bool.eq_false_iff.2 (fun hin => ?_)))
  cases hlock.symm.trans ((hs.exclusive i).1 hin)

/-! ## A step of a call -/

/-- No step of a call changes the replication info. -/
theorem advances_info {i : ι} {t : Client regex} {sh sh' : Common ι} {replied : List (Call × List Char)}
    {running : Option (Running regex)} (h : Advances i sh replied running sh' t) :
    sh'.server.replicationInfo = sh.server.replicationInfo := by
  cases h with
  | work c rest res now hd =>
    change (hd.step now sh.server).1.replicationInfo = _
    cases hd with
    | locked job =>
      cases job with
      | get key =>
        simp only [Held.step]
        split <;> rfl
      | _ => rfl
    | stored time key value px =>
      simp only [Held.step, Server.propagate]
      split <;> rfl
    | stale => rfl
    | entered key d =>
      simp only [Held.step]
      split <;> rfl
  | _ => rfl

/-- What a step of a call has recorded it has taken from the call's commands, and answered in its reply. -/
theorem advances_taken {i : ι} {t : Client regex} {sh sh' : Common ι} {replied : List (Call × List Char)}
    {r r' : Running regex} (h : Advances i sh replied (some r) sh' t) (hrunning : t.running = some r')
    {new : List (Entry ι)} (hhistory : sh'.history = sh.history ++ new) :
    new.map Entry.command ++ (r'.point.pending ++ r'.rest) = r.point.pending ++ r.rest ∧
      r'.res = r.res ++ new.flatMap Entry.reply := by
  have hquiet : sh'.history = sh.history → new = [] := fun hsame =>
    List.self_eq_append_right.1 (hsame.symm.trans hhistory)
  cases h with
  | reply c res => cases hrunning
  | free c rest res now cmd reply h =>
    obtain rfl := List.append_cancel_left hhistory
    obtain rfl := Option.some.inj hrunning
    exact ⟨rfl, congrArg (res ++ ·) (List.append_nil reply).symm⟩
  | alone c rest rest' res p p' hin hin' h =>
    obtain rfl := hquiet rfl
    obtain rfl := Option.some.inj hrunning
    exact ⟨h.symm, (List.append_nil _).symm⟩
  | acquire c rest res job hlock =>
    obtain rfl := hquiet rfl
    obtain rfl := Option.some.inj hrunning
    exact ⟨rfl, (List.append_nil _).symm⟩
  | work c rest res now hd =>
    obtain rfl := hquiet rfl
    obtain rfl := Option.some.inj hrunning
    exact ⟨congrArg (· ++ rest) (step_inside now sh.server hd).2, (List.append_nil _).symm⟩
  | release c rest res time cmd reply =>
    obtain rfl := List.append_cancel_left hhistory
    obtain rfl := Option.some.inj hrunning
    exact ⟨rfl, congrArg (res ++ ·) (List.append_nil reply).symm⟩

/-! ## A part without a load -/

/-- The map is not replaced in this part of the order. -/
def Unloaded (log : List (Record ι Mark)) : Prop := ∀ map, .inr (.load map) ∉ log

theorem unloaded_nil : Unloaded ([] : List (Record ι Mark)) := fun _ => List.not_mem_nil

theorem unloaded_inl (new : List (Entry ι)) : Unloaded (new.map .inl) := fun map hmem => by
  obtain ⟨e, -, he⟩ := List.mem_map.1 hmem
  cases he

theorem unloaded_count (n : UInt64) : Unloaded ([.inr (.count n)] : List (Record ι Mark)) := fun map hmem => by
  cases List.mem_singleton.1 hmem

theorem Unloaded.append {log log' : List (Record ι Mark)} (h : Unloaded log) (h' : Unloaded log') :
    Unloaded (log ++ log') := fun map hmem => (List.mem_append.1 hmem).elim (h map) (h' map)

/-! ## What one task has done -/

section
variable [DecidableEq ι]

/-- The commands of one task in an order, and the counts. -/
def own (i : ι) (log : List (Record ι Mark)) : List (Command ⊕ UInt64) :=
  log.filterMap (fun record => match record with
    | .inl e => if e.who = i then some (.inl e.command) else none
    | .inr (.count n) => some (.inr n)
    | .inr (.load _)  => none)

variable {i : ι}

theorem own_append (log log' : List (Record ι Mark)) : own i (log ++ log') = own i log ++ own i log' :=
  List.filterMap_append

theorem own_mine {new : Option (Entry ι)} (h : ∀ e ∈ new, e.who = i) :
    own i (new.toList.map .inl) = (new.toList.map Entry.command).map .inl := by
  cases new with
  | none => rfl
  | some e =>
    have he : e.who = i := h e rfl
    simp [own, he]

theorem own_other {j : ι} (hj : j ≠ i) {new : Option (Entry ι)} (h : ∀ e ∈ new, e.who = j) :
    own i (new.toList.map .inl) = [] := by
  cases new with
  | none => rfl
  | some e =>
    have he : e.who = j := h e rfl
    simp [own, he, hj]

end

end

end Rusdis
