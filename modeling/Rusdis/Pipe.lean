import Rusdis.Tasks
/-!
# Pipe — what reaches a replica

Between its `+FULLRESYNC` and the increment of `SLAVES_COUNT` a replica misses the `SET`s whose tasks find no receiver
or no replica, and a receiver that lags skips messages for good.  A run without such steps writes to the replica what
was inserted since (`replica_follows`).
-/
namespace Rusdis

open Steps Utf8

/-- The messages the receiver has not yet taken. -/
def Stream.incoming (sent : List (List Char)) (r : Stream) : List (List Char) :=
  r.position.elim [] (fun position => sent.drop position)

section
variable {ι : Type} {capacity : Nat} {k : ι}

/-- The step keeps the stream of replica `k` with the inserts: no `SET` inserted since its `+FULLRESYNC` goes unsent,
those and no others are sent while it has a receiver, and the receiver does not lag when it receives. -/
abbrev Steady (capacity : Nat) (k : ι) (s : Tasks ι) (a : ι × Choice) : Prop :=
  ∀ r ∈ (s.task k).stream,
    ((s.task a.1).skips s.shared.server = true → s.shared.inserts.length ≤ r.inserted) ∧
    ((s.task a.1).sends = true → (r.inserted < s.shared.inserts.length ↔ r.position ≠ none)) ∧
    (a.1 = k → (s.task k).receives = true → (r.incoming s.shared.server.broadcast).length ≤ capacity)

/-- A stream is in step: what it has taken and what is on its way are the messages of the settled `SET`s since its
`+FULLRESYNC`. -/
structure InStep (settled : List Command) (sent : List (List Char)) (r : Stream) : Prop where
  position : ∀ position ∈ r.position, position ≤ sent.length
  messages : r.taken ++ (r.incoming sent).map encode =
    (settled.drop r.inserted).map (fun c => encode (generateResp c))

/-- The stream of replica `k` is in step, but for the `SET` that waits to be sent. -/
structure Follows (k : ι) (s : Tasks ι) : Prop where
  exclusive : s.Exclusive
  inStep    : ∃ settled, s.shared.inserts = settled ++ s.waiting.map Setting.command ∧
    ∀ r ∈ (s.task k).stream, InStep settled s.shared.server.broadcast r

theorem follows_start (k : ι) (σ : Server) : Follows k (Tasks.start σ : Tasks ι) :=
  ⟨exclusive_start σ, [], rfl, nofun⟩

variable {settled : List Command} {sent : List (List Char)} {r : Stream}

/-- A skipped `SET` that was inserted before the stream began is not missed. -/
theorem InStep.skip (h : InStep settled sent r) {c : Command} (hlen : (settled ++ [c]).length ≤ r.inserted) :
    InStep (settled ++ [c]) sent r := by
  have hlen' : settled.length ≤ r.inserted := le_trans (by simp) hlen
  refine ⟨h.position, ?_⟩
  rw [h.messages, List.drop_eq_nil_of_le hlen, List.drop_eq_nil_of_le hlen']

/-- A sent `SET` is on its way exactly when it was inserted since. -/
theorem InStep.send (h : InStep settled sent r) {c : Command}
    (hiff : r.inserted < (settled ++ [c]).length ↔ r.position ≠ none) :
    InStep (settled ++ [c]) (sent ++ [generateResp c]) r := by
  obtain ⟨hposition, hmessages⟩ := h
  cases hp : r.position with
  | none =>
    have hlen : (settled ++ [c]).length ≤ r.inserted := Nat.not_lt.1 (fun hlt => hiff.1 hlt hp)
    have hlen' : settled.length ≤ r.inserted := le_trans (by simp) hlen
    rw [Stream.incoming, hp, List.drop_eq_nil_of_le hlen'] at hmessages
    refine ⟨by rw [hp]; nofun, ?_⟩
    rw [Stream.incoming, hp, List.drop_eq_nil_of_le hlen]
    exact hmessages
  | some position =>
    have hle := hposition position hp
    have hlt : r.inserted ≤ settled.length := by
      have := hiff.2 (by rw [hp]; simp)
      rwa [List.length_append, List.length_singleton, Nat.lt_succ_iff] at this
    rw [Stream.incoming, hp] at hmessages
    refine ⟨fun q hq => ?_, ?_⟩
    · rw [hp] at hq
      obtain rfl := Option.some.inj hq
      exact le_trans hle (by simp)
    · rw [Stream.incoming, hp, List.drop_append_of_le_length hlt, List.map_append, ← hmessages]
      simp only [Option.elim_some, List.drop_append_of_le_length hle, List.map_append, List.map_cons, List.map_nil,
        List.append_assoc]

theorem InStep.receive (h : InStep settled sent r) {position : Nat} (hp : r.position = some position)
    {m : Option (List Char) × Nat} (hm : recv capacity sent position = some m)
    (hnear : (r.incoming sent).length ≤ capacity) :
    InStep settled sent { r with position := some m.2, taken := r.taken ++ (m.1.map encode).toList } := by
  obtain ⟨hposition, hmessages⟩ := h
  rw [Stream.incoming, hp] at hnear hmessages
  obtain ⟨msg, rfl, hlt, hdrop⟩ := recv_near hm (by rwa [Option.elim_some, List.length_drop] at hnear)
  refine ⟨fun q hq => ?_, ?_⟩
  · obtain rfl := Option.some.inj hq
    exact hlt
  · rw [← hmessages, Option.elim_some, hdrop, List.map_cons, List.append_cons]
    rfl

variable {s s' : Tasks ι} {i : ι} {c : Choice}

theorem follows_of_effect (hs : Follows k s) (hex : s'.Exclusive) (heff : Effect s i s')
    (hok : Steady capacity k s (i, c)) (hst : ∀ r ∈ (s'.task k).stream, r ∈ (s.task k).stream) : Follows k s' := by
  obtain ⟨settled, hins, hstep⟩ := hs.inStep
  refine ⟨hex, ?_⟩
  cases heff with
  | quiet hins' hsent hwait hmap =>
    refine ⟨settled, by rw [hins', hwait]; exact hins, fun r hr => ?_⟩
    rw [hsent]
    exact hstep r (hst r hr)
  | insert w hsh hwait hwait' =>
    rw [hwait, List.map_nil, List.append_nil] at hins
    refine ⟨settled, by rw [hsh, hwait', ← hins]; rfl, fun r hr => ?_⟩
    rw [hsh]
    exact hstep r (hst r hr)
  | skip w hskip hsh hwait hwait' =>
    rw [hwait, List.map_cons, List.map_nil] at hins
    refine ⟨settled ++ [w.command], by rw [hsh, hwait', hins]; simp, fun r hr => ?_⟩
    have hlen := (hok r (hst r hr)).1 hskip
    rw [hins] at hlen
    rw [hsh]
    exact (hstep r (hst r hr)).skip hlen
  | send w hsend hsh hwait hwait' =>
    rw [hwait, List.map_cons, List.map_nil] at hins
    refine ⟨settled ++ [w.command], by rw [hsh, hwait', ← hins]; simp [Shared.send], fun r hr => ?_⟩
    have hiff := (hok r (hst r hr)).2.1 hsend
    rw [hins] at hiff
    rw [hsh]
    exact (hstep r (hst r hr)).send hiff

variable [DecidableEq ι]

theorem follows_of_stream (hs : Follows k s) {t : Task} (hex : Tasks.Exclusive ⟨s.shared, Function.update s.task k t⟩)
    (hun : t.unsent = (s.task k).unsent) {r : Stream} (hst : t.stream = some r)
    (hr : ∀ settled, s.shared.inserts = settled ++ s.waiting.map Setting.command →
      (∀ q ∈ (s.task k).stream, InStep settled s.shared.server.broadcast q) →
        InStep settled s.shared.server.broadcast r) :
    Follows k ⟨s.shared, Function.update s.task k t⟩ := by
  obtain ⟨settled, hins, hstep⟩ := hs.inStep
  have hwait : Tasks.waiting ⟨s.shared, Function.update s.task k t⟩ = s.waiting := carried_update hun
  refine ⟨hex, settled, by rw [hwait]; exact hins, ?_⟩
  simp only [Function.update_self, hst, Option.mem_def, Option.some.injEq, forall_eq']
  exact hr settled hins hstep

theorem follows_step {a : ι × Choice} (h : s.step (act capacity) a = some s') (hok : Steady capacity k s a)
    (hs : Follows k s) : Follows k s' := by
  obtain ⟨i, c⟩ := a
  obtain ⟨sh, t, hact, rfl⟩ := step_eq_some.1 h
  have hmoves := act_moves hact
  obtain ⟨hex, heff⟩ := moves_effect hs.exclusive hmoves
  by_cases hk : i = k
  · subst hk
    have hsame : (∀ r ∈ t.stream, r ∈ (s.task i).stream) → Follows i ⟨sh, Function.update s.task i t⟩ := by
      intro hst
      refine follows_of_effect hs hex heff hok ?_
      simp only [Function.update_self]
      exact hst
    cases hmoves with
    | resync hin hun hst =>
      refine follows_of_stream hs hex hun hst (fun settled hins _ => ⟨nofun, ?_⟩)
      rw [List.drop_eq_nil_of_le (by rw [hins]; simp)]
      rfl
    | subscribe q hin hun hst hpos hst' =>
      refine follows_of_stream hs hex hun hst' (fun settled hins hstep => ?_)
      obtain ⟨-, hmessages⟩ := hstep q hst
      rw [Stream.incoming, hpos] at hmessages
      refine ⟨fun p hp => le_of_eq (Option.some.inj hp).symm, ?_⟩
      simp only [Stream.incoming, Option.elim_some, List.drop_length]
      exact hmessages
    | receive q position m hrecv hin hun hst hpos hm hst' =>
      refine follows_of_stream hs hex hun hst' (fun settled hins hstep => ?_)
      exact (hstep q hst).receive hpos hm ((hok q hst).2.2 rfl hrecv)
    | alone hin hun hst => exact hsame (fun r hr => hst ▸ hr)
    | attach hin hun hst => exact hsame (fun r hr => hst ▸ hr)
    | acquire hlock hin hun hst => exact hsame (fun r hr => by rw [hst] at hr; cases hr)
    | insert w hin hin' hun hun' hst => exact hsame (fun r hr => by rw [hst] at hr; cases hr)
    | skip w hskip hin hin' hun hun' hst => exact hsame (fun r hr => by rw [hst] at hr; cases hr)
    | send w hsend hin hin' hun hun' hst => exact hsame (fun r hr => by rw [hst] at hr; cases hr)
    | lookup now key hin hin' hun hst => exact hsame (fun r hr => by rw [hst] at hr; cases hr)
    | release hin hin' hun hst => exact hsame (fun r hr => by rw [hst] at hr; cases hr)
  · refine follows_of_effect hs hex heff hok ?_
    simp only [Function.update_of_ne (Ne.symm hk)]
    exact fun r hr => hr

/-- **A drained replica has been written what was inserted since its `+FULLRESYNC`**, but for a `SET` that waits to be
sent, in every run whose steps are all steady. -/
theorem replica_follows {σ : Server} {acts : List (ι × Choice)} (hrun : (Tasks.start σ).run capacity acts = some s)
    (hok : Meets (System.step (act capacity)) (Steady capacity k) acts (Tasks.start σ)) {inserted : Nat}
    {piped : List (List UInt8)}
    (hpc : (s.task k).pc = .serving inserted s.shared.server.broadcast.length none piped) :
    ∃ settled, s.shared.inserts = settled ++ s.waiting.map Setting.command ∧
      piped.flatten = encode ((settled.drop inserted).flatMap generateResp) := by
  have hs : Follows k s := run_keeps_of follows_step hrun hok (follows_start k σ)
  obtain ⟨settled, hins, hstep⟩ := hs.inStep
  refine ⟨settled, hins, ?_⟩
  have hstream : (s.task k).stream = some ⟨inserted, some s.shared.server.broadcast.length, piped⟩ := by
    rw [Task.stream, hpc]
    simp
  have hmessages := (hstep _ hstream).messages
  simp only [Stream.incoming, Option.elim_some, List.drop_length, List.map_nil, List.append_nil] at hmessages
  rw [hmessages, List.flatMap_def, encode_flatten, List.map_map]
  rfl

end

def go (i : Bool) (n : Nat) : List (Bool × Choice) := List.replicate n (i, .go 0)

/-- A `SET` that begins after the replica is attached. -/
theorem replica_follows_one :
    let acts := [(true, .request .psync)] ++ go true 4 ++ [(false, .request (.set ['k'] ['v'] none))] ++ go false 9 ++
      go true 2
    ∃ s piped, (Tasks.start (Server.start .master 0)).run 128 acts = some s ∧
      (s.task true).pc = .serving 0 1 none piped ∧ piped.flatten = encode (generateResp (.set ['k'] ['v'] none)) := by
  intro acts
  have hok : Meets (System.step (act 128)) (Steady 128 true) acts (Tasks.start (Server.start .master 0)) := by
    decide +kernel
  refine ⟨_, _, rfl, rfl, ?_⟩
  obtain ⟨settled, hins, hpiped⟩ := replica_follows rfl hok rfl
  rw [hpiped]
  obtain rfl : [Command.set ['k'] ['v'] none] = settled := hins.trans (List.append_nil settled)
  rfl

/-- A `SET` between a replica's `+FULLRESYNC` and its subscription is never written to it. -/
theorem replica_missed : ¬ ∀ (ι : Type) [DecidableEq ι] (capacity : Nat) (k : ι) (σ : Server) (acts : List (ι × Choice))
    (s : Tasks ι) (inserted : Nat) (piped : List (List UInt8)), (Tasks.start σ).run capacity acts = some s →
      (s.task k).pc = .serving inserted s.shared.server.broadcast.length none piped → s.waiting = [] →
        piped.flatten = encode ((s.shared.inserts.drop inserted).flatMap generateResp) := by
  intro h
  have hmissed := h Bool 128 true (Server.start .master 0) ([(true, .request .psync)] ++ go true 1 ++
    [(false, .request (.set ['k'] ['v'] none))] ++ go false 8 ++ go true 3) _ 0 [] rfl rfl rfl
  revert hmissed
  decide +kernel

-- a channel of one message: of two `SET`s sent before the replica receives, the first is skipped
example : ((Tasks.start (Server.start .master 0)).run 1 ([(true, .request .psync)] ++ go true 4 ++
      [(false, .request (.set ['k'] ['v'] none))] ++ go false 9 ++ [(false, .request (.set ['k'] ['w'] none))] ++
        go false 9 ++ go true 3)).bind (fun s => (s.task true).stream.map Stream.taken) =
    some [encode (generateResp (.set ['k'] ['w'] none))] := by decide +kernel

end Rusdis
