import Rusdis.Commits
/-!
# Settle — a master whose clients pause comes to rest

Every step that is no new request leaves less to do, the receipts of the messages still to be sent included
(`work_lt`), and nobody waits for a lock whose holder does not go on.  So without new requests, and where writes
complete, a master and its pipes take a bounded number of steps, after which nothing is locked and every pipe has come
to the end of the messages, having written or skipped each (`tasks_settle`).
-/
namespace Rusdis

open Steps

/-- What is left for a task to do, among so many and with so many messages sent; a `SET` counts the two steps that its
message takes of every pipe. -/
def Task.work (tasks sent : Nat) (t : Task) : Nat :=
  match t.pc with
  | .idle                      => 0
  | .replying _                => 1
  | .set _ _ _                 => 9 + 2 * tasks
  | .setReady _                => 8 + 2 * tasks
  | .setFetched _              => 7 + 2 * tasks
  | .setLocked _               => 6 + 2 * tasks
  | .setInserted _             => 5 + 2 * tasks
  | .setMaster _               => 4 + 2 * tasks
  | .setCounted _              => 3 + 2 * tasks
  | .setDone                   => 2
  | .get _                     => 5
  | .getFetched _              => 4
  | .getLocked _               => 3
  | .getDone _                 => 2
  | .psync                     => 4
  | .resynced _                => 3
  | .transferred _             => 2
  | .subscribed _ position     => 2 * (sent - position) + 1
  | .serving _ position cmd _  => 2 * (sent - position) + cmd.toList.length

def Choice.isGo : Choice → Bool
  | .request _ => false
  | .go _      => true

section
variable {ι : Type} {capacity : Nat} {i : ι}

/-- A message more to receive is two steps more at most. -/
theorem work_sent (tasks sent n : Nat) (t : Task) : t.work tasks (sent + n) ≤ t.work tasks sent + 2 * n := by
  obtain ⟨pc, written⟩ := t
  cases pc <;> simp only [Task.work] <;> omega

/-- **A step leaves less to do**, also for the others. -/
theorem act_work (tasks : Nat) {now : SystemTime} {sh sh' : Shared ι} {t t' : Task}
    (h : act capacity i (.go now) sh t = some (sh', t')) :
    ∃ n, sh'.server.broadcast.length = sh.server.broadcast.length + n ∧
      t'.work tasks sh'.server.broadcast.length + 2 * n * tasks < t.work tasks sh.server.broadcast.length := by
  have hturns := act_turns h
  obtain ⟨pc, written⟩ := t
  cases hturns with
  | send =>
    refine ⟨1, by simp [Shared.send], ?_⟩
    simp only [Task.work]
    omega
  | lookup _ key =>
    refine ⟨0, congrArg List.length (executeGet_broadcast now key sh.server), ?_⟩
    simp only [Task.work]
    omega
  | receive _ inserted position piped m hm =>
    obtain ⟨hlt, hle⟩ := recv_advances hm
    have hone : m.1.toList.length ≤ 1 := by cases m.1 <;> simp
    refine ⟨0, rfl, ?_⟩
    simp only [Task.work, Option.toList_none, List.length_nil]
    omega
  | subscribe | attach | forward => exact ⟨0, rfl, by simp [Task.work, Shared.attach]⟩
  | _ => exact ⟨0, rfl, by simp only [Task.work]; omega⟩

/-- A task that cannot go on is idle, waits for the lock, or has nothing to receive. -/
theorem act_none {now : SystemTime} {sh : Shared ι} {t : Task} (h : act capacity i (.go now) sh t = none) :
    t.inside = false ∧ (sh.lock = none → t.pc = .idle ∨
      ∃ inserted position piped, t.pc = .serving inserted position none piped ∧
        sh.server.broadcast.length ≤ position) := by
  obtain ⟨pc, written⟩ := t
  cases pc with
  | idle => exact ⟨rfl, fun _ => Or.inl rfl⟩
  | set key value px =>
    simp only [act, advance] at h
    split at h <;> cases h
  | setFetched _ | getFetched _ =>
    refine ⟨rfl, fun hlock => ?_⟩
    simp only [act, advance, if_pos hlock] at h
    cases h
  | serving inserted position cmd piped =>
    cases cmd with
    | none =>
      refine ⟨rfl, fun _ => Or.inr ⟨inserted, position, piped, rfl, ?_⟩⟩
      have hrecv : recv capacity sh.server.broadcast position = none := Option.map_eq_none_iff.1 h
      unfold recv at hrecv
      split at hrecv
      · cases hrecv
      · exact List.getElem?_eq_none_iff.1 (Option.map_eq_none_iff.1 hrecv)
    | some cmd => cases h
  | _ => cases h

/-- No receiver is ahead of what was sent. -/
def Tasks.Behind (s : Tasks ι) : Prop :=
  ∀ i, ∀ r ∈ (s.task i).stream, ∀ position ∈ r.position, position ≤ s.shared.server.broadcast.length

theorem behind_moves {sh sh' : Shared ι} {t t' : Task} (h : Moves capacity i sh t sh' t') :
    sh.server.broadcast.length ≤ sh'.server.broadcast.length ∧
      ((∀ r ∈ t.stream, ∀ position ∈ r.position, position ≤ sh.server.broadcast.length) →
        ∀ r ∈ t'.stream, ∀ position ∈ r.position, position ≤ sh'.server.broadcast.length) := by
  cases h with
  | alone hin hun hst | attach hin hun hst => exact ⟨le_rfl, fun h => hst ▸ h⟩
  | acquire hlock hin hun hst | release hin hin' hun hst | insert w hin hin' hun hun' hst
  | skip w hskip hin hin' hun hun' hst => exact ⟨le_rfl, fun _ => by rw [hst]; nofun⟩
  | send w hsend hin hin' hun hun' hst =>
    exact ⟨by simp [Shared.send], fun _ => by rw [hst]; nofun⟩
  | lookup now key hin hin' hun hst =>
    exact ⟨(congrArg List.length (executeGet_broadcast now key sh.server)).ge, fun _ => by rw [hst]; nofun⟩
  | resync hin hun hst =>
    refine ⟨le_rfl, fun _ r hr => ?_⟩
    obtain rfl := Option.some.inj (hst.symm.trans hr)
    nofun
  | subscribe r hin hun hst hpos hst' =>
    refine ⟨le_rfl, fun _ r' hr position hp => ?_⟩
    obtain rfl := Option.some.inj (hst'.symm.trans hr)
    obtain rfl := Option.some.inj hp
    exact le_rfl
  | receive r position m hrecv hin hun hst hpos hm hst' =>
    refine ⟨le_rfl, fun _ r' hr position' hp => ?_⟩
    obtain rfl := Option.some.inj (hst'.symm.trans hr)
    obtain rfl := Option.some.inj hp
    exact (recv_advances hm).2

variable [DecidableEq ι] {s s' : Tasks ι}

theorem behind_step {a : ι × Choice} (h : s.step (act capacity) a = some s') (hs : s.Behind) : s'.Behind := by
  obtain ⟨i, c⟩ := a
  obtain ⟨sh, t, hact, rfl⟩ := step_eq_some.1 h
  obtain ⟨hle, ht⟩ := behind_moves (act_moves hact)
  intro j
  change ∀ r ∈ (Function.update s.task i t j).stream, _
  by_cases hj : j = i
  · subst hj
    rw [Function.update_self]
    exact ht (hs j)
  · rw [Function.update_of_ne hj]
    exact fun r hr position hp => (hs j r hr position hp).trans hle

theorem exclusive_step {a : ι × Choice} (h : s.step (act capacity) a = some s') (hs : s.Exclusive) : s'.Exclusive := by
  obtain ⟨i, c⟩ := a
  obtain ⟨sh, t, hact, rfl⟩ := step_eq_some.1 h
  exact (moves_effect hs (act_moves hact)).1

variable [Fintype ι]

def Tasks.work (s : Tasks ι) : Nat := ∑ i, (s.task i).work (Fintype.card ι) s.shared.server.broadcast.length

theorem work_lt {a : ι × Choice} (h : s.step (act capacity) a = some s') (hgo : a.2.isGo = true) : s'.work < s.work := by
  obtain ⟨i, c⟩ := a
  cases c with
  | request r => cases hgo
  | go now =>
    obtain ⟨sh, t, hact, rfl⟩ := step_eq_some.1 h
    obtain ⟨n, hn, hlt⟩ := act_work (Fintype.card ι) hact
    exact sum_update_lt_of_le (fun t => hn ▸ work_sent (Fintype.card ι) _ n t) hlt

/-- **Without new requests a master comes to rest**: no more steps can follow than are left; and when no task can go on,
nobody holds the map's lock, and every connection is idle or a pipe at the end of the messages with none in hand. -/
theorem tasks_settle {σ : Server} {before acts : List (ι × Choice)} (hbefore : (Tasks.start σ).run capacity before = some s)
    (hgo : ∀ a ∈ acts, a.2.isGo = true) (hrun : s.run capacity acts = some s') :
    acts.length + s'.work ≤ s.work ∧
      ((∀ i now, s'.step (act capacity) (i, .go now) = none) → s'.shared.lock = none ∧
        ∀ i, (s'.task i).pc = .idle ∨ ∃ inserted piped,
          (s'.task i).pc = .serving inserted s'.shared.server.broadcast.length none piped) := by
  have hex : s'.Exclusive := run_keeps exclusive_step hrun (run_keeps exclusive_step hbefore (exclusive_start σ))
  have hbehind : s'.Behind := run_keeps behind_step hrun (run_keeps behind_step hbefore (fun _ _ hr => nomatch hr))
  refine ⟨run_length_le (fun h hgo => work_lt h hgo) hrun (meets_of_mem hgo), fun hstuck => ?_⟩
  have hnone : ∀ i, act capacity i (.go 0) s'.shared (s'.task i) = none := fun i => Option.map_eq_none_iff.1 (hstuck i 0)
  have hlock : s'.shared.lock = none := by
    -- the holder of the lock could go on
    cases hheld : s'.shared.lock with
    | none => rfl
    | some j =>
      have hin := (hex j).2 hheld
      rw [(act_none (hnone j)).1] at hin
      cases hin
  refine ⟨hlock, fun i => ?_⟩
  rcases (act_none (hnone i)).2 hlock with hidle | ⟨inserted, position, piped, hpc, hle⟩
  · exact Or.inl hidle
  · have hstream : (s'.task i).stream = some ⟨inserted, some position, piped⟩ := by
      rw [Task.stream, hpc]
      simp
    rw [← le_antisymm (hbehind i _ hstream position rfl) hle]
    exact Or.inr ⟨inserted, piped, hpc⟩

end

/-- A replica is attached and a `SET` asked for; what is left comes to rest with the `SET` in the pipe. -/
theorem tasks_settle_one :
    let go (i : Bool) (n : Nat) : List (Bool × Choice) := List.replicate n (i, .go 0)
    let before := [(true, .request .psync)] ++ go true 4 ++ [(false, .request (.set ['k'] ['v'] none))]
    ∃ s s', (Tasks.start (Server.start .master 0)).run 128 before = some s ∧
      s.run 128 (go false 9 ++ go true 2) = some s' ∧ 11 + s'.work ≤ s.work ∧ s'.shared.lock = none ∧
        s'.shared.server.broadcast.length = 1 := by
  intro go before
  have hgo : ∀ a ∈ go false 9 ++ go true 2, a.2.isGo = true := by decide
  have hbefore : (Tasks.start (Server.start .master 0)).run 128 before = some _ := rfl
  obtain ⟨hlength, hrest⟩ := tasks_settle hbefore hgo rfl
  refine ⟨_, _, rfl, rfl, hlength, (hrest (fun i now => ?_)).1, rfl⟩
  cases i <;> rfl

end Rusdis
