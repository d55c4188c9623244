import Mathlib.Data.Fintype.Basic
import Rusdis.Commits
/-!
# Count — what is inserted while no replica is counted

`SLAVES_COUNT` is the number of the connections in `build_replica_pipe`'s loop: its decrement stands after a loop that
never ends.  A `SET` is tested and sent under the map's lock, so the `SET`s a master does not send are its first ones,
and once a replica is counted there are no more of them (`missed_until_attached`).
-/
namespace Rusdis

open Steps

def Task.serves (t : Task) : Bool :=
  match t.pc with
  | .serving _ _ _ _ => true
  | _                => false

section
variable {ι : Type} {capacity : Nat} {i : ι}

theorem lookup_counts (now : SystemTime) (key : List Char) (server : Server) :
    (executeGet now key server).1.slavesCount = server.slavesCount :=
  (execute_frame (fun _ => none) now (.get key) server).2.2

/-- **What a step counts**: the replica whose connection enters the loop, which no connection leaves; and a task that
comes to send has found a replica counted. -/
theorem act_counts {c : Choice} {sh sh' : Shared ι} {t t' : Task} (h : act capacity i c sh t = some (sh', t')) :
    (sh'.server.slavesCount = sh.server.slavesCount ∧ t'.serves = t.serves ∨
      sh'.server.slavesCount = sh.server.slavesCount + 1 ∧ t.serves = false ∧ t'.serves = true) ∧
    (t'.sends = false ∨ sh'.server.slavesCount ≠ 0) := by
  have hturns := act_turns h
  obtain ⟨pc, written⟩ := t
  cases hturns with
  | request r => cases r <;> exact ⟨Or.inl ⟨rfl, rfl⟩, Or.inl rfl⟩
  | counted now w hcount => exact ⟨Or.inl ⟨rfl, rfl⟩, Or.inr hcount⟩
  | lookup now key => exact ⟨Or.inl ⟨lookup_counts now key sh.server, rfl⟩, Or.inl rfl⟩
  | attach now inserted position => exact ⟨Or.inr ⟨rfl, rfl, rfl⟩, Or.inl rfl⟩
  | _ => exact ⟨Or.inl ⟨rfl, rfl⟩, Or.inl rfl⟩

variable [Fintype ι] {s s' : Tasks ι}

/-- The connections in `build_replica_pipe`'s loop. -/
def Tasks.serving (s : Tasks ι) : Finset ι := Finset.univ.filter (fun i => (s.task i).serves)

/-- A master that counts its replicas, and sends only once it has counted one. -/
structure Counts (s : Tasks ι) : Prop where
  exclusive : s.Exclusive
  master    : s.shared.server.replicationInfo.role = .master
  counted   : s.shared.server.slavesCount = s.serving.card
  sending   : ∀ i, (s.task i).sends = true → s.shared.server.slavesCount ≠ 0

theorem counts_start {σ : Server} (hm : σ.replicationInfo.role = .master) (hcount : σ.slavesCount = 0) :
    Counts (Tasks.start σ : Tasks ι) where
  exclusive := exclusive_start σ
  master    := hm
  counted   := by
    have hnone : (Tasks.start σ : Tasks ι).serving = ∅ := Finset.filter_false_of_mem (fun _ _ => Bool.false_ne_true)
    rw [hnone]
    exact hcount
  sending   := nofun

section
variable [DecidableEq ι]

omit [Fintype ι] [DecidableEq ι] in
theorem master_moves {sh sh' : Shared ι} {t t' : Task} (h : sh.server.replicationInfo.role = .master)
    (hm : Moves capacity i sh t sh' t') : sh'.server.replicationInfo.role = .master := by
  cases hm with
  | lookup now key hin hin' hun hst =>
    rw [← h]
    exact congrArg _ (execute_frame (fun _ => none) now (.get key) sh.server).2.1
  | _ => exact h

theorem serving_update {sh : Shared ι} {t : Task} : Tasks.serving ⟨sh, Function.update s.task i t⟩ =
    if t.serves then insert i s.serving else s.serving.erase i := by
  ext j
  by_cases hj : j = i
  · subst hj
    cases ht : t.serves <;> simp [Tasks.serving, ht]
  · cases ht : t.serves <;> simp [Tasks.serving, hj]

theorem counts_act {c : Choice} {sh : Shared ι} {t : Task} (hs : Counts s)
    (h : act capacity i c s.shared (s.task i) = some (sh, t)) :
    Counts ⟨sh, Function.update s.task i t⟩ ∧ s.shared.server.slavesCount ≤ sh.server.slavesCount := by
  obtain ⟨hcounts, hsends⟩ := act_counts h
  have hle : s.shared.server.slavesCount ≤ sh.server.slavesCount := by
    rcases hcounts with ⟨hsame, -⟩ | ⟨hmore, -⟩ <;> omega
  refine ⟨⟨(moves_effect hs.exclusive (act_moves h)).1, master_moves hs.master (act_moves h), ?_, fun j hj => ?_⟩, hle⟩
  · have hmem : i ∈ s.serving ↔ (s.task i).serves = true := by simp [Tasks.serving]
    rw [serving_update]
    rcases hcounts with ⟨hsame, hserves⟩ | ⟨hmore, hout, hserves⟩
    · rw [hsame, hs.counted, hserves]
      split
      · rw [Finset.insert_eq_of_mem (hmem.2 ‹_›)]
      · rw [Finset.erase_eq_of_notMem (fun hin => ‹¬_› (hmem.1 hin))]
    · have hnot : i ∉ s.serving := by rw [hmem, hout]; nofun
      rw [hmore, hs.counted, hserves, if_pos rfl, Finset.card_insert_of_notMem hnot]
  · have hj : (Function.update s.task i t j).sends = true := hj
    by_cases hji : j = i
    · subst hji
      rw [Function.update_self] at hj
      exact hsends.resolve_left (by rw [hj]; decide)
    · rw [Function.update_of_ne hji] at hj
      exact Nat.ne_of_gt (lt_of_lt_of_le (Nat.pos_of_ne_zero (hs.sending j hj)) hle)

/-! ## The inserts -/

/-- The inserts of a master are those it does not send, those it has sent, and the one that waits. -/
structure Ledger (missed sent : List Command) (s : Tasks ι) : Prop where
  inserts   : s.shared.inserts = missed ++ sent ++ s.waiting.map Setting.command
  broadcast : s.shared.server.broadcast = sent.map generateResp
  uncounted : s.shared.server.slavesCount = 0 → sent = []

variable {missed sent : List Command}

omit [DecidableEq ι] in
/-- **A `SET` is missed only while no replica is counted**, and then none is sent before it. -/
theorem ledger_effect (hs : Counts s) (hl : Ledger missed sent s)
    (hle : s.shared.server.slavesCount ≤ s'.shared.server.slavesCount) (h : Effect s i s') :
    (∃ later, Ledger missed (sent ++ later) s') ∨
      s.shared.server.slavesCount = 0 ∧ ∃ c, Ledger (missed ++ [c]) [] s' := by
  obtain ⟨hins, hsent, hzero⟩ := hl
  have hzero' : s'.shared.server.slavesCount = 0 → sent = [] := fun h => hzero (by omega)
  cases h with
  | quiet hins' hsent' hwait hmap =>
    refine Or.inl ⟨[], ?_⟩
    rw [List.append_nil]
    exact ⟨by rw [hins', hwait]; exact hins, hsent'.trans hsent, hzero'⟩
  | insert w hsh hwait hwait' =>
    refine Or.inl ⟨[], ?_⟩
    rw [List.append_nil]
    rw [hwait, List.map_nil, List.append_nil] at hins
    exact ⟨by rw [hsh, hwait', ← hins]; rfl, by rw [hsh]; exact hsent, hzero'⟩
  | skip w hskip hsh hwait hwait' =>
    have hcount : s.shared.server.slavesCount = 0 := by
      by_contra hcount
      exact not_skips_of_broadcasting ⟨hs.master, hcount⟩ _ hskip
    obtain rfl := hzero hcount
    refine Or.inr ⟨hcount, w.command, ?_, by rw [hsh]; exact hsent, fun _ => rfl⟩
    rw [hsh, hwait', hins, hwait]
    simp
  | send w hsend hsh hwait hwait' =>
    refine Or.inl ⟨[w.command], ?_, ?_, fun h => absurd (by omega) (hs.sending i hsend)⟩
    · rw [hsh, hwait']
      simpa [hwait, Shared.send] using hins
    · rw [hsh, List.map_append, ← hsent]
      rfl

/-- Once a replica is counted, what was missed is all that ever is. -/
structure Attached (missed sent : List Command) (s : Tasks ι) : Prop where
  counting : Counts s
  counted  : s.shared.server.slavesCount ≠ 0
  ledger   : ∃ later, Ledger missed (sent ++ later) s

theorem ledger_step {a : ι × Choice} (h : s.step (act capacity) a = some s')
    (hs : Counts s ∧ ∃ missed sent, Ledger missed sent s) : Counts s' ∧ ∃ missed sent, Ledger missed sent s' := by
  obtain ⟨i, c⟩ := a
  obtain ⟨sh, t, hact, rfl⟩ := step_eq_some.1 h
  obtain ⟨hcounts, missed, sent, hledger⟩ := hs
  obtain ⟨hcounts', hle⟩ := counts_act hcounts hact
  refine ⟨hcounts', ?_⟩
  rcases ledger_effect hcounts hledger hle (moves_effect hcounts.exclusive (act_moves hact)).2 with
    ⟨later, hledger'⟩ | ⟨-, c, hledger'⟩
  · exact ⟨missed, _, hledger'⟩
  · exact ⟨_, [], hledger'⟩

theorem attached_step {a : ι × Choice} (h : s.step (act capacity) a = some s') (hs : Attached missed sent s) :
    Attached missed sent s' := by
  obtain ⟨i, c⟩ := a
  obtain ⟨sh, t, hact, rfl⟩ := step_eq_some.1 h
  obtain ⟨hcounts, hcounted, later, hledger⟩ := hs
  obtain ⟨hcounts', hle⟩ := counts_act hcounts hact
  refine ⟨hcounts', Nat.ne_of_gt (lt_of_lt_of_le (Nat.pos_of_ne_zero hcounted) hle), ?_⟩
  rcases ledger_effect hcounts hledger hle (moves_effect hcounts.exclusive (act_moves hact)).2 with
    ⟨later', hledger'⟩ | ⟨hcount, -⟩
  · exact ⟨later ++ later', by rwa [← List.append_assoc]⟩
  · exact absurd hcount hcounted

/-- **What a master does not send is what it inserts first**: in every state it reaches, its inserts are some that it
misses, those it has sent, in order, and the one that waits; and once a connection is in `build_replica_pipe`'s loop it
misses no more. -/
theorem missed_until_attached {σ : Server} {acts : List (ι × Choice)} (hm : σ.replicationInfo.role = .master)
    (hcount : σ.slavesCount = 0) (hsent : σ.broadcast = []) (hrun : (Tasks.start σ).run capacity acts = some s) :
    s.shared.server.slavesCount = s.serving.card ∧ ∃ missed sent, Ledger missed sent s ∧
      (s.serving.Nonempty → ∀ acts' s', s.run capacity acts' = some s' → ∃ later, Ledger missed (sent ++ later) s') := by
  have hstart : Ledger [] [] (Tasks.start σ : Tasks ι) := ⟨rfl, hsent, fun _ => rfl⟩
  obtain ⟨hcounts, missed, sent, hledger⟩ := run_keeps ledger_step hrun ⟨counts_start hm hcount, [], [], hstart⟩
  refine ⟨hcounts.counted, missed, sent, hledger, fun hserving acts' s' hrun' => ?_⟩
  have hcounted : s.shared.server.slavesCount ≠ 0 := by
    rw [hcounts.counted]
    exact Finset.card_ne_zero.2 hserving
  exact (run_keeps attached_step hrun' ⟨hcounts, hcounted, [], by rwa [List.append_nil]⟩).ledger

end

end

/-- A `SET` is missed, a replica attaches, and the next `SET` is sent. -/
theorem missed_until_attached_two :
    let go (i : Bool) (n : Nat) : List (Bool × Choice) := List.replicate n (i, .go 0)
    let before := [(false, .request (.set ['k'] ['v'] none))] ++ go false 8 ++ [(true, .request .psync)] ++ go true 4
    let after := [(false, .request (.set ['k'] ['w'] none))] ++ go false 9
    ∃ s s', (Tasks.start (Server.start .master 0)).run 128 before = some s ∧ s.run 128 after = some s' ∧
      Ledger [.set ['k'] ['v'] none] [.set ['k'] ['w'] none] s' := by
  intro go before after
  have hbefore : ((Tasks.start (Server.start .master 0)).run 128 before).map
      (fun s => (s.shared.lock, s.shared.inserts, s.shared.server.broadcast, (s.task true).serves)) =
      some (none, [.set ['k'] ['v'] none], [], true) := by decide +kernel
  have hafter : ((Tasks.start (Server.start .master 0)).run 128 (before ++ after)).map
      (fun s => (s.shared.lock, s.shared.inserts)) =
      some (none, [.set ['k'] ['v'] none, .set ['k'] ['w'] none]) := by decide +kernel
  obtain ⟨s', hs', hseen'⟩ := Option.map_eq_some_iff.1 hafter
  obtain ⟨s, hs, hrun⟩ := Option.bind_eq_some_iff.1 (run_append.symm.trans hs')
  have hseen := Option.some.inj ((congrArg (Option.map _) hs).symm.trans hbefore)
  simp only [Prod.mk.injEq] at hseen hseen'
  obtain ⟨hlock, hins, hsent, hserving⟩ := hseen
  refine ⟨s, s', hs, hrun, ?_⟩
  obtain ⟨-, missed, sent, hledger, hlater⟩ := missed_until_attached rfl rfl rfl hs
  obtain rfl : sent = [] := List.map_eq_nil_iff.1 (hledger.broadcast.symm.trans hsent)
  have hmissed := hledger.inserts
  rw [hins, Tasks.waiting, hlock] at hmissed
  obtain rfl : [Command.set ['k'] ['v'] none] = missed := by simpa [carried] using hmissed
  obtain ⟨later, hledger'⟩ := hlater ⟨true, Finset.mem_filter.2 ⟨Finset.mem_univ true, hserving⟩⟩ after s' hrun
  have hsets := hledger'.inserts
  rw [hseen'.2, Tasks.waiting, hseen'.1] at hsets
  obtain rfl : [Command.set ['k'] ['w'] none] = later := by simpa [carried] using hsets
  exact hledger'

/-! ## A replica of a replica -/

/-- Where no task of a replica stands: on the way to a message, or with one. -/
def Task.Silent (t : Task) : Prop :=
  match t.pc with
  | .setMaster _ | .setCounted _ => False
  | .serving _ _ cmd piped       => cmd = none ∧ piped = []
  | _                            => True

/-- A replica with nothing sent. -/
structure Silent {ι : Type} (sh : Shared ι) : Prop where
  role : sh.server.replicationInfo.role = .slave
  sent : sh.server.broadcast = []

section
variable {ι : Type} {capacity : Nat}

theorem act_silent {i : ι} {c : Choice} {sh sh' : Shared ι} {t t' : Task} (h : act capacity i c sh t = some (sh', t'))
    (hsh : Silent sh) (ht : t.Silent) : Silent sh' ∧ t'.Silent := by
  obtain ⟨hrole, hsent⟩ := hsh
  have hturns := act_turns h
  obtain ⟨pc, written⟩ := t
  cases hturns with
  | request r => cases r <;> exact ⟨⟨hrole, hsent⟩, trivial⟩
  | master now w hmaster =>
    rw [hrole] at hmaster
    cases hmaster
  | counted | uncounted | send => exact ht.elim
  | lookup now key =>
    refine ⟨⟨?_, (executeGet_broadcast now key sh.server).trans hsent⟩, trivial⟩
    exact (congrArg _ (execute_frame (fun _ => none) now (.get key) sh.server).2.1).trans hrole
  | attach now inserted position => exact ⟨⟨hrole, hsent⟩, rfl, rfl⟩
  | receive now inserted position piped m hm =>
    rw [hsent, recv, if_neg (by simp)] at hm
    cases hm
  | forward => cases ht.1
  | _ => exact ⟨⟨hrole, hsent⟩, trivial⟩

/-- **A replica passes nothing on**: it sends no message, so what is attached to it is written nothing after its RDB
file, however much the replica is told or asked to set. -/
theorem slave_silent [DecidableEq ι] {σ : Server} {s : Tasks ι} {acts : List (ι × Choice)}
    (hrole : σ.replicationInfo.role = .slave) (hsent : σ.broadcast = [])
    (hrun : (Tasks.start σ).run capacity acts = some s) :
    s.shared.server.broadcast = [] ∧ ∀ k, ∀ r ∈ (s.task k).stream, r.taken = [] := by
  have hstep : ∀ {s : Tasks ι} {a : ι × Choice} {s' : Tasks ι}, s.step (act capacity) a = some s' →
      Silent s.shared ∧ (∀ k, (s.task k).Silent) → Silent s'.shared ∧ ∀ k, (s'.task k).Silent := by
    rintro s ⟨i, c⟩ s' h ⟨hsh, htasks⟩
    obtain ⟨sh, t, hact, rfl⟩ := step_eq_some.1 h
    obtain ⟨hsh', ht⟩ := act_silent hact hsh (htasks i)
    refine ⟨hsh', fun k => ?_⟩
    change (Function.update s.task i t k).Silent
    by_cases hk : k = i
    · subst hk
      rw [Function.update_self]
      exact ht
    · rw [Function.update_of_ne hk]
      exact htasks k
  obtain ⟨hsilent, htasks⟩ := run_keeps hstep hrun ⟨⟨hrole, hsent⟩, fun _ => trivial⟩
  refine ⟨hsilent.sent, fun k r hr => ?_⟩
  have ht := htasks k
  generalize s.task k = t at hr ht
  obtain ⟨pc, written⟩ := t
  cases pc with
  | resynced _ | transferred _ | subscribed _ _ =>
    cases hr
    rfl
  | serving inserted position cmd piped =>
    obtain ⟨rfl, rfl⟩ := ht
    cases hr
    rfl
  | _ => cases hr

end

/-- A replica is attached to a replica, which is then told to set a key. -/
theorem slave_silent_one :
    let go (i : Bool) (n : Nat) : List (Bool × Choice) := List.replicate n (i, .go 0)
    let acts := [(true, .request .psync)] ++ go true 4 ++ [(false, .request (.set ['k'] ['v'] none))] ++ go false 7
    ∃ s, (Tasks.start (Server.start .slave 0)).run 128 acts = some s ∧
      s.shared.inserts = [.set ['k'] ['v'] none] ∧ s.shared.server.slavesCount = 1 ∧ s.shared.server.broadcast = [] := by
  intro go acts
  have hrun : ((Tasks.start (Server.start .slave 0)).run 128 acts).map
      (fun s => (s.shared.inserts, s.shared.server.slavesCount)) = some ([.set ['k'] ['v'] none], 1) := by decide +kernel
  obtain ⟨s, hs, hseen⟩ := Option.map_eq_some_iff.1 hrun
  obtain ⟨hins, hcount⟩ := Prod.mk.inj hseen
  exact ⟨s, hs, hins, hcount, (slave_silent rfl rfl hs).1⟩

end Rusdis
