import Rusdis.Linear
/-!
# Progress — every call comes to its end

A command inside the map's lock never waits, so while a call is under way some connection can go on (`can_go`), and
every step of a call leaves less of it (`work_go`).  So a call comes to its end, and its connection needs no other for
that but the holder of the lock (`call_ends`).
-/
namespace Rusdis

open Steps

section
variable {ι : Type} {regex : List Char → Option (List Char → Bool)}

/-! ## What is left of a call -/

/-- The steps a command takes at most from here on. -/
def Point.work : Point regex → Nat
  | .next             => 0
  | .ready _          => 5
  | .fetched _        => 4
  | .held (.locked _) => 3
  | .held _           => 2
  | .done _ _ _       => 1

theorem Point.work_inside {p : Point regex} (h : p.inside = true) : 0 < p.work ∧ p.work ≤ 3 := by
  cases p with
  | next | ready | fetched => cases h
  | held hd => cases hd <;> simp [Point.work]
  | done => simp [Point.work]

def Running.work (r : Running regex) : Nat := r.point.work + 6 * r.rest.length + 1

def Client.work (t : Client regex) : Nat := t.running.elim 0 Running.work

theorem Client.work_eq_zero {t : Client regex} : t.work = 0 ↔ t.running = none := by
  obtain ⟨replied, running⟩ := t
  cases running with
  | none => exact iff_of_true rfl rfl
  | some r => exact iff_of_false (Nat.succ_ne_zero _) nofun

/-- A command inside the lock comes closer to its end. -/
theorem work_held (now : SystemTime) (σ : Server) (h : Held regex) : (h.step now σ).2.work < Point.work (.held h) := by
  cases h with
  | locked job =>
    cases job with
    | get key =>
      simp only [Held.step]
      split
      · split <;> simp [Point.work]
      · simp [Point.work]
    | _ => simp [Held.step, Point.work]
  | entered key d =>
    simp only [Held.step]
    split <;> simp [Point.work]
  | _ => simp [Held.step, Point.work]

/-- The calls of a connection, the one under way last. -/
def Client.calls (t : Client regex) : List Call := t.replied.map Prod.fst ++ (t.running.map Running.call).toList

/-- The connection has come on in its calls, and begun no other. -/
structure Client.Later (t t' : Client regex) : Prop where
  calls   : t'.calls = t.calls
  replied : t.replied <+: t'.replied

theorem Client.Later.refl (t : Client regex) : t.Later t := ⟨rfl, List.prefix_rfl⟩

theorem Client.Later.trans {t t' t'' : Client regex} (h : t.Later t') (h' : t'.Later t'') : t.Later t'' :=
  ⟨h'.calls.trans h.calls, h.replied.trans h'.replied⟩

/-- A call that has come to its end was replied to. -/
theorem Client.Later.answered {t t' : Client regex} (h : t.Later t') (hidle : t'.running = none) :
    ∃ replies, t'.replied = t.replied ++ replies ∧ replies.map Prod.fst = (t.running.map Running.call).toList := by
  obtain ⟨hcalls, replies, hreplied⟩ := h
  rw [Client.calls, Client.calls, hidle, ← hreplied, List.map_append, Option.map_none, Option.toList_none,
    List.append_nil] at hcalls
  exact ⟨replies, hreplied.symm, List.append_cancel_left hcalls⟩

/-- **A step of a call leaves less of it**, and is no step of another call. -/
theorem work_go {i : ι} {now : SystemTime} {sh sh' : Common ι} {t t' : Client regex}
    (h : t.act i (.go now) sh = some (sh', t')) : t'.work < t.work ∧ t.Later t' := by
  obtain ⟨replied, running⟩ := t
  cases running with
  | none => cases h
  | some r =>
    obtain ⟨c, rest, res, point⟩ := r
    cases point with
    | next =>
      cases rest with
      | nil =>
        cases h
        exact ⟨Nat.zero_lt_one, by simp [Client.calls], List.prefix_append _ _⟩
      | cons cmd rest =>
        cases hp : prepare regex now cmd sh.server with
        | inl reply =>
          simp only [Client.act, Running.resume, hp] at h
          cases h
          exact ⟨by simp [Client.work, Running.work, Point.work], rfl, List.prefix_rfl⟩
        | inr job =>
          simp only [Client.act, Running.resume, hp] at h
          cases h
          exact ⟨by simp [Client.work, Running.work, Point.work]; omega, rfl, List.prefix_rfl⟩
    | ready job =>
      cases h
      exact ⟨by simp [Client.work, Running.work, Point.work], rfl, List.prefix_rfl⟩
    | fetched job =>
      obtain ⟨-, heq⟩ := Option.ite_none_right_eq_some.1 h
      cases heq
      exact ⟨by simp [Client.work, Running.work, Point.work], rfl, List.prefix_rfl⟩
    | held hd =>
      cases h
      exact ⟨Nat.add_lt_add_right (Nat.add_lt_add_right (work_held now sh.server hd) _) 1, rfl, List.prefix_rfl⟩
    | done time cmd reply =>
      cases h
      exact ⟨by simp [Client.work, Running.work, Point.work], rfl, List.prefix_rfl⟩

/-! ## Who can go on -/

/-- The connection waits for the map's lock. -/
def Client.waits (lock : Option ι) (t : Client regex) : Prop :=
  lock ≠ none ∧ ∃ r ∈ t.running, ∃ job, r.point = .fetched job

/-- **A call goes on unless it waits for the lock.** -/
theorem resumes {i : ι} {sh : Common ι} {t : Client regex} (hrun : t.running ≠ none) (hwaits : ¬ t.waits sh.lock)
    (now : SystemTime) : ∃ sh' t', t.act i (.go now) sh = some (sh', t') := by
  obtain ⟨replied, running⟩ := t
  cases running with
  | none => exact absurd rfl hrun
  | some r =>
    obtain ⟨c, rest, res, point⟩ := r
    cases point with
    | next =>
      cases rest with
      | nil => exact ⟨_, _, rfl⟩
      | cons cmd rest =>
        cases hp : prepare regex now cmd sh.server <;> exact ⟨_, _, by simp only [Client.act, Running.resume, hp]; rfl⟩
    | fetched job =>
      have hlock : sh.lock = none := by
        by_contra hne
        exact hwaits ⟨hne, _, rfl, job, rfl⟩
      exact ⟨_, _, if_pos hlock⟩
    | ready | held | done => exact ⟨_, _, rfl⟩

/-- Whoever is inside waits for nobody. -/
theorem not_waits_of_inside {lock : Option ι} {t : Client regex} (h : t.inside = true) : ¬ t.waits lock := by
  obtain ⟨replied, running⟩ := t
  rintro ⟨-, r, hr, job, hpoint⟩
  obtain rfl := Option.mem_def.1 hr
  obtain ⟨c, rest, res, point⟩ := r
  obtain rfl : point = .fetched job := hpoint
  cases h

theorem lock_of_go {i : ι} {now : SystemTime} {sh sh' : Common ι} {t t' : Client regex}
    (h : t.act i (.go now) sh = some (sh', t')) (hlock : ∀ j, sh.lock = some j → j = i) :
    ∀ j, sh'.lock = some j → j = i := by
  have hadvances := act_advances h
  generalize t.running = running at hadvances
  cases hadvances with
  | acquire c rest res job hnone => exact fun j hj => (Option.some.inj hj).symm
  | release c rest res time cmd reply => exact nofun
  | _ => exact hlock

section
variable [DecidableEq ι]

variable {σ : Server} {s : Clients regex ι} {i : ι}

/-- The holder of the lock releases it in the steps its command has left. -/
theorem releases (now : SystemTime) (j : ι) : ∀ (n : Nat) (s : Clients regex ι) {replied : List (Call × List Char)}
    {r : Running regex}, s.task j = ⟨replied, some r⟩ → r.point.inside = true → r.point.work ≤ n →
      ∃ m ≤ n, ∃ s', s.run (List.replicate m (j, .go now)) = some s' ∧ s'.shared.lock = none ∧
        ∀ k, k ≠ j → s'.task k = s.task k
  | 0, s, replied, r, _, hin, hle => by
    have hpos := (Point.work_inside hin).1
    omega
  | n + 1, s, replied, ⟨c, rest, res, point⟩, htask, hin, hle => by
    cases point with
    | next | ready | fetched => cases hin
    | done time cmd reply =>
      have hstep : s.step Client.act (j, .go now) = some
          ⟨Common.record ⟨j, replied.length, time, cmd, reply⟩ { s.shared with lock := none },
            Function.update s.task j ⟨replied, some ⟨c, rest, res ++ reply, .next⟩⟩⟩ :=
        step_eq_some.2 ⟨_, _, by rw [htask]; rfl, rfl⟩
      exact ⟨1, Nat.succ_le_succ (Nat.zero_le n), _, (run_cons hstep).trans rfl, rfl,
        fun k hk => Function.update_of_ne hk _ s.task⟩
    | held hd =>
      let s₁ : Clients regex ι := ⟨{ s.shared with server := (hd.step now s.shared.server).1 },
        Function.update s.task j ⟨replied, some ⟨c, rest, res, (hd.step now s.shared.server).2⟩⟩⟩
      have hstep : s.step Client.act (j, .go now) = some s₁ := step_eq_some.2 ⟨_, _, by rw [htask]; rfl, rfl⟩
      have htask₁ : s₁.task j = ⟨replied, some ⟨c, rest, res, (hd.step now s.shared.server).2⟩⟩ :=
        Function.update_self j _ s.task
      obtain ⟨m, hm, s', hrun, hlock, hother⟩ := releases now j n s₁ htask₁ (step_inside now s.shared.server hd).1
        (Nat.le_of_lt_succ (lt_of_lt_of_le (work_held now s.shared.server hd) hle))
      refine ⟨m + 1, Nat.succ_le_succ hm, s', (run_cons hstep).trans hrun, hlock, fun k hk => ?_⟩
      exact (hother k hk).trans (Function.update_of_ne hk _ s.task)

/-- While nobody else holds the lock, a connection comes to the end of its call by itself. -/
theorem finishes (now : SystemTime) : ∀ (n : Nat) {s : Clients regex ι}, Serial σ s →
    (∀ j, s.shared.lock = some j → j = i) → (s.task i).work ≤ n →
      ∃ m ≤ n, ∃ s', s.run (List.replicate m (i, .go now)) = some s' ∧ (s'.task i).running = none ∧
        (s.task i).Later (s'.task i) ∧ ∀ k, k ≠ i → s'.task k = s.task k
  | 0, s, _, _, hle => ⟨0, le_rfl, s, rfl, Client.work_eq_zero.1 (Nat.le_zero.1 hle), .refl _, fun _ _ => rfl⟩
  | n + 1, s, hs, hlock, hle => by
    by_cases hidle : (s.task i).running = none
    · exact ⟨0, Nat.zero_le _, s, rfl, hidle, .refl _, fun _ _ => rfl⟩
    · have hwaits : ¬ (s.task i).waits s.shared.lock := by
        intro hwaits
        obtain ⟨j, hj⟩ := Option.ne_none_iff_exists'.1 hwaits.1
        obtain rfl := hlock j hj
        exact not_waits_of_inside ((hs.exclusive j).2 hj) hwaits
      obtain ⟨sh, t, hact⟩ := resumes (i := i) hidle hwaits now
      have hstep := step_eq_some.2 ⟨sh, t, hact, rfl⟩
      obtain ⟨hwork, hlater⟩ := work_go hact
      have hself : (Function.update s.task i t) i = t := Function.update_self i t s.task
      obtain ⟨m, hm, s', hrun, hidle', hlater', hother⟩ := finishes now n (serial_step hstep hs) (lock_of_go hact hlock)
        (by simp only [hself]; omega)
      refine ⟨m + 1, Nat.succ_le_succ hm, s', (run_cons hstep).trans hrun, hidle', ?_, fun k hk => ?_⟩
      · exact hlater.trans (hself ▸ hlater')
      · exact (hother k hk).trans (Function.update_of_ne hk t s.task)

/-- **One call needs no other connection for its end but the holder of the lock**, and of that one three steps at
most; then its own steps are enough, whatever the others have begun. -/
theorem call_ends {acts : List (ι × Act)} (hrun : (Clients.start σ).run acts = some s) {r : Running regex}
    (hr : (s.task i).running = some r) (now : SystemTime) :
    ∃ (j : ι) (n m : Nat) (s' : Clients regex ι) (reply : List Char), n ≤ 3 ∧ m ≤ r.work ∧
      (0 < n → s.shared.lock = some j ∧ j ≠ i) ∧
      s.run (List.replicate n (j, .go now) ++ List.replicate m (i, .go now)) = some s' ∧
      s'.task i = ⟨(s.task i).replied ++ [(r.call, reply)], none⟩ ∧ ∀ k, k ≠ i → k ≠ j → s'.task k = s.task k := by
  have hs : Serial σ s := run_keeps serial_step hrun (serial_start σ)
  have hwork : (s.task i).work = r.work := by rw [Client.work, hr]; rfl
  have hend : ∀ {s' : Clients regex ι}, (s.task i).Later (s'.task i) → (s'.task i).running = none →
      ∃ reply, s'.task i = ⟨(s.task i).replied ++ [(r.call, reply)], none⟩ := by
    intro s' hlater hidle
    obtain ⟨replies, hreplied, hcalls⟩ := hlater.answered hidle
    rw [hr] at hcalls
    obtain ⟨⟨c, reply⟩, rest, rfl, rfl, hnil⟩ := List.map_eq_cons_iff.1 hcalls
    obtain rfl := List.map_eq_nil_iff.1 hnil
    exact ⟨reply, by rw [← hreplied, ← hidle]⟩
  by_cases hfree : ∀ j, s.shared.lock = some j → j = i
  · obtain ⟨m, hm, s', hrun', hidle, hlater, hother⟩ := finishes now r.work hs hfree hwork.le
    obtain ⟨reply, hreply⟩ := hend hlater hidle
    exact ⟨i, 0, m, s', reply, Nat.zero_le 3, hm, fun h => absurd h (Nat.lt_irrefl 0), hrun', hreply,
      fun k hk _ => hother k hk⟩
  · push Not at hfree
    obtain ⟨j, hj, hne⟩ := hfree
    have hin : (s.task j).inside = true := (hs.exclusive j).2 hj
    cases htask : s.task j with
    | mk replied running =>
      rw [htask] at hin
      cases running with
      | none => cases hin
      | some q =>
        obtain ⟨c, rest, res, p⟩ := q
        obtain ⟨n, hn, s₁, hrun₁, hlock, hother₁⟩ := releases now j 3 s htask hin (Point.work_inside hin).2
        obtain ⟨m, hm, s', hrun', hidle, hlater, hother⟩ := finishes (i := i) now r.work
          (run_keeps serial_step hrun₁ hs) (by rw [hlock]; nofun) (by rw [hother₁ i hne.symm]; exact hwork.le)
        rw [hother₁ i hne.symm] at hlater
        obtain ⟨reply, hreply⟩ := hend hlater hidle
        refine ⟨j, n, m, s', reply, hn, hm, fun _ => ⟨hj, hne⟩, ?_, hreply, fun k hk hk' => ?_⟩
        · exact run_append.trans ((congrArg (Option.bind · _) hrun₁).trans hrun')
        · exact (hother k hk).trans (hother₁ k hk')

end

end

/-- The second connection is answered by steps of the two. -/
theorem call_ends_two :
    let before : List (Bool × Act) := [(false, .call (.single (.incr ['k']))), (true, .call (.single (.incr ['k'])))]
    let go (i : Bool) (n : Nat) : List (Bool × Act) := List.replicate n (i, .go 0)
    ∃ (s s' : Clients (fun _ => none) Bool) (j : Bool) (n m : Nat) (reply : List Char),
      (Clients.start (Server.start .master 0)).run (before ++ go false 3 ++ go true 2) = some s ∧ n ≤ 3 ∧ m ≤ 5 ∧
        s.run (go j n ++ go true m) = some s' ∧ s'.task true = ⟨[(.single (.incr ['k']), reply)], none⟩ := by
  intro before go
  have hrun : ((Clients.start (Server.start .master 0) : Clients (fun _ => none) Bool).run
      (before ++ go false 3 ++ go true 2)).map
        (fun s => ((s.task true).replied, (s.task true).running.map (fun r => (r.call, r.work)))) =
      some ([], some (.single (.incr ['k']), 5)) := by decide +kernel
  obtain ⟨s, hs, hseen⟩ := Option.map_eq_some_iff.1 hrun
  obtain ⟨hreplied, hrunning⟩ := Prod.mk.inj hseen
  obtain ⟨r, hr, hcall⟩ := Option.map_eq_some_iff.1 hrunning
  obtain ⟨hcall, hwork⟩ := Prod.mk.inj hcall
  obtain ⟨j, n, m, s', reply, hn, hm, -, hs', htask, -⟩ := call_ends hs hr 0
  rw [hreplied, hcall] at htask
  exact ⟨s, s', j, n, m, reply, hs, hn, hwork ▸ hm, hs', htask⟩

end Rusdis
