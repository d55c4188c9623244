import Mathlib.Algebra.Order.BigOperators.Group.Finset
import Mathlib.Data.List.Basic
import Mathlib.Logic.Function.Basic
/-!
# Steps: runs of tasks that share a lock and a channel

A run is a list of actions of a partial step function; what every step keeps, it keeps (`run_keeps`, `run_keeps_of`),
and what every step lowers bounds it (`run_length_le`).  The tasks of a `System` take turns, one of them each step.  The
holder of a lock is alone inside (`Exclusive.unique`) and carries what only it may change (`carried`); a receiver of a
channel loses nothing while it is near (`recv_near`).
-/
namespace Steps

/-! ## Runs -/

section
variable {S A : Type} (step : S → A → Option S)

def run : List A → S → Option S
  | [],      s => some s
  | a :: as, s => (step s a).bind (run as)

/-- Every step of the run is taken in a state that meets a condition. -/
def Meets (ok : S → A → Prop) : List A → S → Prop
  | [],      _ => True
  | a :: as, s => ok s a ∧ ∀ s' ∈ step s a, Meets ok as s'

instance decMeets (ok : S → A → Prop) [∀ s a, Decidable (ok s a)] :
    ∀ (as : List A) (s : S), Decidable (Meets step ok as s)
  | [],      _ => isTrue trivial
  | a :: as, s =>
    have := decMeets ok as
    inferInstanceAs (Decidable (ok s a ∧ ∀ s' ∈ step s a, Meets step ok as s'))

variable {step} {I : S → Prop}

theorem run_cons {a : A} {as : List A} {s s' : S} (h : step s a = some s') :
    run step (a :: as) s = run step as s' := by
  rw [run, h, Option.bind_some]

theorem run_append {bs : List A} : ∀ {as : List A} {s : S},
    run step (as ++ bs) s = (run step as s).bind (run step bs)
  | [], _ => rfl
  | a :: as, s => by
    rw [List.cons_append, run, run, Option.bind_assoc]
    exact congrArg _ (funext (fun _ => run_append))

/-- **What every step keeps under a condition holds after every run that meets it.** -/
theorem run_keeps_of {ok : S → A → Prop} (hstep : ∀ {s a s'}, step s a = some s' → ok s a → I s → I s') :
    ∀ {as : List A} {s s' : S}, run step as s = some s' → Meets step ok as s → I s → I s'
  | [], s, s', hrun, _, hs => by
    obtain rfl := Option.some.inj hrun
    exact hs
  | a :: as, s, s', hrun, hok, hs => by
    obtain ⟨t, ht, hrun⟩ := Option.bind_eq_some_iff.1 hrun
    exact run_keeps_of hstep hrun (hok.2 t ht) (hstep ht hok.1 hs)

/-- **Where every step is matched by a run of another system**, every run is. -/
theorem run_simulates {T B : Type} {step' : T → B → Option T} {f : S → T}
    (hstep : ∀ {s a s'}, step s a = some s' → ∃ bs, run step' bs (f s) = some (f s')) :
    ∀ {as : List A} {s s' : S}, run step as s = some s' → ∃ bs, run step' bs (f s) = some (f s')
  | [], s, s', hrun => by
    obtain rfl := Option.some.inj hrun
    exact ⟨[], rfl⟩
  | a :: _, s, s', hrun => by
    obtain ⟨t, ht, hrun⟩ := Option.bind_eq_some_iff.1 hrun
    obtain ⟨bs, hbs⟩ := hstep ht
    obtain ⟨bs', hbs'⟩ := run_simulates hstep hrun
    exact ⟨bs ++ bs', run_append.trans (by rw [hbs, Option.bind_some, hbs'])⟩

/-- **Where every step that meets a condition lowers a measure**, it bounds the steps of a run that meets it. -/
theorem run_length_le {ok : S → A → Prop} {μ : S → Nat}
    (hlower : ∀ {s a s'}, step s a = some s' → ok s a → μ s' < μ s) : ∀ {as : List A} {s s' : S},
      run step as s = some s' → Meets step ok as s → as.length + μ s' ≤ μ s
  | [], s, s', hrun, _ => by
    obtain rfl := Option.some.inj hrun
    rw [List.length_nil, Nat.zero_add]
  | a :: as, s, s', hrun, hok => by
    obtain ⟨t, ht, hrun⟩ := Option.bind_eq_some_iff.1 hrun
    have hlt := hlower ht hok.1
    have hle := run_length_le hlower hrun (hok.2 t ht)
    rw [List.length_cons]
    omega

/-- **Where a condition says which steps keep a property**, a run meets it exactly when every state it reaches has the
property. -/
theorem meets_iff {ok : S → A → Prop} (h : ∀ {s a}, I s → (ok s a ↔ ∀ s' ∈ step s a, I s')) :
    ∀ {as : List A} {s : S}, I s → (Meets step ok as s ↔ ∀ bs, bs <+: as → ∀ s' ∈ run step bs s, I s')
  | [], s, hs => by
    refine iff_of_true trivial (fun bs hbs s' hs' => ?_)
    obtain rfl := List.prefix_nil.1 hbs
    obtain rfl := Option.some.inj hs'
    exact hs
  | a :: as, s, hs => by
    constructor
    · rintro ⟨hok, hmeets⟩ bs hbs s' hs'
      cases bs with
      | nil =>
        obtain rfl := Option.some.inj hs'
        exact hs
      | cons b bs =>
        obtain ⟨rfl, htail⟩ := List.cons_prefix_cons.1 hbs
        obtain ⟨t, ht, hs'⟩ := Option.bind_eq_some_iff.1 hs'
        exact (meets_iff h ((h hs).1 hok t ht)).1 (hmeets t ht) bs htail s' hs'
    · intro hall
      have hstep : ∀ t ∈ step s a, I t := by
        intro t ht
        exact hall [a] (by simp) t ((run_cons ht).trans rfl)
      refine ⟨(h hs).2 hstep, fun t ht => (meets_iff h (hstep t ht)).2 (fun bs hbs s' hs' => ?_)⟩
      exact hall (a :: bs) (List.cons_prefix_cons.2 ⟨rfl, hbs⟩) s' ((run_cons ht).trans hs')

theorem meets_of_forall {ok : S → A → Prop} (h : ∀ s a, ok s a) : ∀ (as : List A) (s : S), Meets step ok as s
  | [],      _ => trivial
  | a :: as, s => ⟨h s a, fun t _ => meets_of_forall h as t⟩

theorem meets_of_mem {ok : A → Prop} : ∀ {as : List A} {s : S}, (∀ a ∈ as, ok a) → Meets step (fun _ a => ok a) as s
  | [],      _, _ => trivial
  | a :: _,  _, h => ⟨h a List.mem_cons_self, fun _ _ => meets_of_mem (fun b hb => h b (List.mem_cons_of_mem a hb))⟩

theorem run_keeps (hstep : ∀ {s a s'}, step s a = some s' → I s → I s') {as : List A} {s s' : S}
    (hrun : run step as s = some s') (hs : I s) : I s' :=
  run_keeps_of (fun h (_ : True) => hstep h) hrun (meets_of_forall (fun _ _ => trivial) as s) hs

end

/-! ## Tasks -/

section
variable {ι A Sh T : Type} [DecidableEq ι]

structure System (ι Sh T : Type) where
  shared : Sh
  task : ι → T

def System.step (act : ι → A → Sh → T → Option (Sh × T)) (s : System ι Sh T) (a : ι × A) : Option (System ι Sh T) :=
  (act a.1 a.2 s.shared (s.task a.1)).map (fun r => ⟨r.1, Function.update s.task a.1 r.2⟩)

theorem step_eq_some {act : ι → A → Sh → T → Option (Sh × T)} {s s' : System ι Sh T} {i : ι} {a : A} :
    s.step act (i, a) = some s' ↔
      ∃ sh t, act i a s.shared (s.task i) = some (sh, t) ∧ s' = ⟨sh, Function.update s.task i t⟩ := by
  constructor
  · intro h
    obtain ⟨⟨sh, t⟩, hact, rfl⟩ := Option.map_eq_some_iff.1 h
    exact ⟨sh, t, hact, rfl⟩
  · rintro ⟨sh, t, hact, rfl⟩
    exact Option.map_eq_some_iff.2 ⟨(sh, t), hact, rfl⟩

/-- **A task that lowers its own measure by more than it raises all others** lowers the sum. -/
theorem sum_update_lt_of_le [Fintype ι] {f g : T → Nat} {d : Nat} {task : ι → T} {i : ι} {t : T}
    (hle : ∀ t, g t ≤ f t + d) (h : g t + d * Fintype.card ι < f (task i)) :
    ∑ j, g (Function.update task i t j) < ∑ j, f (task j) := by
  have hothers : ∑ j ∈ Finset.univ.erase i, g (Function.update task i t j) ≤
      ∑ j ∈ Finset.univ.erase i, f (task j) + (Finset.univ.erase i).card * d := by
    rw [← Finset.sum_const_nat (f := fun _ => d) (fun _ _ => rfl), ← Finset.sum_add_distrib]
    refine Finset.sum_le_sum (fun j hj => ?_)
    rw [Function.update_of_ne (Finset.ne_of_mem_erase hj)]
    exact hle (task j)
  have hcard : (Finset.univ.erase i).card * d ≤ d * Fintype.card ι := by
    rw [Nat.mul_comm]
    exact Nat.mul_le_mul_left d (Finset.card_le_univ _)
  rw [← Finset.add_sum_erase _ _ (Finset.mem_univ i), ← Finset.add_sum_erase _ (fun j => f (task j)) (Finset.mem_univ i),
    Function.update_self]
  omega

/-- **While one task takes all the steps**, the others stay as they are. -/
theorem run_alone {act : ι → A → Sh → T → Option (Sh × T)} {i : ι} : ∀ {as : List A} {s : System ι Sh T} {r : Sh × T},
    run (fun p a => act i a p.1 p.2) as (s.shared, s.task i) = some r →
      run (System.step act) (as.map (i, ·)) s = some ⟨r.1, Function.update s.task i r.2⟩
  | [], s, r, h => by
    obtain rfl := Option.some.inj h
    rw [Function.update_eq_self]
    rfl
  | a :: as, s, r, h => by
    obtain ⟨⟨sh, t⟩, hact, h⟩ := Option.bind_eq_some_iff.1 h
    rw [List.map_cons, run_cons (step_eq_some.2 ⟨sh, t, hact, rfl⟩)]
    have hself : (Function.update s.task i t) i = t := Function.update_self i t s.task
    rw [run_alone (s := ⟨sh, Function.update s.task i t⟩) (by rw [← hself] at h; exact h), Function.update_idem]

end

/-! ## A lock -/

section
variable {ι T α : Type} {inside : T → Bool} {lock : Option ι} {task : ι → T} {i j : ι} {t : T} {f : T → List α}

def Exclusive (inside : T → Bool) (lock : Option ι) (task : ι → T) : Prop := ∀ i, inside (task i) = true ↔ lock = some i

theorem Exclusive.unique (h : Exclusive inside lock task) (hi : inside (task i) = true) (hj : inside (task j) = true) :
    i = j :=
  Option.some.inj (((h i).1 hi).symm.trans ((h j).1 hj))

/-- What the holder of the lock carries. -/
def carried (f : T → List α) (lock : Option ι) (task : ι → T) : List α := lock.elim [] (fun i => f (task i))

theorem carried_of_inside (h : Exclusive inside lock task) (hi : inside (task i) = true) :
    carried f lock task = f (task i) := by rw [(h i).1 hi]; rfl

variable [DecidableEq ι]

theorem Exclusive.stay (h : Exclusive inside lock task) (ht : inside t = inside (task i)) :
    Exclusive inside lock (Function.update task i t) := by
  intro j
  by_cases hj : j = i
  · subst hj
    rw [Function.update_self, ht]
    exact h j
  · rw [Function.update_of_ne hj]
    exact h j

theorem Exclusive.acquire (h : Exclusive inside none task) (ht : inside t = true) :
    Exclusive inside (some i) (Function.update task i t) := by
  intro j
  by_cases hj : j = i
  · subst hj
    rw [Function.update_self, ht]
    exact iff_of_true rfl rfl
  · rw [Function.update_of_ne hj, h j]
    exact iff_of_false nofun (fun he => hj (Option.some.inj he).symm)

theorem Exclusive.release (h : Exclusive inside lock task) (hi : inside (task i) = true) (ht : inside t = false) :
    Exclusive inside none (Function.update task i t) := by
  intro j
  by_cases hj : j = i
  · subst hj
    rw [Function.update_self, ht]
    exact iff_of_false nofun nofun
  · rw [Function.update_of_ne hj]
    exact iff_of_false (fun hin => hj (h.unique hin hi)) nofun

theorem carried_update_self : carried f (some i) (Function.update task i t) = f t :=
  congrArg f (Function.update_self i t task)

theorem carried_update (ht : f t = f (task i)) : carried f lock (Function.update task i t) = carried f lock task := by
  cases lock with
  | none => rfl
  | some j =>
    by_cases hj : j = i
    · subst hj
      rw [carried_update_self, ht]
      rfl
    · exact congrArg f (Function.update_of_ne hj t task)

end

/-! ## A channel -/

section
variable {α : Type}

/-- One receive: the next message, or none of those that are no longer kept; it waits for the first one. -/
def recv (capacity : Nat) (sent : List α) (position : Nat) : Option (Option α × Nat) :=
  if capacity < sent.length - position then some (none, sent.length - capacity)
  else (sent[position]?).map (fun m => (some m, position + 1))

/-- **A receiver that is near receives the next message.** -/
theorem recv_near {capacity : Nat} {sent : List α} {position : Nat} {r : Option α × Nat}
    (h : recv capacity sent position = some r) (hnear : sent.length - position ≤ capacity) :
    ∃ m, r = (some m, position + 1) ∧ position < sent.length ∧ sent.drop position = m :: sent.drop (position + 1) := by
  rw [recv, if_neg (Nat.not_lt.2 hnear)] at h
  obtain ⟨m, hm, rfl⟩ := Option.map_eq_some_iff.1 h
  obtain ⟨hlt, rfl⟩ := List.getElem?_eq_some_iff.1 hm
  exact ⟨_, rfl, hlt, List.drop_eq_getElem_cons hlt⟩

/-- A receiver goes on, and not ahead of what was sent. -/
theorem recv_advances {capacity : Nat} {sent : List α} {position : Nat} {r : Option α × Nat}
    (h : recv capacity sent position = some r) : position < r.2 ∧ r.2 ≤ sent.length := by
  unfold recv at h
  split at h
  · obtain rfl := Option.some.inj h
    exact ⟨by omega, Nat.sub_le _ _⟩
  · obtain ⟨m, hm, rfl⟩ := Option.map_eq_some_iff.1 h
    exact ⟨Nat.lt_succ_self position, (List.getElem?_eq_some_iff.1 hm).1⟩

end

end Steps
