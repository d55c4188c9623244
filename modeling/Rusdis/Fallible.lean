import Mathlib.Data.List.Forall2
/-!
# Fallible: calls that return an error or panic

A call that may fail is an `Except (Fault ε) α`: its `Err`, or a panic, which unwinds past every caller.  The lemmas
take a successful run of binds and of a `mapM` apart.
-/

inductive Fault (ε : Type) where
  | err (e : ε)
  | panic
  deriving DecidableEq, Repr

namespace Fallible

variable {ε α β γ : Type}

instance decEqExcept [DecidableEq ε] [DecidableEq α] : DecidableEq (Except ε α)
  | .ok a,    .ok b    => decidable_of_iff (a = b) (by simp)
  | .error d, .error e => decidable_of_iff (d = e) (by simp)
  | .ok _,    .error _ => isFalse nofun
  | .error _, .ok _    => isFalse nofun

def orPanic : Option α → Except (Fault ε) α
  | some a => .ok a
  | none   => .error .panic

@[simp] theorem orPanic_some (a : α) : orPanic (some a) = (.ok a : Except (Fault ε) α) := rfl
@[simp] theorem orPanic_none : orPanic (none : Option α) = (.error .panic : Except (Fault ε) α) := rfl

theorem orPanic_eq_ok {o : Option α} {a : α} : orPanic o = (.ok a : Except (Fault ε) α) ↔ o = some a := by
  cases o <;> simp

/-- The `?` of a call whose error converts. -/
def orErr (f : γ → ε) : Except γ α → Except (Fault ε) α
  | .ok a    => .ok a
  | .error e => .error (.err (f e))

@[simp] theorem orErr_ok (f : γ → ε) (a : α) : orErr f (.ok a) = .ok a := rfl

theorem orErr_eq_ok {f : γ → ε} {x : Except γ α} {a : α} : orErr f x = .ok a ↔ x = .ok a := by
  cases x <;> simp [orErr]

@[simp] theorem ok_bind (a : α) (f : α → Except ε β) : (Except.ok a >>= f) = f a := rfl
@[simp] theorem error_bind (e : ε) (f : α → Except ε β) : ((Except.error e : Except ε α) >>= f) = .error e := rfl
@[simp] theorem pure_eq_ok (a : α) : (pure a : Except ε α) = .ok a := rfl
@[simp] theorem throw_eq_error (e : ε) : (throw e : Except ε α) = .error e := rfl

theorem bind_eq_ok {x : Except ε α} {f : α → Except ε β} {b : β} :
    (x >>= f) = .ok b ↔ ∃ a, x = .ok a ∧ f a = .ok b := by
  cases x <;> simp

@[simp] theorem map_ok (f : α → β) (a : α) : f <$> (Except.ok a : Except ε α) = .ok (f a) := rfl

theorem map_eq_ok {f : α → β} {x : Except ε α} {b : β} : f <$> x = .ok b ↔ ∃ a, x = .ok a ∧ f a = b := by
  cases x with
  | ok a => simp
  | error e =>
    constructor
    · intro h; cases h
    · rintro ⟨a, ha, -⟩; cases ha

/-- **A successful `mapM` succeeded on every element**, in order. -/
theorem mapM_eq_ok {f : α → Except ε β} : ∀ {xs : List α} {ys : List β},
    xs.mapM f = .ok ys ↔ List.Forall₂ (fun x y => f x = .ok y) xs ys
  | [], ys => by simp [eq_comm]
  | x :: xs, ys => by
    rw [List.mapM_cons, bind_eq_ok]
    constructor
    · rintro ⟨y, hy, h⟩
      obtain ⟨ys', hys, he⟩ := bind_eq_ok.1 h
      cases he
      exact .cons hy (mapM_eq_ok.1 hys)
    · intro h
      cases h with
      | cons hy hys => exact ⟨_, hy, bind_eq_ok.2 ⟨_, mapM_eq_ok.2 hys, rfl⟩⟩

/-- **A `mapM` fails on the first element that does**: those before it succeeded. -/
theorem mapM_eq_error {f : α → Except ε β} {e : ε} : ∀ {xs : List α},
    xs.mapM f = .error e ↔ ∃ pre x post, xs = pre ++ x :: post ∧ (∀ y ∈ pre, ∃ b, f y = .ok b) ∧ f x = .error e
  | [] => by simp
  | x :: xs => by
    rw [List.mapM_cons]
    cases hx : f x with
    | error d =>
      rw [error_bind]
      constructor
      · intro h
        cases h
        exact ⟨[], x, xs, rfl, by simp, hx⟩
      · rintro ⟨pre, y, post, hcut, hpre, hy⟩
        cases pre with
        | nil =>
          obtain ⟨rfl, rfl⟩ := List.cons.inj hcut
          exact congrArg _ (Except.error.inj (hx.symm.trans hy))
        | cons p pre =>
          obtain ⟨rfl, -⟩ := List.cons.inj hcut
          obtain ⟨b, hb⟩ := hpre x (by simp)
          rw [hx] at hb; cases hb
    | ok a =>
      have ih : xs.mapM f = .error e ↔ ∃ pre x post, xs = pre ++ x :: post ∧ (∀ y ∈ pre, ∃ b, f y = .ok b) ∧
          f x = .error e := mapM_eq_error
      rw [ok_bind]
      constructor
      · intro h
        cases hxs : xs.mapM f with
        | ok bs => rw [hxs] at h; cases h
        | error d =>
          rw [hxs] at h
          cases h
          obtain ⟨pre, y, post, rfl, hpre, hy⟩ := ih.1 hxs
          refine ⟨x :: pre, y, post, rfl, fun z hz => ?_, hy⟩
          rcases List.mem_cons.1 hz with rfl | hz
          · exact ⟨a, hx⟩
          · exact hpre z hz
      · rintro ⟨pre, y, post, hcut, hpre, hy⟩
        cases pre with
        | nil =>
          obtain ⟨rfl, rfl⟩ := List.cons.inj hcut
          rw [hx] at hy; cases hy
        | cons p pre =>
          obtain ⟨rfl, rfl⟩ := List.cons.inj hcut
          rw [ih.2 ⟨pre, y, post, rfl, fun z hz => hpre z (by simp [hz]), hy⟩]
          rfl

theorem exists_of_mem_right {R : α → β → Prop} : ∀ {xs : List α} {ys : List β}, List.Forall₂ R xs ys →
    ∀ y ∈ ys, ∃ x ∈ xs, R x y
  | _, _, .nil, y, hy => by cases hy
  | _, _, .cons (a := a) h t, y, hy => by
    rcases List.mem_cons.1 hy with rfl | hy
    · exact ⟨a, by simp, h⟩
    · obtain ⟨x, hx, hr⟩ := exists_of_mem_right t y hy
      exact ⟨x, by simp [hx], hr⟩

theorem forall_exists {R : α → β → Prop} {xs : List α} {ys : List β} (h : List.Forall₂ R xs ys) :
    ∀ y ∈ ys, ∃ x, R x y := fun y hy => by
  obtain ⟨x, -, hx⟩ := exists_of_mem_right h y hy
  exact ⟨x, hx⟩

theorem exists_of_mem_left {R : α → β → Prop} {xs : List α} {ys : List β} (h : List.Forall₂ R xs ys) :
    ∀ x ∈ xs, ∃ y ∈ ys, R x y := exists_of_mem_right (List.Forall₂.flip h)

theorem exists_of_mem_both {R : α → β → Prop} {S : β → α → Prop} : ∀ {xs : List α} {ys : List β},
    List.Forall₂ R xs ys → List.Forall₂ S ys xs → ∀ x ∈ xs, ∃ y, R x y ∧ S y x
  | _, _, .nil, .nil, x, hx => by cases hx
  | _, _, .cons (b := b) h t, .cons h' t', x, hx => by
    rcases List.mem_cons.1 hx with rfl | hx
    · exact ⟨b, h, h'⟩
    · exact exists_of_mem_both t t' x hx

theorem mapM_attach {f : α → Except ε β} (xs : List α) : xs.attach.mapM (fun x => f x.1) = xs.mapM f := by
  rw [List.mapM_subtype (g := f) (fun _ _ => rfl), List.unattach_attach]

theorem mapM_map_ok {f : α → Except ε β} {g : γ → α} {h : γ → β} (cs : List γ) (hf : ∀ c ∈ cs, f (g c) = .ok (h c)) :
    (cs.map g).mapM f = .ok (cs.map h) := by
  rw [mapM_eq_ok, List.forall₂_map_left_iff, List.forall₂_map_right_iff, List.forall₂_same]
  exact hf

end Fallible
