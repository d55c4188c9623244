import Mathlib.Data.List.Infix
/-!
# Lines: cutting a list at a two-symbol terminator

`split a b` cuts a list at every occurrence of the terminator `a b`, leftmost first, and keeps what follows the last
one (`joinLines_split`).  `Free a b l` says that `l` holds no terminator; free lines joined by terminators are cut
back into themselves, whatever follows them (`split_joinLines_append`).
-/
namespace Lines

variable {α : Type} (a b : α)

/-- No terminator inside. -/
def Free (l : List α) : Prop := ¬ [a, b] <:+: l

def joinLines (ls : List (List α)) : List α := ls.flatMap (· ++ [a, b])

def consHead (c : α) : List (List α) → List (List α)
  | []      => [[c]]
  | l :: ls => (c :: l) :: ls

@[simp] theorem joinLines_nil : joinLines a b ([] : List (List α)) = [] := rfl

@[simp] theorem joinLines_cons (l : List α) (ls : List (List α)) :
    joinLines a b (l :: ls) = l ++ a :: b :: joinLines a b ls := by simp [joinLines]

theorem joinLines_append (ls ms : List (List α)) :
    joinLines a b (ls ++ ms) = joinLines a b ls ++ joinLines a b ms := by simp [joinLines]

theorem free_nil : Free a b ([] : List α) := by simp [Free]

theorem free_cons {c : α} {l : List α} : Free a b (c :: l) ↔ (c = a → l.head? ≠ some b) ∧ Free a b l := by
  unfold Free
  rw [List.infix_cons_iff, not_or]
  refine and_congr ?_ Iff.rfl
  cases l with
  | nil => simp
  | cons d t =>
    simp only [List.cons_prefix_cons, List.nil_prefix, and_true, List.head?_cons, ne_eq, Option.some.injEq,
      not_and]
    exact ⟨fun h hc hd => h hc.symm hd.symm, fun h hc hd => h hc.symm hd.symm⟩

variable {a b} in
theorem Free.of_infix {l m : List α} (h : Free a b m) (hl : l <:+: m) : Free a b l :=
  fun hab => h (hab.trans hl)

theorem free_of_notMem {l : List α} (h : a ∉ l) : Free a b l :=
  fun hab => h (hab.subset (by simp))

theorem consHead_ne_nil (c : α) (ls : List (List α)) : consHead c ls ≠ [] := by cases ls <;> simp [consHead]

theorem joinLines_consHead (c : α) {ls : List (List α)} (h : ls ≠ []) :
    joinLines a b (consHead c ls) = c :: joinLines a b ls := by
  cases ls with
  | nil => exact absurd rfl h
  | cons l ls => simp [consHead]

variable [DecidableEq α]

instance (l : List α) : Decidable (Free a b l) := inferInstanceAs (Decidable (¬ _))

def split : List α → List (List α)
  | []          => [[]]
  | [c]         => [[c]]
  | c :: d :: t => if c = a ∧ d = b then [] :: split t else consHead c (split (d :: t))

/-- The text before the first terminator, when there is one. -/
def before : List α → Option (List α)
  | []          => none
  | [_]         => none
  | c :: d :: t => if c = a ∧ d = b then some [] else (before (d :: t)).map (c :: ·)

@[simp] theorem split_nil : split a b ([] : List α) = [[]] := rfl
@[simp] theorem split_singleton (c : α) : split a b [c] = [[c]] := rfl

theorem split_cons_cons (c d : α) (t : List α) :
    split a b (c :: d :: t) = if c = a ∧ d = b then [] :: split a b t else consHead c (split a b (d :: t)) := rfl

theorem split_terminator (t : List α) : split a b (a :: b :: t) = [] :: split a b t := by
  rw [split_cons_cons, if_pos ⟨rfl, rfl⟩]

theorem split_ne_nil (l : List α) : split a b l ≠ [] := by
  match l with
  | []          => simp
  | [c]         => simp
  | c :: d :: t =>
    rw [split_cons_cons]; split
    · simp
    · exact consHead_ne_nil c _

/-- **Cutting loses nothing**: the lines, each ended, are the text and one more terminator. -/
theorem joinLines_split : ∀ (l : List α), joinLines a b (split a b l) = l ++ [a, b]
  | []          => by simp
  | [c]         => by simp
  | c :: d :: t => by
    rw [split_cons_cons]; split
    · rename_i h
      rw [joinLines_cons, joinLines_split t, h.1, h.2]
      rfl
    · rw [joinLines_consHead a b c (split_ne_nil a b _), joinLines_split (d :: t)]
      rfl

theorem head_split_isPrefix : ∀ (l : List α), ∀ m ∈ (split a b l).head?, m <+: l
  | [], m, hm => by simp_all
  | [c], m, hm => by simp_all
  | c :: d :: t, m, hm => by
    rw [split_cons_cons] at hm
    split at hm
    · simp_all
    · have ih := head_split_isPrefix (d :: t)
      cases hs : split a b (d :: t) with
      | nil => exact absurd hs (split_ne_nil a b _)
      | cons l ls =>
        rw [hs] at hm ih
        simp only [consHead, List.head?_cons, Option.mem_def, Option.some.injEq] at hm
        subst hm
        simpa using ih l rfl

theorem free_of_mem_split : ∀ (l : List α), ∀ m ∈ split a b l, Free a b m
  | [], m, hm => by
    rw [List.mem_singleton.1 hm]; exact free_nil a b
  | [c], m, hm => by
    rw [List.mem_singleton.1 hm, free_cons]
    exact ⟨by simp, free_nil a b⟩
  | c :: d :: t, m, hm => by
    rw [split_cons_cons] at hm
    split at hm
    · rcases List.mem_cons.1 hm with rfl | hm
      · exact free_nil a b
      · exact free_of_mem_split t m hm
    · rename_i hcd
      have ih := free_of_mem_split (d :: t)
      have hpre := head_split_isPrefix a b (d :: t)
      cases hs : split a b (d :: t) with
      | nil => exact absurd hs (split_ne_nil a b _)
      | cons l ls =>
        rw [hs] at hm ih hpre
        rcases List.mem_cons.1 hm with rfl | hm
        · rw [free_cons]
          refine ⟨fun hc hh => hcd ⟨hc, ?_⟩, ih l (by simp)⟩
          cases l with
          | nil => simp at hh
          | cons e l =>
            have hed := (List.cons_prefix_cons.1 (hpre _ rfl)).1
            rw [List.head?_cons, Option.some.injEq] at hh
            rw [← hed, hh]
        · exact ih m (by simp [hm])

variable {a b}

/-- **A free line and its terminator are cut off whole**, whatever follows. -/
theorem split_free_append (hab : a ≠ b) (t : List α) : ∀ (l : List α), Free a b l →
    split a b (l ++ a :: b :: t) = l :: split a b t
  | [], _ => split_terminator a b t
  | [c], _ => by
    rw [List.cons_append, List.nil_append, split_cons_cons, if_neg (fun hca => hab hca.2), split_terminator]
    rfl
  | c :: d :: m, h => by
    rw [free_cons] at h
    rw [List.cons_append, List.cons_append, split_cons_cons, if_neg (fun hcd => h.1 hcd.1 (by simp [hcd.2])),
      ← List.cons_append, split_free_append hab t (d :: m) h.2]
    rfl

theorem split_free : ∀ (l : List α), Free a b l → split a b l = [l]
  | [], _ => rfl
  | [c], _ => rfl
  | c :: d :: m, h => by
    rw [free_cons] at h
    rw [split_cons_cons, if_neg (fun hcd => h.1 hcd.1 (by simp [hcd.2])), split_free (d :: m) h.2]
    rfl

theorem split_joinLines_append (hab : a ≠ b) (t : List α) : ∀ (ls : List (List α)), (∀ l ∈ ls, Free a b l) →
    split a b (joinLines a b ls ++ t) = ls ++ split a b t
  | [], _ => rfl
  | l :: ls, h => by
    rw [joinLines_cons, List.append_assoc, List.cons_append, List.cons_append,
      split_free_append hab _ l (h l (by simp)),
      split_joinLines_append hab t ls (fun m hm => h m (by simp [hm]))]
    rfl

theorem before_eq_some : ∀ (l m : List α), before a b l = some m ↔ ∃ n ns, split a b l = m :: n :: ns
  | [], m => by simp [before]
  | [c], m => by simp [before]
  | c :: d :: t, m => by
    rw [split_cons_cons, before]; split
    · obtain ⟨n, ns, hn⟩ := List.exists_cons_of_ne_nil (split_ne_nil a b t)
      simp [hn, eq_comm]
    · have ih := before_eq_some (d :: t)
      cases hs : split a b (d :: t) with
      | nil => exact absurd hs (split_ne_nil a b _)
      | cons l ls =>
        simp only [hs, List.cons.injEq, Option.map_eq_some_iff, consHead] at ih ⊢
        constructor
        · rintro ⟨x, hx, rfl⟩
          obtain ⟨n, ns, rfl, rfl⟩ := (ih x).1 hx
          exact ⟨n, ns, rfl, rfl⟩
        · rintro ⟨n, ns, rfl, rfl⟩
          exact ⟨l, (ih l).2 ⟨n, ns, rfl, rfl⟩, rfl⟩

theorem exists_before {l : List α} (h : ¬ Free a b l) : ∃ m, before a b l = some m := by
  have hjoin := joinLines_split a b l
  have hfree := free_of_mem_split a b l
  cases hs : split a b l with
  | nil => exact absurd hs (split_ne_nil a b l)
  | cons m ms =>
    cases ms with
    | nil =>
      rw [hs, joinLines_cons, joinLines_nil] at hjoin
      obtain rfl := List.append_cancel_right hjoin
      exact absurd (hfree m (by rw [hs]; simp)) h
    | cons n ns => exact ⟨m, (before_eq_some l m).2 ⟨n, ns, hs⟩⟩

theorem before_free_append (hab : a ≠ b) {l : List α} (h : Free a b l) (t : List α) :
    before a b (l ++ a :: b :: t) = some l := by
  obtain ⟨n, ns, hn⟩ := List.exists_cons_of_ne_nil (split_ne_nil a b t)
  exact (before_eq_some _ _).2 ⟨n, ns, by rw [split_free_append hab t l h, hn]⟩

end Lines
