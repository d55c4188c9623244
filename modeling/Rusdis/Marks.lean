import Mathlib.Data.List.Basic
/-!
# Marks: cutting a list before its marked symbols

A symbol is marked by the one after it (`p c d`).  `cut p` cuts a list before every marked symbol, and `count p`
counts the cuts.  Blocks that begin with a mark are cut back into themselves (`cut_blocks`), and only when no other
symbol in them is marked (`count_blocks`).
-/
namespace Marks

variable {α : Type} (p : α → α → Bool)

def count : List α → Nat
  | []          => 0
  | [_]         => 0
  | c :: d :: t => (if p c d then 1 else 0) + count (d :: t)

/-- The pieces of a list whose first piece has begun with `cur`. -/
def cut : List α → List α → List (List α)
  | cur, []          => [cur]
  | cur, [c]         => [cur ++ [c]]
  | cur, c :: d :: t => if p c d then cur :: cut [c] (d :: t) else cut (cur ++ [c]) (d :: t)

/-- The first two pieces as one. -/
def glue : List (List α) → List (List α)
  | a :: b :: ls => (a ++ b) :: ls
  | ls           => ls

/-- A block without the mark `m` it begins with: its first symbol marks `m`, and `m` after it marks nothing. -/
structure Block (m : α) (t : List α) : Prop where
  head : ∃ d u, t = d :: u ∧ p m d = true
  last : ∀ x ∈ t.getLast?, p x m = false

theorem length_cut : ∀ (l cur : List α), (cut p cur l).length = count p l + 1
  | [], _ => rfl
  | [_], _ => rfl
  | c :: d :: t, cur => by
    rw [cut, count]
    split
    · rw [List.length_cons, length_cut (d :: t)]; omega
    · rw [length_cut (d :: t)]; omega

/-- What a piece has begun with stays before it. -/
theorem glue_cut : ∀ (l a b : List α), glue (a :: cut p b l) = cut p (a ++ b) l
  | [], _, _ => rfl
  | [c], a, b => by simp [cut, glue]
  | c :: d :: t, a, b => by
    rw [cut, cut]
    split
    · rfl
    · rw [glue_cut (d :: t), List.append_assoc]

theorem count_append : ∀ (l : List α) (c : α) (t : List α), (∀ x ∈ l.getLast?, p x c = false) →
    count p (l ++ c :: t) = count p l + count p (c :: t)
  | [], c, t, _ => by simp [count]
  | [x], c, t, h => by
    rw [List.singleton_append, count, count, h x rfl]; simp
  | x :: y :: l, c, t, h => by
    have ih := count_append (y :: l) c t (by simpa using h)
    rw [List.cons_append] at ih
    rw [List.cons_append, List.cons_append, count, count, ih, Nat.add_assoc]

theorem count_append_plain (t : List α) : ∀ (l : List α), (∀ c ∈ l, ∀ d, p c d = false) →
    count p (l ++ t) = count p t
  | [], _ => rfl
  | c :: l, h => by
    have ih := count_append_plain t l (fun x hx => h x (by simp [hx]))
    rw [List.cons_append, ← ih]
    cases l ++ t with
    | nil => rfl
    | cons d u => rw [count, h c (by simp) d]; simp

theorem cut_of_count_zero : ∀ (l cur : List α), count p l = 0 → cut p cur l = [cur ++ l]
  | [], cur, _ => by simp [cut]
  | [c], cur, _ => by simp [cut]
  | c :: d :: t, cur, h => by
    rw [count, Nat.add_eq_zero_iff] at h
    have hcd : ¬ p c d = true := by
      intro hp; rw [if_pos hp] at h; omega
    rw [cut, if_neg hcd, cut_of_count_zero (d :: t) _ h.2, List.append_assoc, List.singleton_append]

theorem cut_append {m : α} {t : List α} (hm : ∃ d u, t = d :: u ∧ p m d = true) : ∀ (l cur : List α), count p l = 0 →
    (∀ x ∈ l.getLast?, p x m = false) → cut p cur (l ++ m :: t) = (cur ++ l) :: cut p [m] t
  | [], cur, _, _ => by
    obtain ⟨d, u, rfl, hp⟩ := hm
    rw [List.nil_append, cut, if_pos hp, List.append_nil]
  | [x], cur, _, h => by
    obtain ⟨d, u, rfl, hp⟩ := hm
    rw [List.singleton_append, cut, h x rfl, if_neg (by simp), cut, if_pos hp]
  | x :: y :: l, cur, h0, h => by
    rw [count, Nat.add_eq_zero_iff] at h0
    have hxy : ¬ p x y = true := by
      intro hp; rw [if_pos hp] at h0; omega
    have ih := cut_append hm (y :: l) (cur ++ [x]) h0.2 (by simpa using h)
    rw [List.cons_append] at ih
    rw [List.cons_append, List.cons_append, cut, if_neg hxy, ih, List.append_assoc, List.singleton_append]

theorem Block.append {m : α} {t : List α} (h : Block p m t) (l : List α) : ∃ d u, t ++ l = d :: u ∧ p m d = true := by
  obtain ⟨d, u, rfl, hp⟩ := h.head
  exact ⟨d, u ++ l, rfl, hp⟩

/-- **Blocks whose other symbols are unmarked are cut back into themselves.** -/
theorem cut_blocks {m : α} : ∀ (ts : List (List α)) (t : List α), (∀ u ∈ t :: ts, Block p m u) →
    (∀ u ∈ t :: ts, count p u = 0) → cut p [m] (t ++ ts.flatMap (m :: ·)) = (t :: ts).map (m :: ·)
  | [], t, _, h0 => by
    rw [List.flatMap_nil, List.append_nil, cut_of_count_zero p t _ (h0 t (by simp))]
    rfl
  | u :: ts, t, hb, h0 => by
    have ih := cut_blocks ts u (fun x hx => hb x (List.mem_cons_of_mem _ hx))
      (fun x hx => h0 x (List.mem_cons_of_mem _ hx))
    have hu := (hb u (by simp)).append p (ts.flatMap (m :: ·))
    rw [List.flatMap_cons, List.cons_append, cut_append p hu t _ (h0 t (by simp)) (hb t (by simp)).last, ih]
    rfl

/-- **One mark for each block after the first**, and no more only if no other symbol is marked. -/
theorem count_blocks {m : α} : ∀ (ts : List (List α)) (t : List α), (∀ u ∈ t :: ts, Block p m u) →
    ts.length ≤ count p (t ++ ts.flatMap (m :: ·)) ∧
      (count p (t ++ ts.flatMap (m :: ·)) = ts.length → ∀ u ∈ t :: ts, count p u = 0)
  | [], t, _ => by simp
  | u :: ts, t, hb => by
    obtain ⟨hle, hzero⟩ := count_blocks ts u (fun x hx => hb x (List.mem_cons_of_mem _ hx))
    obtain ⟨d, w, hd, hp⟩ := (hb u (by simp)).append p (ts.flatMap (m :: ·))
    have hm : count p (m :: (u ++ ts.flatMap (m :: ·))) = 1 + count p (u ++ ts.flatMap (m :: ·)) := by
      rw [hd, count, if_pos hp]
    rw [List.flatMap_cons, List.cons_append, count_append p t m _ (hb t (by simp)).last, hm, List.length_cons]
    refine ⟨by omega, fun h x hx => ?_⟩
    rcases List.mem_cons.1 hx with rfl | hx
    · omega
    · exact hzero (by omega) x hx

end Marks
