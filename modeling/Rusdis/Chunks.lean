import Mathlib.Algebra.BigOperators.Group.List.Basic
import Mathlib.Algebra.GroupWithZero.Nat
import Mathlib.Algebra.Order.Monoid.Defs
/-!
# Chunks: a stream that was written in pieces and is read in others

`ends chunks j` is where the first `j` chunks of a stream end.  A read between two such places holds the chunks between
them (`read_chunks`), whatever is written later (`ends_append`).
-/
namespace Chunks

variable {α : Type} {chunks : List (List α)} {j m n : Nat}

def ends (chunks : List (List α)) (j : Nat) : Nat := ((chunks.map List.length).take j).sum

theorem ends_le (h : j ≤ m) : ends chunks j ≤ ends chunks m := by
  obtain ⟨d, rfl⟩ := Nat.exists_eq_add_of_le h
  rw [ends, ends, List.take_add, List.sum_append]
  exact Nat.le_add_right _ _

theorem ends_append (h : m ≤ chunks.length) (later : List (List α)) : ends (chunks ++ later) m = ends chunks m := by
  rw [ends, ends, List.map_append, List.take_append_of_le_length (by rwa [List.length_map])]

/-- **A read between two ends of chunks holds the chunks between them.** -/
theorem read_chunks (hn : 0 < n) (hend : ends chunks m + n = ends chunks j) :
    m < j ∧ (chunks.flatten.drop (ends chunks m)).take n = ((chunks.drop m).take (j - m)).flatten := by
  have hlt : m < j := by
    by_contra hle
    have hends : ends chunks j ≤ ends chunks m := ends_le (Nat.le_of_not_lt hle)
    omega
  refine ⟨hlt, ?_⟩
  have htake : chunks.flatten.take (ends chunks m + n) = (chunks.take j).flatten := by
    rw [hend, ends, List.take_sum_flatten]
  have hends : ends chunks m = (((chunks.take j).map List.length).take m).sum := by
    rw [List.map_take, List.take_take, Nat.min_eq_left hlt.le, ends]
  have hdrop := List.drop_take (i := ends chunks m) (j := ends chunks m + n) (l := chunks.flatten)
  rw [Nat.add_sub_cancel_left] at hdrop
  rw [← hdrop, htake, hends, List.drop_sum_flatten, List.drop_take]

/-- A part of a list within its first `m` stays while it grows at the end. -/
theorem take_drop_of_prefix {l l' : List α} (h : l <+: l') (hm : m ≤ (l.drop n).length) :
    (l'.drop n).take m = (l.drop n).take m := by
  obtain ⟨later, rfl⟩ := h
  rcases Nat.eq_zero_or_pos m with rfl | hpos
  · rfl
  · rw [List.length_drop] at hm
    rw [List.drop_append_of_le_length (by omega), List.take_append_of_le_length (by rw [List.length_drop]; exact hm)]

end Chunks
