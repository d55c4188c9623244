import Mathlib.Data.List.Infix
/-!
# Glob: patterns of symbols and stars

A star stands for any sequence of the symbols it may take.  `Matches` is a match of the whole input and `Within` one of
a part of it; the two agree for a pattern between two stars (`within_iff_of_stars`).
-/
namespace Glob

inductive Token (α : Type) where
  | char (c : α)
  | star
  deriving DecidableEq, Repr

variable {α : Type}

/-- The pattern matches the whole input, its stars taking symbols of `any`. -/
def Matches (any : α → Prop) : List (Token α) → List α → Prop
  | [],           s => s = []
  | .char c :: p, s => ∃ t, s = c :: t ∧ Matches any p t
  | .star :: p,   s => ∃ a t, s = a ++ t ∧ (∀ c ∈ a, any c) ∧ Matches any p t

/-- The pattern matches a part of the input. -/
def Within (any : α → Prop) (p : List (Token α)) (s : List α) : Prop := ∃ t, t <:+: s ∧ Matches any p t

section
variable {any any' : α → Prop} {p q : List (Token α)} {s a : List α}

theorem Matches.mono (hany : ∀ c ∈ s, any c → any' c) : ∀ {p : List (Token α)} {t : List α}, t <:+: s →
    Matches any p t → Matches any' p t
  | [], _, _, h => h
  | .char _ :: _, _, ht, h => by
    obtain ⟨t, rfl, h⟩ := h
    exact ⟨t, rfl, Matches.mono hany ((List.suffix_cons _ t).isInfix.trans ht) h⟩
  | .star :: _, _, ht, h => by
    obtain ⟨a, t, rfl, ha, h⟩ := h
    have hs := List.IsInfix.subset ht
    exact ⟨a, t, rfl, fun c hc => hany c (hs (List.mem_append_left t hc)) (ha c hc),
      Matches.mono hany ((List.suffix_append a t).isInfix.trans ht) h⟩

theorem Matches.within (h : Matches any p s) : Within any p s := ⟨s, List.infix_rfl, h⟩

/-- **A pattern in two parts cuts the input in two.** -/
theorem matches_append : ∀ {p : List (Token α)} {s : List α},
    Matches any (p ++ q) s ↔ ∃ a b, s = a ++ b ∧ Matches any p a ∧ Matches any q b
  | [], s => by
    constructor
    · exact fun h => ⟨[], s, rfl, rfl, h⟩
    · rintro ⟨a, b, rfl, rfl, h⟩
      exact h
  | .char c :: p, s => by
    constructor
    · rintro ⟨t, rfl, h⟩
      obtain ⟨a, b, rfl, ha, hb⟩ := matches_append.1 h
      exact ⟨c :: a, b, rfl, ⟨a, rfl, ha⟩, hb⟩
    · rintro ⟨_, b, rfl, ⟨a, rfl, ha⟩, hb⟩
      exact ⟨a ++ b, rfl, matches_append.2 ⟨a, b, rfl, ha, hb⟩⟩
  | .star :: p, s => by
    constructor
    · rintro ⟨d, t, rfl, hd, h⟩
      obtain ⟨a, b, rfl, ha, hb⟩ := matches_append.1 h
      exact ⟨d ++ a, b, (List.append_assoc d a b).symm, ⟨d, a, rfl, hd, ha⟩, hb⟩
    · rintro ⟨_, b, rfl, ⟨d, a, rfl, hd, ha⟩, hb⟩
      exact ⟨d, a ++ b, List.append_assoc d a b, hd, matches_append.2 ⟨a, b, rfl, ha, hb⟩⟩

theorem Matches.star_append (ha : ∀ c ∈ a, any c) (h : Matches any (.star :: p) s) : Matches any (.star :: p) (a ++ s) := by
  obtain ⟨b, t, rfl, hb, h⟩ := h
  exact ⟨a ++ b, t, (List.append_assoc a b t).symm, List.forall_mem_append.2 ⟨ha, hb⟩, h⟩

theorem Matches.append_star (ha : ∀ c ∈ a, any c) (h : Matches any (p ++ [.star]) s) :
    Matches any (p ++ [.star]) (s ++ a) := by
  obtain ⟨b, c, rfl, hb, d, t, rfl, hd, rfl⟩ := matches_append.1 h
  refine matches_append.2 ⟨b, d ++ a, by simp, hb, d ++ a, [], by simp, List.forall_mem_append.2 ⟨hd, ha⟩, rfl⟩

/-- **Between two stars a part matches when the whole does**, where the stars may take everything. -/
theorem within_iff_of_stars (hany : ∀ c ∈ s, any c) :
    Within any (.star :: p ++ [.star]) s ↔ Matches any (.star :: p ++ [.star]) s := by
  refine ⟨fun h => ?_, Matches.within⟩
  obtain ⟨t, ⟨a, b, rfl⟩, h⟩ := h
  rw [List.forall_mem_append, List.forall_mem_append] at hany
  rw [List.append_assoc]
  exact Matches.star_append hany.1.1 (Matches.append_star hany.2 h)

/-! ## Deciding -/

theorem exists_split_iff {P : List α → List α → Prop} :
    (∃ a t, s = a ++ t ∧ P a t) ↔ ∃ n ∈ List.range (s.length + 1), P (s.take n) (s.drop n) := by
  constructor
  · rintro ⟨a, t, rfl, h⟩
    refine ⟨a.length, ?_, by rwa [List.take_left, List.drop_left]⟩
    rw [List.mem_range, List.length_append]
    omega
  · rintro ⟨n, -, h⟩
    exact ⟨s.take n, s.drop n, (List.take_append_drop n s).symm, h⟩

instance decMatches [DecidableEq α] [DecidablePred any] : ∀ (p : List (Token α)) (s : List α),
    Decidable (Matches any p s)
  | [], s => inferInstanceAs (Decidable (s = []))
  | .char _ :: _, [] => isFalse (fun ⟨_, h, _⟩ => nomatch h)
  | .char c :: p, d :: s =>
    have := decMatches p s
    decidable_of_iff (d = c ∧ Matches any p s)
      ⟨fun h => ⟨s, by rw [h.1], h.2⟩, fun ⟨_, h, h'⟩ => by obtain ⟨rfl, rfl⟩ := List.cons.inj h; exact ⟨rfl, h'⟩⟩
  | .star :: p, s =>
    have (t : List α) : Decidable (Matches any p t) := decMatches p t
    decidable_of_iff (∃ n ∈ List.range (s.length + 1), (∀ c ∈ s.take n, any c) ∧ Matches any p (s.drop n))
      (exists_split_iff (P := fun a t => (∀ c ∈ a, any c) ∧ Matches any p t)).symm

theorem within_iff_mem : Within any p s ↔ ∃ u ∈ s.tails, ∃ t ∈ u.inits, Matches any p t := by
  constructor
  · rintro ⟨t, ht, h⟩
    obtain ⟨u, htu, hu⟩ := List.infix_iff_prefix_suffix.1 ht
    exact ⟨u, (List.mem_tails _ _).2 hu, t, (List.mem_inits _ _).2 htu, h⟩
  · rintro ⟨u, hu, t, ht, h⟩
    exact ⟨t, List.infix_iff_prefix_suffix.2 ⟨u, (List.mem_inits _ _).1 ht, (List.mem_tails _ _).1 hu⟩, h⟩

instance decWithin [DecidableEq α] [DecidablePred any] (p : List (Token α)) (s : List α) : Decidable (Within any p s) :=
  decidable_of_iff _ within_iff_mem.symm

end

end Glob
