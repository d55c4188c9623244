import Mathlib.Data.List.Basic
/-!
# Codes — codewords that tell where they end

A code is self-delimiting on `p` when a text starts with at most one of its codewords: what follows is then determined
too.  Such a code has no codeword that is a proper prefix of another (`SelfDelimiting.eq_of_prefix`), and a
concatenation of non-empty codewords is of one list only (`SelfDelimiting.flatMap_inj`).
-/
namespace Codes

variable {α β : Type*} {e : α → List β} {p : α → Prop}

def SelfDelimiting (e : α → List β) (p : α → Prop) : Prop :=
  ∀ a b s t, p a → p b → e a ++ s = e b ++ t → a = b ∧ s = t

theorem SelfDelimiting.eq_of_prefix (h : SelfDelimiting e p) {a b : α} (ha : p a) (hb : p b) (hab : e a <+: e b) :
    a = b := by
  obtain ⟨s, hs⟩ := hab
  rw [← List.append_nil (e b)] at hs
  exact (h a b s [] ha hb hs).1

theorem SelfDelimiting.injective (h : SelfDelimiting e p) {a b : α} (ha : p a) (hb : p b) (hab : e a = e b) : a = b :=
  h.eq_of_prefix ha hb (hab ▸ List.prefix_refl _)

/-- As many codewords as a count before them says. -/
theorem SelfDelimiting.flatMap_append_inj (h : SelfDelimiting e p) : ∀ (as bs : List α) (s t : List β),
    (∀ a ∈ as, p a) → (∀ b ∈ bs, p b) → as.length = bs.length → as.flatMap e ++ s = bs.flatMap e ++ t →
      as = bs ∧ s = t
  | [], [], s, t, _, _, _, hst => ⟨rfl, hst⟩
  | a :: as, b :: bs, s, t, ha, hb, hlen, hst => by
    rw [List.flatMap_cons, List.flatMap_cons, List.append_assoc, List.append_assoc] at hst
    obtain ⟨rfl, htail⟩ := h a b _ _ (ha a (by simp)) (hb b (by simp)) hst
    obtain ⟨rfl, rfl⟩ := h.flatMap_append_inj as bs s t (fun x hx => ha x (by simp [hx]))
      (fun x hx => hb x (by simp [hx])) (Nat.succ.inj hlen) htail
    exact ⟨rfl, rfl⟩

/-- **A concatenation of codewords is of one list**, though nothing says how many there are. -/
theorem SelfDelimiting.flatMap_inj (h : SelfDelimiting e p) (hne : ∀ a, p a → e a ≠ []) : ∀ (as bs : List α),
    (∀ a ∈ as, p a) → (∀ b ∈ bs, p b) → as.flatMap e = bs.flatMap e → as = bs
  | [], [], _, _, _ => rfl
  | [], b :: bs, _, hb, heq => by
    rw [List.flatMap_nil, List.flatMap_cons] at heq
    exact absurd (List.append_eq_nil_iff.1 heq.symm).1 (hne b (hb b (by simp)))
  | a :: as, [], ha, _, heq => by
    rw [List.flatMap_nil, List.flatMap_cons] at heq
    exact absurd (List.append_eq_nil_iff.1 heq).1 (hne a (ha a (by simp)))
  | a :: as, b :: bs, ha, hb, heq => by
    rw [List.flatMap_cons, List.flatMap_cons] at heq
    obtain ⟨rfl, htail⟩ := h a b _ _ (ha a (by simp)) (hb b (by simp)) heq
    rw [h.flatMap_inj hne as bs (fun x hx => ha x (by simp [hx])) (fun x hx => hb x (by simp [hx])) htail]

end Codes
