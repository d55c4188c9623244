import Mathlib.Data.Nat.Digits.Defs
import Mathlib.Data.Int.Order.Basic
/-!
# Decimal: numbers written in base ten and read back within bounds

`natText` and `intText` write a number; `readInt` reads one digit at a time and stops at the first step that leaves
`lo .. hi`, as a fixed-width integer does.  Reading what was written gives the number back exactly when it is in
range (`readInt_natText`, `readInt_intText`).
-/
namespace Decimal

inductive IntErrorKind where
  | empty
  | invalidDigit
  | posOverflow
  | negOverflow
  deriving DecidableEq, Repr

def natText (n : Nat) : List Char := Nat.toDigits 10 n

def intText : Int → List Char
  | .ofNat n   => natText n
  | .negSucc n => '-' :: natText (n + 1)

/-- The digits after the sign: `sgn` is `1` or `-1`, and every step is checked against the bounds. -/
def readDigits (sgn lo hi : Int) : Int → List Char → Except IntErrorKind Int
  | acc, []      => .ok acc
  | acc, c :: cs =>
    if c.isDigit then
      let acc' := acc * 10 + sgn * (c.toNat - '0'.toNat : Nat)
      if hi < acc' then .error .posOverflow
      else if acc' < lo then .error .negOverflow
      else readDigits sgn lo hi acc' cs
    else .error .invalidDigit

/-- A number of `lo .. hi`: one optional sign, the minus only where `signed`, then at least one digit. -/
def readInt (signed : Bool) (lo hi : Int) : List Char → Except IntErrorKind Int
  | []        => .error .empty
  | ['+']     => .error .invalidDigit
  | ['-']     => .error .invalidDigit
  | '+' :: cs => readDigits 1 lo hi 0 cs
  | '-' :: cs => if signed then readDigits (-1) lo hi 0 cs else readDigits 1 lo hi 0 ('-' :: cs)
  | cs        => readDigits 1 lo hi 0 cs

/-! ## The digits -/

theorem isDigit_of_mem_natText {n : Nat} {c : Char} (h : c ∈ natText n) : c.isDigit = true :=
  Nat.isDigit_of_mem_toDigits (by decide) (by decide) h

theorem natText_ne_nil (n : Nat) : natText n ≠ [] := Nat.toDigits_ne_nil

theorem ofDigitChars_natText (n : Nat) : Nat.ofDigitChars 10 (natText n) 0 = n := Nat.ofDigitChars_ten_toDigits

theorem natText_injective {m n : Nat} (h : natText m = natText n) : m = n := by
  rw [← ofDigitChars_natText m, h, ofDigitChars_natText]

theorem notMem_natText {c : Char} (hc : c.isDigit = false) (n : Nat) : c ∉ natText n := fun h => by
  rw [isDigit_of_mem_natText h] at hc; cases hc

theorem le_ofDigitChars (cs : List Char) : ∀ (n : Nat), n ≤ Nat.ofDigitChars 10 cs n := by
  induction cs with
  | nil => intro n; simp
  | cons c cs ih =>
    intro n
    rw [Nat.ofDigitChars_cons]
    have := ih (10 * n + (c.toNat - '0'.toNat))
    omega

/-! ## Reading -/

section
variable (sgn : Int) {lo hi : Int} (hs : sgn = 1 ∨ sgn = -1) (hlo : lo ≤ 0) (hhi : 0 ≤ hi)
include hs hlo hhi

/-- **What reading the digits accepts**: digits only, denoting a number of the range. -/
theorem readDigits_eq_ok : ∀ (cs : List Char) (n : Nat) (v : Int), lo ≤ sgn * n → sgn * n ≤ hi →
    (readDigits sgn lo hi (sgn * n) cs = .ok v ↔
      (∀ c ∈ cs, c.isDigit = true) ∧ v = sgn * (Nat.ofDigitChars 10 cs n : Nat) ∧ lo ≤ v ∧ v ≤ hi)
  | [], n, v, h1, h2 => by
    simp only [readDigits, Except.ok.injEq, List.not_mem_nil, Nat.ofDigitChars_nil, false_implies, implies_true,
      true_and]
    constructor
    · rintro rfl; exact ⟨rfl, h1, h2⟩
    · rintro ⟨rfl, -, -⟩; rfl
  | c :: cs, n, v, h1, h2 => by
    simp only [readDigits, List.mem_cons, forall_eq_or_imp]
    by_cases hc : c.isDigit = true
    · have hacc : sgn * n * 10 + sgn * ((c.toNat - '0'.toNat : Nat) : Int)
          = sgn * ((10 * n + (c.toNat - '0'.toNat) : Nat) : Int) := by
        push_cast; rw [Int.mul_add, Int.mul_assoc, Int.mul_comm (n : Int) 10]
      simp only [hc, if_true, true_and, hacc, Nat.ofDigitChars_cons]
      have hle := le_ofDigitChars cs (10 * n + (c.toNat - '0'.toNat))
      generalize 10 * n + (c.toNat - '0'.toNat) = m at hle ⊢
      split
      · rename_i hpos
        rcases hs with rfl | rfl <;> (simp only [reduceCtorEq, false_iff]; omega)
      · split
        · rename_i hneg
          rcases hs with rfl | rfl <;> (simp only [reduceCtorEq, false_iff]; omega)
        · exact readDigits_eq_ok cs m v (by omega) (by omega)
    · simp [hc]

end

theorem readInt_of_digits {cs : List Char} (h : ∀ c ∈ cs, c.isDigit = true) (hne : cs ≠ []) (signed : Bool)
    (lo hi : Int) : readInt signed lo hi cs = readDigits 1 lo hi 0 cs := by
  unfold readInt
  split
  · exact absurd rfl hne
  · exact absurd (h '+' (by simp)) (by decide)
  · exact absurd (h '-' (by simp)) (by decide)
  · exact absurd (h '+' (by simp)) (by decide)
  · exact absurd (h '-' (by simp)) (by decide)
  · rfl

/-- **Reading a written natural number** gives it back when it is in range, and nothing else. -/
theorem readInt_natText_eq_ok {signed : Bool} {lo hi : Int} (hlo : lo ≤ 0) (hhi : 0 ≤ hi) (n : Nat) (v : Int) :
    readInt signed lo hi (natText n) = .ok v ↔ v = n ∧ (n : Int) ≤ hi := by
  rw [readInt_of_digits (fun _ => isDigit_of_mem_natText) (natText_ne_nil n)]
  have h := readDigits_eq_ok 1 (Or.inl rfl) hlo hhi (natText n) 0 v (by omega) (by omega)
  simp only [Nat.cast_zero, Int.mul_zero, Int.one_mul, ofDigitChars_natText] at h
  rw [h]
  constructor
  · rintro ⟨-, rfl, -, h2⟩; exact ⟨rfl, h2⟩
  · rintro ⟨rfl, h2⟩; exact ⟨fun _ => isDigit_of_mem_natText, rfl, by omega, h2⟩

theorem readInt_natText {signed : Bool} {lo hi : Int} (hlo : lo ≤ 0) {n : Nat} (hn : (n : Int) ≤ hi) :
    readInt signed lo hi (natText n) = .ok n :=
  (readInt_natText_eq_ok hlo (by omega) n n).2 ⟨rfl, hn⟩

theorem readInt_neg_natText {lo hi : Int} (hhi : 0 ≤ hi) {n : Nat} (hn : lo ≤ -(n : Int)) :
    readInt true lo hi ('-' :: natText n) = .ok (-n) := by
  obtain ⟨d, ds, hd⟩ := List.exists_cons_of_ne_nil (natText_ne_nil n)
  have h := (readDigits_eq_ok (-1) (Or.inr rfl) (by omega) hhi (natText n) 0 (-n) (by omega) (by omega)).2
    ⟨fun _ => isDigit_of_mem_natText, by rw [ofDigitChars_natText]; omega, hn, by omega⟩
  rw [hd] at h ⊢
  simpa [readInt] using h

/-- **Reading a written integer of the range** gives it back. -/
theorem readInt_intText {lo hi : Int} {v : Int} (h1 : lo ≤ v) (h2 : v ≤ hi) (hlo : lo ≤ 0) (hhi : 0 ≤ hi) :
    readInt true lo hi (intText v) = .ok v := by
  cases v with
  | ofNat n => exact readInt_natText hlo h2
  | negSucc n => exact readInt_neg_natText hhi h1

theorem readInt_chars {signed : Bool} {lo hi : Int} (hlo : lo ≤ 0) (hhi : 0 ≤ hi) {cs : List Char} {v : Int}
    (h : readInt signed lo hi cs = .ok v) : ∀ c ∈ cs, c.isDigit = true ∨ c = '+' ∨ c = '-' := by
  have hpos : ∀ ds, readDigits 1 lo hi 0 ds = .ok v → ∀ c ∈ ds, c.isDigit = true := fun ds hd =>
    ((readDigits_eq_ok 1 (Or.inl rfl) hlo hhi ds 0 v (by omega) (by omega)).1 (by simpa using hd)).1
  have hneg : ∀ ds, readDigits (-1) lo hi 0 ds = .ok v → ∀ c ∈ ds, c.isDigit = true := fun ds hd =>
    ((readDigits_eq_ok (-1) (Or.inr rfl) hlo hhi ds 0 v (by omega) (by omega)).1 (by simpa using hd)).1
  intro c hc
  unfold readInt at h
  split at h
  · cases h
  · cases h
  · cases h
  · rcases List.mem_cons.1 hc with rfl | hc
    · exact Or.inr (Or.inl rfl)
    · exact Or.inl (hpos _ h c hc)
  · rcases List.mem_cons.1 hc with rfl | hc
    · exact Or.inr (Or.inr rfl)
    · split at h
      · exact Or.inl (hneg _ h c hc)
      · exact Or.inl (hpos _ h c (List.mem_cons_of_mem _ hc))
  · exact Or.inl (hpos _ h c hc)

theorem readInt_range {signed : Bool} {lo hi : Int} (hlo : lo ≤ 0) (hhi : 0 ≤ hi) {cs : List Char} {v : Int}
    (h : readInt signed lo hi cs = .ok v) : lo ≤ v ∧ v ≤ hi := by
  have hpos : ∀ ds, readDigits 1 lo hi 0 ds = .ok v → lo ≤ v ∧ v ≤ hi := fun ds hd =>
    ((readDigits_eq_ok 1 (Or.inl rfl) hlo hhi ds 0 v (by omega) (by omega)).1 (by simpa using hd)).2.2
  have hneg : ∀ ds, readDigits (-1) lo hi 0 ds = .ok v → lo ≤ v ∧ v ≤ hi := fun ds hd =>
    ((readDigits_eq_ok (-1) (Or.inr rfl) hlo hhi ds 0 v (by omega) (by omega)).1 (by simpa using hd)).2.2
  unfold readInt at h
  split at h
  · cases h
  · cases h
  · cases h
  · exact hpos _ h
  · split at h
    · exact hneg _ h
    · exact hpos _ h
  · exact hpos _ h

end Decimal
