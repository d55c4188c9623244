import Mathlib.Data.List.Forall2
import Mathlib.Data.Nat.Digits.Defs
/-!
# Scanner: readers that take from the front of their input

A scanner reads some symbols and leaves the rest, or fails.  `Reads p s a` says that `p` reads exactly `s`, whatever
follows, and gives `a`; it composes along binds and repetitions.  `Takes p R` says the converse: whatever `p` accepts
begins with something `R` says of its result.  What costs a scanner some
symbols (`Costs`) `Shortens` its input, so it may be looped.
-/

abbrev Scanner (β ε α : Type) := StateT (List β) (Except ε) α

namespace Scanner

variable {β ε α γ : Type}

def next (e : ε) : Scanner β ε β := fun s =>
  match s with
  | []     => .error e
  | b :: s => .ok (b, s)

def peek (e : ε) : Scanner β ε β := fun s =>
  match s with
  | []     => .error e
  | b :: s => .ok (b, b :: s)

/-- The next symbol dropped, when there is one. -/
def skip : Scanner β ε Unit := fun s => .ok ((), s.tail)

def times (p : Scanner β ε α) : Nat → Scanner β ε (List α)
  | 0     => pure []
  | n + 1 => do
    let a ← p
    let as ← times p n
    return a :: as

theorem bind_eq_ok {p : Scanner β ε α} {f : α → Scanner β ε γ} {s t : List β} {c : γ} :
    (p >>= f) s = .ok (c, t) ↔ ∃ a u, p s = .ok (a, u) ∧ f a u = .ok (c, t) := by
  change (p s >>= fun x => f x.1 x.2) = .ok (c, t) ↔ _
  cases p s with
  | error e => exact ⟨nofun, fun ⟨_, _, h, _⟩ => by cases h⟩
  | ok x => exact ⟨fun h => ⟨x.1, x.2, rfl, h⟩, fun ⟨_, _, h, h'⟩ => by cases h; exact h'⟩

/-! ## Reading exactly -/

def Reads (p : Scanner β ε α) (s : List β) (a : α) : Prop := ∀ rest, p (s ++ rest) = .ok (a, rest)

theorem reads_pure (a : α) : Reads (pure a : Scanner β ε α) [] a := fun _ => rfl

theorem reads_next (e : ε) (b : β) : Reads (next e) [b] b := fun _ => rfl

theorem reads_skip (b : β) : Reads (skip : Scanner β ε Unit) [b] () := fun _ => rfl

/-- **What reads one part and then the other reads both.** -/
theorem Reads.bind {p : Scanner β ε α} {f : α → Scanner β ε γ} {s t : List β} {a : α} {c : γ} (hp : Reads p s a)
    (hf : Reads (f a) t c) : Reads (p >>= f) (s ++ t) c := by
  intro rest
  rw [List.append_assoc]
  exact bind_eq_ok.2 ⟨a, t ++ rest, hp _, hf rest⟩

theorem Reads.bind_pure {p : Scanner β ε α} {f : α → γ} {s : List β} {a : α} (hp : Reads p s a) :
    Reads (p >>= fun a => pure (f a)) s (f a) := by
  have h := hp.bind (f := fun a => pure (f a)) (reads_pure (f a))
  rwa [List.append_nil] at h

theorem Reads.next_bind {e : ε} {f : β → Scanner β ε γ} {b : β} {t : List β} {c : γ} (hf : Reads (f b) t c) :
    Reads (next e >>= f) (b :: t) c := (reads_next e b).bind hf

theorem Reads.skip_bind {f : Unit → Scanner β ε γ} {b : β} {t : List β} {c : γ} (hf : Reads (f ()) t c) :
    Reads (skip >>= f) (b :: t) c := (reads_skip b).bind hf

theorem Reads.peek_bind {e : ε} {f : β → Scanner β ε γ} {b : β} {t : List β} {c : γ} (hf : Reads (f b) (b :: t) c) :
    Reads (peek e >>= f) (b :: t) c := fun rest => bind_eq_ok.2 ⟨b, b :: t ++ rest, rfl, hf rest⟩

/-- **As many readings as there are pieces.** -/
theorem Reads.times {p : Scanner β ε α} : ∀ {pieces : List (List β)} {as : List α}, List.Forall₂ (Reads p) pieces as →
    Reads (times p as.length) pieces.flatten as
  | [], [], .nil => reads_pure []
  | _ :: _, _ :: _, .cons h hs => h.bind (Reads.times hs).bind_pure

theorem reads_times_next (e : ε) : ∀ (bs : List β), Reads (times (next e) bs.length) bs bs
  | []      => reads_pure []
  | _ :: bs => Reads.next_bind (reads_times_next e bs).bind_pure

/-! ## What is taken -/

def Takes (p : Scanner β ε α) (R : List β → α → Prop) : Prop :=
  ∀ s a t, p s = .ok (a, t) → ∃ u, s = u ++ t ∧ R u a

section
variable {p : Scanner β ε α} {f : α → Scanner β ε γ} {Q : List β → α → Prop} {R : List β → γ → Prop}

theorem Takes.imp {Q' : List β → α → Prop} (hp : Takes p Q) (h : ∀ u a, Q u a → Q' u a) : Takes p Q' := by
  intro s a t hs
  obtain ⟨u, hu, hQ⟩ := hp s a t hs
  exact ⟨u, hu, h u a hQ⟩

theorem takes_pure {c : γ} (h : R [] c) : Takes (pure c : Scanner β ε γ) R := by
  intro s a t hs
  cases hs
  exact ⟨[], rfl, h⟩

theorem takes_throw (e : ε) : Takes (throw e : Scanner β ε γ) R := nofun

/-- **What takes one part and then the other takes both.** -/
theorem Takes.bind (hp : Takes p Q) (hf : ∀ u a, Q u a → Takes (f a) (fun v c => R (u ++ v) c)) :
    Takes (p >>= f) R := by
  intro s c t h
  obtain ⟨a, r, ha, hc⟩ := bind_eq_ok.1 h
  obtain ⟨u, rfl, hQ⟩ := hp s a r ha
  obtain ⟨v, rfl, hR⟩ := hf u a hQ r c t hc
  exact ⟨u ++ v, (List.append_assoc u v t).symm, hR⟩

theorem Takes.bind_pure {g : α → γ} (hp : Takes p (fun u a => R u (g a))) : Takes (p >>= fun a => pure (g a)) R :=
  hp.bind (fun u _ h => takes_pure (by rwa [List.append_nil]))

theorem takes_ite {P : Prop} [Decidable P] {p q : Scanner β ε γ} (hp : P → Takes p R) (hq : ¬ P → Takes q R) :
    Takes (if P then p else q) R := by
  split
  · rename_i h
    exact hp h
  · rename_i h
    exact hq h

end

section
variable {e : ε} {f : β → Scanner β ε γ} {R : List β → γ → Prop}

theorem takes_next (e : ε) : Takes (next e) (fun u (b : β) => u = [b])
  | [], _, _, h => by cases h
  | b :: _, _, _, h => by cases h; exact ⟨[b], rfl, rfl⟩

theorem Takes.next_bind (hf : ∀ b, Takes (f b) (fun v c => R (b :: v) c)) : Takes (next e >>= f) R :=
  (takes_next e).bind (fun u b hu => by rw [hu]; exact hf b)

/-- A peek costs nothing: what is read after it has to take the symbol seen. -/
theorem Takes.peek_bind (hf : ∀ b, Takes (f b) (fun u c => u ≠ [] ∧ ∀ v, u = b :: v → R u c)) :
    Takes (peek e >>= f) R := by
  intro s c t h
  obtain ⟨b, s', hb, hc⟩ := bind_eq_ok.1 h
  cases s with
  | nil => cases hb
  | cons x r =>
    cases hb
    obtain ⟨u, hu, hne, hR⟩ := hf b _ c t hc
    cases u with
    | nil => exact absurd rfl hne
    | cons y u =>
      rw [List.cons_append, List.cons.injEq] at hu
      obtain ⟨rfl, rfl⟩ := hu
      exact ⟨b :: u, rfl, hR u rfl⟩

/-- A skip takes one symbol where what follows cannot do without input. -/
theorem Takes.skip_bind {f : Unit → Scanner β ε γ} (hnil : ∀ r, f () [] ≠ .ok r)
    (hf : ∀ b, Takes (f ()) (fun v c => R (b :: v) c)) : Takes (skip >>= f) R := by
  intro s c t h
  obtain ⟨_, s', hs, hc⟩ := bind_eq_ok.1 h
  cases hs
  cases s with
  | nil => exact absurd hc (hnil _)
  | cons b r =>
    obtain ⟨v, rfl, hR⟩ := hf b r c t hc
    exact ⟨b :: v, rfl, hR⟩

end

/-- **Repetitions take as many pieces.** -/
theorem Takes.times {p : Scanner β ε α} {R : List β → α → Prop} (hp : Takes p R) : ∀ (n : Nat),
    Takes (times p n) (fun u as => as.length = n ∧ ∃ us, u = us.flatten ∧ List.Forall₂ R us as)
  | 0     => takes_pure ⟨rfl, [], rfl, .nil⟩
  | n + 1 => hp.bind (fun u a ha => ((Takes.times hp n).imp (fun v as has => by
      obtain ⟨rfl, us, rfl, hus⟩ := has
      exact ⟨rfl, u :: us, rfl, .cons ha hus⟩)).bind_pure)

theorem takes_times_next (e : ε) (n : Nat) : Takes (times (next e) n) (fun u (bs : List β) => u = bs ∧ bs.length = n) := by
  refine ((takes_next e).times n).imp (fun u bs h => ?_)
  obtain ⟨hlen, us, rfl, hus⟩ := h
  refine ⟨?_, hlen⟩
  clear hlen
  induction hus with
  | nil => rfl
  | cons hu _ ih => rw [List.flatten_cons, hu, ih, List.singleton_append]

/-! ## Shortening -/

def Shortens (p : Scanner β ε α) : Prop := ∀ s a t, p s = .ok (a, t) → t.length ≤ s.length

/-- What is read takes `k` symbols at least. -/
def Costs (k : Nat) (p : Scanner β ε α) : Prop := ∀ s a t, p s = .ok (a, t) → t.length + k ≤ s.length

theorem Costs.mono {k l : Nat} {p : Scanner β ε α} (hp : Costs l p) (h : k ≤ l) : Costs k p := by
  intro s a t hs
  have := hp s a t hs
  omega

theorem Costs.shortens {k : Nat} {p : Scanner β ε α} (hp : Costs k p) : Shortens p := by
  intro s a t hs
  have := hp s a t hs
  omega

theorem costs_pure (a : α) : Costs 0 (pure a : Scanner β ε α) := by
  intro s _ t h
  cases h
  exact Nat.le_refl _

theorem costs_throw (k : Nat) (e : ε) : Costs k (throw e : Scanner β ε α) := nofun

theorem costs_next (e : ε) : Costs 1 (next e : Scanner β ε β)
  | [], _, _, h => by cases h
  | _ :: _, _, _, h => by cases h; exact Nat.le_refl _

theorem costs_peek (e : ε) : Costs 0 (peek e : Scanner β ε β)
  | [], _, _, h => by cases h
  | _ :: _, _, _, h => by cases h; exact Nat.le_refl _

theorem costs_skip : Costs 0 (skip : Scanner β ε Unit)
  | [], _, _, h => by cases h; exact Nat.le_refl _
  | _ :: _, _, _, h => by cases h; exact Nat.le_succ _

theorem Costs.bind {k l : Nat} {p : Scanner β ε α} {f : α → Scanner β ε γ} (hp : Costs k p) (hf : ∀ a, Costs l (f a)) :
    Costs (l + k) (p >>= f) := by
  intro s c t h
  obtain ⟨a, u, hpu, hft⟩ := bind_eq_ok.1 h
  have := hp s a u hpu
  have := hf a u c t hft
  omega

theorem Costs.bind_pure {k : Nat} {p : Scanner β ε α} {f : α → γ} (hp : Costs k p) :
    Costs k (p >>= fun a => pure (f a)) := (hp.bind (fun _ => costs_pure _)).mono (by omega)

theorem Costs.times {k : Nat} {p : Scanner β ε α} (hp : Costs k p) : ∀ (n : Nat), Costs (k * n) (times p n)
  | 0     => costs_pure []
  | n + 1 => (hp.bind (fun _ => (Costs.times hp n).bind_pure)).mono (by rw [Nat.mul_succ])

theorem costs_ite {k : Nat} {P : Prop} [Decidable P] {p q : Scanner β ε α} (hp : Costs k p) (hq : Costs k q) :
    Costs k (if P then p else q) := by
  split
  · exact hp
  · exact hq

/-! ## The same reader under another error -/

/-- `q` reads what `p` reads, and fails with `f` of its error. -/
def Mirrors {δ : Type} (f : ε → δ) (q : Scanner β δ α) (p : Scanner β ε α) : Prop := ∀ s, q s = (p s).mapError f

section
variable {δ : Type} {f : ε → δ}

theorem mirrors_pure (a : α) : Mirrors f (pure a : Scanner β δ α) (pure a) := fun _ => rfl

theorem mirrors_throw (e : ε) : Mirrors f (throw (f e) : Scanner β δ α) (throw e) := fun _ => rfl

theorem mirrors_next (e : ε) : Mirrors f (next (f e) : Scanner β δ β) (next e)
  | []     => rfl
  | _ :: _ => rfl

theorem mirrors_peek (e : ε) : Mirrors f (peek (f e) : Scanner β δ β) (peek e)
  | []     => rfl
  | _ :: _ => rfl

theorem mirrors_skip : Mirrors f (skip : Scanner β δ Unit) skip := fun _ => rfl

/-- What mirrors one part, and the other where the first can lead, mirrors both. -/
theorem Mirrors.bind_of {q : Scanner β δ α} {p : Scanner β ε α} {P : α → Prop} {g : α → Scanner β δ γ}
    {h : α → Scanner β ε γ} (hp : Mirrors f q p) (hP : ∀ s a t, p s = .ok (a, t) → P a)
    (hg : ∀ a, P a → Mirrors f (g a) (h a)) : Mirrors f (q >>= g) (p >>= h) := by
  intro s
  change (q s >>= fun x => g x.1 x.2) = (p s >>= fun x => h x.1 x.2).mapError f
  rw [hp s]
  cases hps : p s with
  | error e => rfl
  | ok x => exact hg x.1 (hP s x.1 x.2 hps) x.2

/-- **What mirrors one part and then the other mirrors both.** -/
theorem Mirrors.bind {q : Scanner β δ α} {p : Scanner β ε α} {g : α → Scanner β δ γ} {h : α → Scanner β ε γ}
    (hp : Mirrors f q p) (hg : ∀ a, Mirrors f (g a) (h a)) : Mirrors f (q >>= g) (p >>= h) :=
  hp.bind_of (P := fun _ => True) (fun _ _ _ _ => trivial) (fun a _ => hg a)

theorem Mirrors.times {q : Scanner β δ α} {p : Scanner β ε α} (hp : Mirrors f q p) : ∀ (n : Nat),
    Mirrors f (times q n) (times p n)
  | 0     => mirrors_pure []
  | n + 1 => hp.bind (fun a => (Mirrors.times hp n).bind (fun as => mirrors_pure (a :: as)))

theorem mirrors_ite {P : Prop} [Decidable P] {q q' : Scanner β δ α} {p p' : Scanner β ε α} (hp : Mirrors f q p)
    (hp' : Mirrors f q' p') : Mirrors f (if P then q else q') (if P then p else p') := by
  split
  · exact hp
  · exact hp'

end

/-! ## Numbers -/

/-- The number the bytes give, the lowest first. -/
def little (bs : List UInt8) : Nat := Nat.ofDigits 256 (bs.map UInt8.toNat)

/-- The number the bytes give, the highest first. -/
def big (bs : List UInt8) : Nat := bs.foldl (fun n b => n * 256 + b.toNat) 0

/-- The lowest `k` bytes of a number, the lowest first. -/
def littleBytes : Nat → Nat → List UInt8
  | 0,     _ => []
  | k + 1, n => UInt8.ofNat n :: littleBytes k (n / 256)

theorem length_littleBytes : ∀ (k n : Nat), (littleBytes k n).length = k
  | 0,     _ => rfl
  | k + 1, n => by rw [littleBytes, List.length_cons, length_littleBytes k]

theorem little_littleBytes : ∀ (k n : Nat), n < 256 ^ k → little (littleBytes k n) = n
  | 0,     n, h => by rw [Nat.lt_one_iff.1 h]; rfl
  | k + 1, n, h => by
    have hdiv : n / 256 < 256 ^ k := Nat.div_lt_of_lt_mul (by rwa [Nat.pow_succ'] at h)
    have ih := little_littleBytes k (n / 256) hdiv
    rw [little] at ih
    rw [little, littleBytes, List.map_cons, Nat.ofDigits_cons, ih, UInt8.toNat_ofNat']
    exact Nat.mod_add_div n 256

theorem littleBytes_little : ∀ (bs : List UInt8), littleBytes bs.length (little bs) = bs
  | []      => rfl
  | b :: bs => by
    have ih := littleBytes_little bs
    have hb := b.toNat_lt
    rw [little] at ih
    rw [little, List.map_cons, Nat.ofDigits_cons, List.length_cons, littleBytes,
      show (b.toNat + 256 * Nat.ofDigits 256 (bs.map UInt8.toNat)) / 256 = Nat.ofDigits 256 (bs.map UInt8.toNat) by omega,
      ih, List.cons.injEq]
    refine ⟨UInt8.toNat_inj.1 ?_, rfl⟩
    rw [UInt8.toNat_ofNat']
    omega

theorem little_lt (bs : List UInt8) : little bs < 256 ^ bs.length := by
  have h := Nat.ofDigits_lt_base_pow_length (by decide : 1 < 256) (l := bs.map UInt8.toNat) (fun n hn => by
    obtain ⟨b, -, rfl⟩ := List.mem_map.1 hn
    exact b.toNat_lt)
  rwa [List.length_map] at h

theorem big_reverse (bs : List UInt8) : big bs.reverse = little bs := by
  rw [big, List.foldl_reverse, little]
  induction bs with
  | nil => rfl
  | cons b bs ih => rw [List.foldr_cons, ih, List.map_cons, Nat.ofDigits_cons, Nat.mul_comm, Nat.add_comm]

/-- A property of all bytes, checked number by number. -/
theorem forall_byte {P : UInt8 → Prop} (h : ∀ n < 256, P (UInt8.ofNat n)) (b : UInt8) : P b := by
  have hb := h b.toNat b.toNat_lt
  rwa [UInt8.ofNat_toNat] at hb

end Scanner
