import Mathlib.Algebra.Ring.Nat
import Mathlib.Data.List.Basic
/-!
# Utf8: text as characters, its bytes, and the lossy way back

A text is a list of characters.  `byteLen` is the length of its encoding, `splitAt` cuts it at a byte index and has
no result outside the text or inside a character.  `decodeLossy` reads any bytes: each maximal ill-formed piece
becomes one replacement character, and what was encoded comes back unchanged (`decodeLossy_encode`).
-/
namespace Utf8

def byteLen : List Char → Nat
  | []     => 0
  | c :: s => c.utf8Size + byteLen s

def encode (s : List Char) : List UInt8 := s.flatMap String.utf8EncodeChar

@[simp] theorem byteLen_nil : byteLen [] = 0 := rfl
@[simp] theorem byteLen_cons (c : Char) (s : List Char) : byteLen (c :: s) = c.utf8Size + byteLen s := rfl

@[simp] theorem byteLen_append (s t : List Char) : byteLen (s ++ t) = byteLen s + byteLen t := by
  induction s with
  | nil => simp
  | cons c s ih => rw [List.cons_append, byteLen_cons, byteLen_cons, ih, Nat.add_assoc]

@[simp] theorem encode_nil : encode [] = [] := rfl
theorem encode_append (s t : List Char) : encode (s ++ t) = encode s ++ encode t := by simp [encode]

theorem encode_flatten (ss : List (List Char)) : encode ss.flatten = (ss.map encode).flatten := by
  induction ss with
  | nil => rfl
  | cons s ss ih => rw [List.flatten_cons, encode_append, ih, List.map_cons, List.flatten_cons]

theorem length_encode (s : List Char) : (encode s).length = byteLen s := by
  induction s with
  | nil => rfl
  | cons c s ih =>
    rw [show c :: s = [c] ++ s from rfl, encode_append, List.length_append, ih, byteLen_append]
    simp [encode]

theorem byteLen_eq_zero {s : List Char} : byteLen s = 0 ↔ s = [] := by
  cases s with
  | nil => simp
  | cons c s =>
    have := Char.utf8Size_pos c
    simp only [byteLen_cons, reduceCtorEq, iff_false]; omega

theorem byteLen_le_of_prefix {s t : List Char} (h : s <+: t) : byteLen s ≤ byteLen t := by
  obtain ⟨u, rfl⟩ := h
  rw [byteLen_append]
  exact Nat.le_add_right _ _

theorem byteLen_flatten (ss : List (List Char)) : byteLen ss.flatten = (ss.map byteLen).sum := by
  induction ss with
  | nil => rfl
  | cons s ss ih => rw [List.flatten_cons, byteLen_append, ih, List.map_cons, List.sum_cons]

theorem byteLen_le_sum {s : List Char} {ss : List (List Char)} (h : s ∈ ss) : byteLen s ≤ (ss.map byteLen).sum := by
  obtain ⟨pre, post, rfl⟩ := List.append_of_mem h
  rw [← byteLen_flatten, List.flatten_append, List.flatten_cons, byteLen_append, byteLen_append]
  omega

theorem byteLen_of_ascii : ∀ (s : List Char), (∀ c ∈ s, c.utf8Size = 1) → byteLen s = s.length
  | [], _ => rfl
  | c :: s, h => by
    rw [byteLen_cons, h c (by simp), byteLen_of_ascii s (fun d hd => h d (by simp [hd])), List.length_cons,
      Nat.add_comm]

theorem length_le_byteLen : ∀ (s : List Char), s.length ≤ byteLen s
  | []     => Nat.le_refl _
  | c :: s => by
    have := length_le_byteLen s; have := Char.utf8Size_pos c
    rw [List.length_cons, byteLen_cons]; omega

/-! ## Cutting at a byte index -/

/-- The text before and after byte `n`, where `n` is a character boundary of the text. -/
def splitAt : Nat → List Char → Option (List Char × List Char)
  | 0,     s      => some ([], s)
  | _ + 1, []     => none
  | n + 1, c :: s =>
    if c.utf8Size ≤ n + 1 then (splitAt (n + 1 - c.utf8Size) s).map (fun p => (c :: p.1, p.2)) else none

theorem splitAt_zero (s : List Char) : splitAt 0 s = some ([], s) := by cases s <;> rfl

theorem splitAt_append (t : List Char) : ∀ (l : List Char), splitAt (byteLen l) (l ++ t) = some (l, t)
  | []     => splitAt_zero t
  | c :: l => by
    obtain ⟨m, hm⟩ : ∃ m, byteLen (c :: l) = m + 1 :=
      ⟨byteLen (c :: l) - 1, by have := Char.utf8Size_pos c; rw [byteLen_cons]; omega⟩
    rw [byteLen_cons] at hm
    have hl : m + 1 - c.utf8Size = byteLen l := by omega
    rw [byteLen_cons, hm, List.cons_append, splitAt, if_pos (by omega), hl, splitAt_append t l]
    rfl

/-- **A cut at byte `n` is a cut of the text after `n` bytes.** -/
theorem splitAt_eq_some : ∀ (n : Nat) (s l t : List Char), splitAt n s = some (l, t) ↔ s = l ++ t ∧ byteLen l = n
  | 0, s, l, t => by
    rw [splitAt_zero, byteLen_eq_zero]
    constructor
    · intro h; cases h; exact ⟨rfl, rfl⟩
    · rintro ⟨hs, hl⟩; rw [hs, hl]; rfl
  | n + 1, [], l, t => by
    simp only [splitAt, reduceCtorEq, false_iff, not_and, List.nil_eq, List.append_eq_nil_iff]
    rintro ⟨hl, -⟩
    simp [hl]
  | n + 1, c :: s, l, t => by
    constructor
    · intro h
      rw [splitAt] at h
      split at h
      · rename_i hc
        obtain ⟨⟨l', t'⟩, hp, he⟩ := Option.map_eq_some_iff.1 h
        cases he
        obtain ⟨rfl, hl⟩ := (splitAt_eq_some _ s l' t').1 hp
        refine ⟨rfl, ?_⟩
        show byteLen (c :: l') = n + 1
        rw [byteLen_cons]; omega
      · cases h
    · rintro ⟨hs, hl⟩
      rw [hs, ← hl]; exact splitAt_append t l

/-! ## Reading bytes -/

def replacement : Char := Char.ofNat 0xFFFD

/-- A character begun: how many continuation bytes are owed, what the next one may be, the bits so far. -/
structure Pending where
  need : Nat
  lo   : Nat
  hi   : Nat
  acc  : Nat
  deriving DecidableEq, Repr

def lead (b : Nat) : Option Pending :=
  if 0xC2 ≤ b ∧ b ≤ 0xDF then some ⟨1, 0x80, 0xBF, b - 0xC0⟩
  else if b = 0xE0 then some ⟨2, 0xA0, 0xBF, 0⟩
  else if b = 0xED then some ⟨2, 0x80, 0x9F, 0xD⟩
  else if 0xE1 ≤ b ∧ b ≤ 0xEF then some ⟨2, 0x80, 0xBF, b - 0xE0⟩
  else if b = 0xF0 then some ⟨3, 0x90, 0xBF, 0⟩
  else if b = 0xF4 then some ⟨3, 0x80, 0x8F, 4⟩
  else if 0xF1 ≤ b ∧ b ≤ 0xF3 then some ⟨3, 0x80, 0xBF, b - 0xF0⟩
  else none

def startByte (b : UInt8) : List Char × Option Pending :=
  if b.toNat < 0x80 then ([Char.ofNat b.toNat], none)
  else match lead b.toNat with
    | some p => ([], some p)
    | none   => ([replacement], none)

/-- One byte.  A byte that cannot continue the character begun ends it with a replacement and is read afresh. -/
def stepByte : Option Pending → UInt8 → List Char × Option Pending
  | none,   b => startByte b
  | some p, b =>
    if p.lo ≤ b.toNat ∧ b.toNat ≤ p.hi then
      let acc := p.acc * 64 + (b.toNat - 0x80)
      if p.need = 1 then ([Char.ofNat acc], none) else ([], some ⟨p.need - 1, 0x80, 0xBF, acc⟩)
    else (replacement :: (startByte b).1, (startByte b).2)

def decodeFrom : Option Pending → List UInt8 → List Char
  | none,   []      => []
  | some _, []      => [replacement]
  | q,      b :: bs => (stepByte q b).1 ++ decodeFrom (stepByte q b).2 bs

def decodeLossy (bs : List UInt8) : List Char := decodeFrom none bs

theorem decodeFrom_cons (q : Option Pending) (b : UInt8) (bs : List UInt8) :
    decodeFrom q (b :: bs) = (stepByte q b).1 ++ decodeFrom (stepByte q b).2 bs := by cases q <;> rfl

theorem decodeFrom_ascii {n : Nat} (hn : n < 0x80) (bs : List UInt8) :
    decodeFrom none (UInt8.ofNat n :: bs) = Char.ofNat n :: decodeFrom none bs := by
  have h : (UInt8.ofNat n).toNat = n := by rw [UInt8.toNat_ofNat']; omega
  rw [decodeFrom_cons, stepByte, startByte, h, if_pos hn]
  rfl

theorem decodeFrom_lead {n : Nat} (hn : n < 256) (h80 : 0x80 ≤ n) {p : Pending} (hp : lead n = some p)
    (bs : List UInt8) : decodeFrom none (UInt8.ofNat n :: bs) = decodeFrom (some p) bs := by
  have h : (UInt8.ofNat n).toNat = n := by rw [UInt8.toNat_ofNat']; omega
  rw [decodeFrom_cons, stepByte, startByte, h, if_neg (by omega), hp]
  rfl

theorem decodeFrom_more {n lo hi acc x : Nat} (hx : x < 64) (hlo : lo ≤ x + 128) (hhi : x + 128 ≤ hi)
    (bs : List UInt8) : decodeFrom (some ⟨n + 2, lo, hi, acc⟩) (UInt8.ofNat (x + 128) :: bs) =
      decodeFrom (some ⟨n + 1, 0x80, 0xBF, acc * 64 + x⟩) bs := by
  have h : (UInt8.ofNat (x + 128)).toNat = x + 128 := by rw [UInt8.toNat_ofNat']; omega
  rw [decodeFrom_cons, stepByte, h, if_pos ⟨hlo, hhi⟩]
  simp

theorem decodeFrom_last {lo hi acc x : Nat} (hx : x < 64) (hlo : lo ≤ x + 128) (hhi : x + 128 ≤ hi)
    (bs : List UInt8) : decodeFrom (some ⟨1, lo, hi, acc⟩) (UInt8.ofNat (x + 128) :: bs) =
      Char.ofNat (acc * 64 + x) :: decodeFrom none bs := by
  have h : (UInt8.ofNat (x + 128)).toNat = x + 128 := by rw [UInt8.toNat_ofNat']; omega
  rw [decodeFrom_cons, stepByte, h, if_pos ⟨hlo, hhi⟩]
  simp

theorem lead_two {q : Nat} (h2 : 2 ≤ q) (hq : q < 32) : lead (q + 192) = some ⟨1, 0x80, 0xBF, q⟩ := by
  unfold lead
  rw [if_pos (by omega), Nat.add_sub_cancel]

theorem lead_three {q x : Nat} (hq : q < 16) (hx : x < 64) (h0 : q = 0 → 32 ≤ x) (h13 : q = 13 → x < 32) :
    ∃ lo hi, lead (q + 224) = some ⟨2, lo, hi, q⟩ ∧ lo ≤ x + 128 ∧ x + 128 ≤ hi := by
  unfold lead
  rw [if_neg (by omega)]
  by_cases hq0 : q = 0
  · have := h0 hq0
    exact ⟨0xA0, 0xBF, by subst hq0; rfl, by omega, by omega⟩
  by_cases hq13 : q = 13
  · have := h13 hq13
    exact ⟨0x80, 0x9F, by subst hq13; rfl, by omega, by omega⟩
  · refine ⟨0x80, 0xBF, ?_, by omega, by omega⟩
    rw [if_neg (by omega), if_neg (by omega), if_pos (by omega), Nat.add_sub_cancel]

theorem lead_four {q x : Nat} (hq : q < 5) (hx : x < 64) (h0 : q = 0 → 16 ≤ x) (h4 : q = 4 → x < 16) :
    ∃ lo hi, lead (q + 240) = some ⟨3, lo, hi, q⟩ ∧ lo ≤ x + 128 ∧ x + 128 ≤ hi := by
  unfold lead
  rw [if_neg (by omega), if_neg (by omega), if_neg (by omega), if_neg (by omega)]
  by_cases hq0 : q = 0
  · have := h0 hq0
    exact ⟨0x90, 0xBF, by subst hq0; rfl, by omega, by omega⟩
  by_cases hq4 : q = 4
  · have := h4 hq4
    exact ⟨0x80, 0x8F, by subst hq4; rfl, by omega, by omega⟩
  · refine ⟨0x80, 0xBF, ?_, by omega, by omega⟩
    rw [if_neg (by omega), if_neg (by omega), if_pos (by omega), Nat.add_sub_cancel]

/-- **An encoded character is read back**, between characters. -/
theorem decodeFrom_encodeChar (c : Char) (bs : List UInt8) :
    decodeFrom none (String.utf8EncodeChar c ++ bs) = c :: decodeFrom none bs := by
  have hv : c.val.toNat < 0xD800 ∨ 0xDFFF < c.val.toNat ∧ c.val.toNat < 0x110000 := c.valid
  have hc : Char.ofNat c.val.toNat = c := Char.ofNat_toNat c
  unfold String.utf8EncodeChar
  generalize c.val.toNat = v at hv hc
  subst hc
  simp only
  split
  · exact decodeFrom_ascii (by omega) bs
  split
  · rw [List.cons_append, List.cons_append, List.nil_append,
      decodeFrom_lead (by omega) (by omega) (lead_two (by omega) (by omega)),
      decodeFrom_last (by omega) (by omega) (by omega), show v / 64 % 32 * 64 + v % 64 = v by omega]
  split
  · obtain ⟨lo, hi, hl, hlo, hhi⟩ := lead_three (q := v / 4096 % 16) (x := v / 64 % 64) (by omega) (by omega)
      (by omega) (by omega)
    rw [List.cons_append, List.cons_append, List.cons_append, List.nil_append,
      decodeFrom_lead (by omega) (by omega) hl, decodeFrom_more (n := 0) (by omega) hlo hhi,
      decodeFrom_last (by omega) (by omega) (by omega),
      show (v / 4096 % 16 * 64 + v / 64 % 64) * 64 + v % 64 = v by omega]
  · obtain ⟨lo, hi, hl, hlo, hhi⟩ := lead_four (q := v / 262144 % 8) (x := v / 4096 % 64) (by omega) (by omega)
      (by omega) (by omega)
    rw [List.cons_append, List.cons_append, List.cons_append, List.cons_append, List.nil_append,
      decodeFrom_lead (by omega) (by omega) hl, decodeFrom_more (n := 1) (by omega) hlo hhi,
      decodeFrom_more (n := 0) (by omega) (by omega) (by omega), decodeFrom_last (by omega) (by omega) (by omega),
      show ((v / 262144 % 8 * 64 + v / 4096 % 64) * 64 + v / 64 % 64) * 64 + v % 64 = v by omega]

/-- **Encoded text is read back unchanged.** -/
theorem decodeLossy_encode (s : List Char) : decodeLossy (encode s) = s := by
  induction s with
  | nil => rfl
  | cons c s ih =>
    rw [show c :: s = [c] ++ s from rfl, encode_append]
    simp only [decodeLossy, encode, List.flatMap_cons, List.flatMap_nil, List.append_nil] at ih ⊢
    rw [decodeFrom_encodeChar, ih]
    rfl

theorem lead_lo {b : Nat} {p : Pending} (h : lead b = some p) : 0x80 ≤ p.lo := by
  unfold lead at h
  split_ifs at h <;> cases h <;> simp

theorem startByte_lo (b : UInt8) : ∀ p ∈ (startByte b).2, 0x80 ≤ p.lo := by
  intro p hp
  unfold startByte at hp
  split at hp
  · cases hp
  split at hp
  · rename_i q hq
    obtain rfl := Option.some.inj hp
    exact lead_lo hq
  · cases hp

theorem stepByte_lo : ∀ (q : Option Pending) (b : UInt8), ∀ p ∈ (stepByte q b).2, 0x80 ≤ p.lo
  | none, b => startByte_lo b
  | some q, b => by
    intro p hp
    rw [stepByte] at hp
    split at hp
    · simp only at hp
      split at hp
      · cases hp
      · obtain rfl := Option.some.inj hp
        exact Nat.le_refl _
    · exact startByte_lo b p hp

/-- **ASCII bytes are read as themselves after any bytes.** -/
theorem decodeFrom_append_ascii {n : Nat} (hn : n < 0x80) (rest : List UInt8) : ∀ (bs : List UInt8)
    (q : Option Pending), (∀ p ∈ q, 0x80 ≤ p.lo) →
      ∃ t, decodeFrom q (bs ++ UInt8.ofNat n :: rest) = t ++ Char.ofNat n :: decodeFrom none rest
  | [], none, _ => ⟨[], decodeFrom_ascii hn rest⟩
  | [], some p, h => by
    have hlo := h p rfl
    have hb : (UInt8.ofNat n).toNat = n := by rw [UInt8.toNat_ofNat']; omega
    refine ⟨[replacement], ?_⟩
    rw [List.nil_append, decodeFrom_cons, stepByte, hb, if_neg (by omega), startByte, hb, if_pos hn]
    rfl
  | b :: bs, q, _ => by
    obtain ⟨t, ht⟩ := decodeFrom_append_ascii hn rest bs _ (stepByte_lo q b)
    refine ⟨(stepByte q b).1 ++ t, ?_⟩
    rw [List.cons_append, decodeFrom_cons, ht, List.append_assoc]

/-! ## ASCII -/

def Ascii (s : List Char) : Prop := ∀ c ∈ s, c.toNat < 128

theorem utf8Size_eq_one_iff (c : Char) : c.utf8Size = 1 ↔ c.toNat < 128 := by
  rw [Char.utf8Size_eq_one_iff, UInt32.le_iff_toNat_le]
  exact Nat.lt_succ_iff.symm

theorem ascii_of_byteLen : ∀ (s : List Char), byteLen s = s.length → Ascii s
  | [], _ => nofun
  | c :: s, h => by
    rw [byteLen_cons, List.length_cons] at h
    have hc := Char.utf8Size_pos c
    have hs := length_le_byteLen s
    unfold Ascii
    rw [List.forall_mem_cons]
    exact ⟨(utf8Size_eq_one_iff c).1 (by omega), ascii_of_byteLen s (by omega)⟩

theorem utf8EncodeChar_ascii {c : Char} (h : c.toNat < 128) : String.utf8EncodeChar c = [UInt8.ofNat c.toNat] := by
  unfold String.utf8EncodeChar
  exact if_pos (Nat.le_of_lt_succ h)

theorem encode_ascii : ∀ {s : List Char}, Ascii s → (encode s).map UInt8.toNat = s.map Char.toNat
  | [], _ => rfl
  | c :: s, h => by
    unfold Ascii at h
    rw [List.forall_mem_cons] at h
    have hc : (UInt8.ofNat c.toNat).toNat = c.toNat := by
      rw [UInt8.toNat_ofNat']
      omega
    rw [encode, List.flatMap_cons, utf8EncodeChar_ascii h.1, List.singleton_append, List.map_cons, hc, List.map_cons]
    exact congrArg _ (encode_ascii h.2)

/-- **A text is its bytes, each a character, exactly when it is ASCII.** -/
theorem encode_eq_iff (s : List Char) : (encode s).map UInt8.toNat = s.map Char.toNat ↔ Ascii s := by
  refine ⟨fun h => ascii_of_byteLen s ?_, encode_ascii⟩
  have hlen := congrArg List.length h
  rwa [List.length_map, List.length_map, length_encode] at hlen

/-! ## Bytes without a replacement -/

theorem length_startByte_le (b : UInt8) : (startByte b).1.length ≤ 1 := by
  unfold startByte
  split
  · exact Nat.le_refl _
  · split <;> simp

theorem length_stepByte_le : ∀ (q : Option Pending) (b : UInt8), replacement ∉ (stepByte q b).1 →
    (stepByte q b).1.length ≤ 1
  | none, b, _ => length_startByte_le b
  | some p, b, h => by
    rw [stepByte] at h ⊢
    by_cases hrange : p.lo ≤ b.toNat ∧ b.toNat ≤ p.hi
    · rw [if_pos hrange]
      by_cases hneed : p.need = 1
      · rw [if_pos hneed]; exact Nat.le_refl _
      · rw [if_neg hneed]; exact Nat.zero_le _
    · rw [if_neg hrange] at h
      exact absurd List.mem_cons_self h

theorem length_decodeFrom_le : ∀ (bs : List UInt8) (q : Option Pending), replacement ∉ decodeFrom q bs →
    (decodeFrom q bs).length ≤ bs.length
  | [], none, _ => Nat.le_refl _
  | [], some _, h => absurd List.mem_cons_self h
  | b :: bs, q, h => by
    rw [decodeFrom_cons, List.mem_append, not_or] at h
    have ih := length_decodeFrom_le bs _ h.2
    have hstep := length_stepByte_le q b h.1
    rw [decodeFrom_cons, List.length_append, List.length_cons]
    omega

/-- **A text of as many characters as bytes, none of them replaced, is ASCII.** -/
theorem ascii_of_length_decodeFrom : ∀ (bs : List UInt8), replacement ∉ decodeFrom none bs →
    (decodeFrom none bs).length = bs.length → ∀ b ∈ bs, b.toNat < 128
  | [], _, _ => nofun
  | b :: bs, h, hlen => by
    rw [decodeFrom_cons, List.mem_append, not_or] at h
    rw [decodeFrom_cons, List.length_append, List.length_cons] at hlen
    unfold stepByte startByte at h hlen
    by_cases hb : b.toNat < 0x80
    · simp only [if_pos hb, List.length_singleton] at h hlen
      rw [List.forall_mem_cons]
      exact ⟨hb, ascii_of_length_decodeFrom bs h.2 (by omega)⟩
    · simp only [if_neg hb] at h hlen
      cases hlead : lead b.toNat with
      | none =>
        rw [hlead] at h
        exact absurd List.mem_cons_self h.1
      | some p =>
        -- the byte gives nothing by itself, so the others would have to give one character more than they are
        simp only [hlead, List.length_nil] at hlen h
        have := length_decodeFrom_le bs (some p) h.2
        omega

example : decodeLossy [0x61, 0xF0, 0x9F, 0x98, 0x62] = ['a', replacement, 'b'] := by decide

end Utf8
