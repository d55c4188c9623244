import Rusdis.RdbImage
/-!
# RdbContent — files with integers among their strings

Besides the raw form a string has three integer forms, and `decode_length` reads those as well.  A file of such strings
is read as its content with every integer unsigned (`ContentForm.readRdb`), so the signed ones keep their value exactly
when none of them is negative (`readRdb_ints_iff`).
-/
namespace Rusdis

open Scanner Utf8
open Decimal (natText intText)

inductive IntWidth where
  | one
  | two
  | four
  deriving DecidableEq, Repr

def IntWidth.bytes : IntWidth → Nat
  | .one  => 1
  | .two  => 2
  | .four => 4

def IntWidth.flag : IntWidth → UInt8
  | .one  => 0xC0
  | .two  => 0xC1
  | .four => 0xC2

inductive RdbString where
  | raw (s : List UInt8)
  | int (w : IntWidth) (n : BitVec (8 * w.bytes))
  deriving DecidableEq

structure RdbPair where
  key : RdbString
  value : RdbString
  expiry : Expiry

structure RdbTable where
  index : Nat
  pairs : List RdbPair

structure RdbContent where
  version : List UInt8
  aux : List (RdbString × RdbString)
  tables : List RdbTable

/-! ## What is loaded -/

/-- The text a string is read as. -/
def RdbString.read : RdbString → List Char
  | .raw s   => latin1 s
  | .int _ n => natText n.toNat

/-- The text a string stands for, its integers signed. -/
def RdbString.signed : RdbString → List Char
  | .raw s   => latin1 s
  | .int _ n => intText n.toInt

section
variable (text : RdbString → List Char)

def RdbPair.decode (p : RdbPair) : List Char × ValueType × Option SystemTime :=
  (text p.key, .string (text p.value), p.expiry.instant)

def RdbTable.decode (t : RdbTable) : Dataset := ⟨t.pairs.map (RdbPair.decode text)⟩

def RdbContent.decode (c : RdbContent) : RDBFile :=
  ⟨decodeLossy c.version, c.aux.map (fun a => (text a.1, text a.2)), c.tables.map (RdbTable.decode text)⟩

end

/-! ## How it is written -/

/-- A length, also in the form of an integer. -/
inductive RdbLength : Nat → List UInt8 → Prop
  | plain {n : Nat} {bytes : List UInt8} (h : LengthForm n bytes) : RdbLength n bytes
  | int (w : IntWidth) (n : BitVec (8 * w.bytes)) : RdbLength n.toNat (w.flag :: littleBytes w.bytes n.toNat)

/-- A string: raw, or an integer in little-endian two's complement. -/
inductive StringForm : RdbString → List UInt8 → Prop
  | raw {s len : List UInt8} (h : LengthForm s.length len) : StringForm (.raw s) (len ++ s)
  | int (w : IntWidth) (n : BitVec (8 * w.bytes)) : StringForm (.int w n) (w.flag :: littleBytes w.bytes n.toNat)

inductive PairForm : RdbPair → List UInt8 → Prop
  | mk {p : RdbPair} {k v : List UInt8} (hk : StringForm p.key k) (hv : StringForm p.value v) :
      PairForm p (p.expiry.bytes ++ 0x00 :: (k ++ v))

inductive FieldForm : RdbString × RdbString → List UInt8 → Prop
  | mk {a : RdbString × RdbString} {k v : List UInt8} (hk : StringForm a.1 k) (hv : StringForm a.2 v) :
      FieldForm a (0xfa :: (k ++ v))

/-- A database with `mark` in front of its sizes, the larger of which is the number of its pairs. -/
inductive TableForm (mark : UInt8) : RdbTable → List UInt8 → Prop
  | mk {t : RdbTable} {index n m : List UInt8} {size expirySize : Nat} {pairs : List (List UInt8)}
      (hindex : RdbLength t.index index) (hn : RdbLength size n) (hm : RdbLength expirySize m)
      (hmax : max size expirySize = t.pairs.length) (hpairs : List.Forall₂ PairForm t.pairs pairs) :
      TableForm mark t (0xfe :: (index ++ mark :: (n ++ (m ++ pairs.flatten))))

/-- The bytes of a content, its databases in a form of `Table`, up to its end flag. -/
inductive ContentForm (Table : RdbTable → List UInt8 → Prop) : RdbContent → List UInt8 → Prop
  | mk {c : RdbContent} {auxs dbs : List (List UInt8)} (hversion : c.version.length = 4)
      (haux : List.Forall₂ FieldForm c.aux auxs) (hdbs : List.Forall₂ Table c.tables dbs) :
      ContentForm Table c (encode "REDIS".toList ++ c.version ++ auxs.flatten ++ dbs.flatten ++ [0xff])

/-! ## Reading -/

theorem reads_decodeLength_int (w : IntWidth) (n : BitVec (8 * w.bytes)) :
    Reads decodeLength (w.flag :: littleBytes w.bytes n.toNat) n.toNat := by
  have hn : n.toNat < 256 ^ w.bytes := by
    have := n.isLt
    rwa [Nat.pow_mul] at this
  have hbytes := reads_times_next lengthFailed (littleBytes w.bytes n.toNat)
  rw [length_littleBytes] at hbytes
  have hlittle := hbytes.bind_pure (f := little)
  rw [little_littleBytes w.bytes n.toNat hn] at hlittle
  refine Reads.next_bind ?_
  cases w with
  | one =>
    rw [if_pos (by decide), if_pos (by decide)]
    have hbyte : (UInt8.ofNat n.toNat).toNat = n.toNat := by
      rw [UInt8.toNat_ofNat']
      exact Nat.mod_eq_of_lt n.isLt
    have hone := (reads_next lengthFailed (UInt8.ofNat n.toNat)).bind_pure (f := UInt8.toNat)
    rwa [hbyte] at hone
  | two =>
    rw [if_pos (by decide), if_neg (by decide), if_pos (by decide)]
    exact hlittle
  | four =>
    rw [if_pos (by decide), if_neg (by decide), if_neg (by decide), if_pos (by decide)]
    exact hlittle

theorem RdbLength.reads {n : Nat} {bytes : List UInt8} (h : RdbLength n bytes) : Reads decodeLength bytes n := by
  cases h with
  | plain h => exact reads_decodeLength h
  | int w n => exact reads_decodeLength_int w n

theorem IntWidth.flag_mask (w : IntWidth) : w.flag &&& 0xC0 = 0xC0 := by cases w <;> rfl

theorem StringForm.reads {s : RdbString} {bytes : List UInt8} (h : StringForm s bytes) :
    Reads decodeString bytes s.read := by
  cases h with
  | raw h => exact reads_decodeString (.mk h)
  | int w n =>
    refine Reads.peek_bind ?_
    rw [if_pos w.flag_mask]
    exact (reads_decodeLength_int w n).bind_pure

theorem PairForm.reads {p : RdbPair} {bytes : List UInt8} (h : PairForm p bytes) :
    Reads parsePair bytes (p.decode RdbString.read) := by
  cases h with
  | mk hk hv => exact reads_parsePair p.expiry hk.reads hv.reads

theorem FieldForm.flagged {a : RdbString × RdbString} {bytes : List UInt8} (h : FieldForm a bytes) :
    Flagged 0xfa readAuxField bytes (a.1.read, a.2.read) := by
  cases h with
  | mk hk hv => exact ⟨_, rfl, reads_readAuxField hk.reads hv.reads⟩

theorem TableForm.flagged {mark : UInt8} {t : RdbTable} {bytes : List UInt8} (h : TableForm mark t bytes) :
    Flagged 0xfe readDatabase bytes (t.decode RdbString.read) := by
  cases h with
  | @mk _ _ _ _ _ pairs hindex hn hm hmax hpairs =>
    have hread : List.Forall₂ (Reads parsePair) pairs (t.pairs.map (RdbPair.decode RdbString.read)) := by
      rw [List.forall₂_map_right_iff]
      exact (hpairs.imp (fun _ _ h => h.reads)).flip
    exact ⟨_, rfl, reads_readDatabase hindex.reads mark hn.reads hm.reads (by rw [List.length_map, hmax]) hread⟩

/-- **The bytes of a content are read as it, the integers unsigned**, whatever stands in the place of the marks. -/
theorem ContentForm.readRdb {Table : RdbTable → List UInt8 → Prop} {c : RdbContent} {bytes : List UInt8}
    (h : ContentForm Table c bytes) (hTable : ∀ t body, Table t body → ∃ mark, TableForm mark t body)
    (rest : List UInt8) : readRdb (bytes ++ rest) = .ok (c.decode RdbString.read) := by
  cases h with
  | @mk auxs dbs hversion haux hdbs =>
    have hauxs : List.Forall₂ (Flagged 0xfa readAuxField) auxs (c.aux.map (fun a => (a.1.read, a.2.read))) := by
      rw [List.forall₂_map_right_iff]
      exact (haux.imp (fun _ _ h => h.flagged)).flip
    have hdatasets : List.Forall₂ (Flagged 0xfe readDatabase) dbs (c.tables.map (RdbTable.decode RdbString.read)) := by
      rw [List.forall₂_map_right_iff]
      refine (hdbs.imp (fun t body ht => ?_)).flip
      obtain ⟨mark, ht⟩ := hTable t body ht
      exact ht.flagged
    exact readRdb_flagged hversion hauxs hdatasets rest

/-! ## Signed integers -/

def RdbString.Nonneg : RdbString → Prop
  | .raw _   => True
  | .int _ n => 0 ≤ n.toInt

theorem RdbString.read_eq_signed_iff (s : RdbString) : s.read = s.signed ↔ s.Nonneg := by
  cases s with
  | raw s => exact iff_of_true rfl trivial
  | int w n =>
    change natText n.toNat = intText n.toInt ↔ 0 ≤ n.toInt
    constructor
    · intro h
      cases hn : n.toInt with
      | ofNat m => exact Int.natCast_nonneg m
      | negSucc m =>
        rw [hn] at h
        have hsign : '-' ∈ natText n.toNat := by rw [h]; exact List.mem_cons_self
        exact absurd hsign (Decimal.notMem_natText (by decide) _)
    · intro h
      have hnat : n.toInt = n.toNat := by
        rw [BitVec.toInt_eq_toNat_cond] at h ⊢
        split at h
        · rename_i hlt
          rw [if_pos hlt]
        · have := n.isLt
          omega
      rw [hnat]
      rfl

/-- The strings of a content: those of the auxiliary fields, the keys and the values. -/
def RdbContent.strings (c : RdbContent) : List RdbString :=
  c.aux.flatMap (fun a => [a.1, a.2]) ++ c.tables.flatMap (fun t => t.pairs.flatMap (fun p => [p.key, p.value]))

theorem RdbContent.decode_eq_iff {f g : RdbString → List Char} (c : RdbContent) :
    c.decode f = c.decode g ↔ ∀ s ∈ c.strings, f s = g s := by
  have hpair : ∀ p : RdbPair, p.decode f = p.decode g ↔ ∀ s ∈ [p.key, p.value], f s = g s := by
    intro p
    simp [RdbPair.decode]
  have htable : ∀ t : RdbTable, t.decode f = t.decode g ↔
      ∀ s ∈ t.pairs.flatMap (fun p => [p.key, p.value]), f s = g s := by
    intro t
    rw [RdbTable.decode, RdbTable.decode, Dataset.mk.injEq, List.map_inj_left]
    simp only [hpair, List.mem_flatMap]
    exact ⟨fun h s ⟨p, hp, hs⟩ => h p hp s hs, fun h p hp s hs => h s ⟨p, hp, hs⟩⟩
  have haux : c.aux.map (fun a => (f a.1, f a.2)) = c.aux.map (fun a => (g a.1, g a.2)) ↔
      ∀ s ∈ c.aux.flatMap (fun a => [a.1, a.2]), f s = g s := by
    rw [List.map_inj_left]
    simp only [List.mem_flatMap]
    constructor
    · rintro h s ⟨a, ha, hs⟩
      have := Prod.mk.injEq .. ▸ h a ha
      simp only [List.mem_cons, List.not_mem_nil, or_false] at hs
      rcases hs with rfl | rfl
      · exact this.1
      · exact this.2
    · intro h a ha
      rw [h a.1 ⟨a, ha, by simp⟩, h a.2 ⟨a, ha, by simp⟩]
  rw [RdbContent.decode, RdbContent.decode, RDBFile.mk.injEq, haux, List.map_inj_left, RdbContent.strings]
  simp only [htable, true_and, List.mem_append, List.mem_flatMap (l := c.tables)]
  constructor
  · rintro ⟨h, h'⟩ s (hs | ⟨t, ht, hs⟩)
    · exact h s hs
    · exact h' t ht s hs
  · exact fun h => ⟨fun s hs => h s (Or.inl hs), fun t ht s hs => h s (Or.inr ⟨t, ht, hs⟩)⟩

/-- **The signed integers of a file keep their value exactly when none is negative**, and the rest of the file is read
as it is. -/
theorem readRdb_ints_iff {c : RdbContent} {bytes : List UInt8} (h : ContentForm (TableForm 0xfb) c bytes)
    (rest : List UInt8) :
    readRdb (bytes ++ rest) = .ok (c.decode RdbString.signed) ↔ ∀ s ∈ c.strings, s.Nonneg := by
  rw [h.readRdb (fun _ _ ht => ⟨0xfb, ht⟩) rest, Except.ok.injEq, RdbContent.decode_eq_iff]
  simp only [RdbString.read_eq_signed_iff]

/-- A content of version `0011` without auxiliary fields, one pair in database `0`. -/
def RdbContent.single (key value : RdbString) : RdbContent := ⟨[48, 48, 49, 49], [], [⟨0, [⟨key, value, .none⟩]⟩]⟩

theorem contentForm_single (mark : UInt8) {key value : RdbString} {k v : List UInt8} (hk : StringForm key k)
    (hv : StringForm value v) : ContentForm (TableForm mark) (.single key value)
      (encode "REDIS".toList ++ [48, 48, 49, 49, 0xfe, 0, mark, 1, 0, 0x00] ++ (k ++ v) ++ [0xff]) := by
  have hsix : ∀ n < 64, RdbLength n [UInt8.ofNat n] := fun _ hn => .plain (.six hn)
  have htable : TableForm mark ⟨0, [⟨key, value, .none⟩]⟩
      (0xfe :: ([0] ++ mark :: ([1] ++ ([0] ++ [0x00 :: (k ++ v)].flatten)))) :=
    .mk (hsix 0 (by decide)) (hsix 1 (by decide)) (hsix 0 (by decide)) rfl (.cons (.mk hk hv) .nil)
  have hform := ContentForm.mk (c := .single key value) rfl .nil (.cons htable .nil)
  simpa [RdbContent.single] using hform

theorem readRdb_ints_small : readRdb (encode "REDIS".toList ++ [48, 48, 49, 49, 0xfe, 0, 0xfb, 1, 0, 0x00, 0xc1, 44, 1,
      0xc0, 127, 0xff, 9]) =
    .ok ((RdbContent.single (.int .two 300#16) (.int .one 127#8)).decode RdbString.signed) ↔
      ∀ s ∈ (RdbContent.single (.int .two 300#16) (.int .one 127#8)).strings, s.Nonneg :=
  readRdb_ints_iff (contentForm_single 0xfb (.int .two 300#16) (.int .one 127#8)) [9]

/-- **A byte `0xFF` is read as `255`.** -/
theorem readRdb_ints_negative : ¬ ∀ (c : RdbContent) (bytes rest : List UInt8), ContentForm (TableForm 0xfb) c bytes →
    readRdb (bytes ++ rest) = .ok (c.decode RdbString.signed) := by
  intro h
  have hform := contentForm_single 0xfb (.int .one 5#8) (.int .one 255#8)
  have hread := (hform.readRdb (fun _ _ ht => ⟨0xfb, ht⟩) []).symm.trans (h _ _ [] hform)
  have hstrings := (RdbContent.decode_eq_iff _).1 (Except.ok.inj hread) (.int .one 255#8) (by simp [RdbContent.strings,
    RdbContent.single])
  revert hstrings
  decide +kernel

end Rusdis
