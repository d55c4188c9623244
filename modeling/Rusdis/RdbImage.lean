import Rusdis.Rdb
/-!
# RdbImage — what an RDB file stores, and that it is loaded

`RdbImage` is a file's content, `Written` its bytes in any of the forms a length may take.  They are read back whatever
follows the end flag (`readRdb_written`).
-/
namespace Rusdis

open Scanner Utf8
open Fallible (ok_bind)

inductive Expiry where
  | none
  | seconds (n : UInt32)
  | millis (n : UInt64)
  deriving DecidableEq, Repr

structure RdbEntry where
  key : List UInt8
  value : List UInt8
  expiry : Expiry
  deriving DecidableEq, Repr

structure RdbDatabase where
  index : Nat
  entries : List RdbEntry
  deriving DecidableEq, Repr

structure RdbImage where
  version : List UInt8
  aux : List (List UInt8 × List UInt8)
  databases : List RdbDatabase
  version_length : version.length = 4
  version_ascii : ∀ b ∈ version, b.toNat < 128

/-! ## What is loaded -/

def latin1 (s : List UInt8) : List Char := s.map byteChar

theorem toNat_byteChar (b : UInt8) : (byteChar b).toNat = b.toNat := by
  revert b
  exact forall_byte (by decide +kernel)

theorem latin1_injective {s t : List UInt8} (h : latin1 s = latin1 t) : s = t := by
  refine List.map_injective_iff.2 (fun b c hbc => ?_) h
  apply UInt8.toNat_inj.1
  rw [← toNat_byteChar, hbc, toNat_byteChar]

def Expiry.instant : Expiry → Option SystemTime
  | .none      => .none
  | .seconds n => some (n.toNat * 1000000000)
  | .millis n  => some (n.toNat * 1000000)

def RdbEntry.pair (e : RdbEntry) : List Char × ValueType × Option SystemTime :=
  (latin1 e.key, .string (latin1 e.value), e.expiry.instant)

def RdbDatabase.dataset (db : RdbDatabase) : Dataset := ⟨db.entries.map RdbEntry.pair⟩

def RdbImage.file (f : RdbImage) : RDBFile :=
  ⟨latin1 f.version, f.aux.map (fun a => (latin1 a.1, latin1 a.2)), f.databases.map RdbDatabase.dataset⟩

/-! ## How it is written -/

/-- A length in six bits, in fourteen, or in thirty-two behind a byte whose lower six bits mean nothing. -/
inductive LengthForm : Nat → List UInt8 → Prop
  | six {n : Nat} (h : n < 64) : LengthForm n [UInt8.ofNat n]
  | fourteen {n : Nat} (h : n < 16384) : LengthForm n [UInt8.ofNat (64 + n / 256), UInt8.ofNat n]
  | thirtyTwo {n x : Nat} (h : n < 4294967296) (hx : x < 64) :
      LengthForm n (UInt8.ofNat (128 + x) :: (littleBytes 4 n).reverse)

/-- A string stored raw. -/
inductive RawString : List UInt8 → List UInt8 → Prop
  | mk {s len : List UInt8} (h : LengthForm s.length len) : RawString s (len ++ s)

def Expiry.bytes : Expiry → List UInt8
  | .none      => []
  | .seconds n => 0xfd :: littleBytes 4 n.toNat
  | .millis n  => 0xfc :: littleBytes 8 n.toNat

inductive EntryForm : RdbEntry → List UInt8 → Prop
  | mk {e : RdbEntry} {k v : List UInt8} (hk : RawString e.key k) (hv : RawString e.value v) :
      EntryForm e (e.expiry.bytes ++ 0x00 :: (k ++ v))

inductive AuxForm : List UInt8 × List UInt8 → List UInt8 → Prop
  | mk {a : List UInt8 × List UInt8} {k v : List UInt8} (hk : RawString a.1 k) (hv : RawString a.2 v) :
      AuxForm a (0xfa :: (k ++ v))

inductive DatabaseForm : RdbDatabase → List UInt8 → Prop
  | mk {db : RdbDatabase} {index n m : List UInt8} {count : Nat} {pairs : List (List UInt8)}
      (hindex : LengthForm db.index index) (hn : LengthForm db.entries.length n) (hcount : count ≤ db.entries.length)
      (hm : LengthForm count m) (hpairs : List.Forall₂ EntryForm db.entries pairs) :
      DatabaseForm db (0xfe :: (index ++ 0xfb :: (n ++ (m ++ pairs.flatten))))

/-- The bytes of a file, up to its end flag. -/
inductive Written : RdbImage → List UInt8 → Prop
  | mk {f : RdbImage} {auxs dbs : List (List UInt8)} (haux : List.Forall₂ AuxForm f.aux auxs)
      (hdbs : List.Forall₂ DatabaseForm f.databases dbs) :
      Written f (encode "REDIS".toList ++ f.version ++ auxs.flatten ++ dbs.flatten ++ [0xff])

/-! ## Lengths -/

theorem six_bits : ∀ n < 64, UInt8.ofNat n &&& 0xC0 = 0 ∧ (UInt8.ofNat n &&& 0x3F).toNat = n := by decide

theorem fourteen_bits : ∀ n < 64, UInt8.ofNat (64 + n) &&& 0xC0 = 0x40 ∧ (UInt8.ofNat (64 + n) &&& 0x3F).toNat = n := by
  decide

theorem thirtyTwo_bits : ∀ n < 64, UInt8.ofNat (128 + n) &&& 0xC0 = 0x80 := by decide

/-- **Every form of a length is read back.** -/
theorem reads_decodeLength {n : Nat} {bytes : List UInt8} (h : LengthForm n bytes) : Reads decodeLength bytes n := by
  cases h with
  | six h =>
    obtain ⟨hmask, hbits⟩ := six_bits n h
    refine Reads.next_bind ?_
    simp only [hmask]
    rw [if_neg (by decide), if_neg (by decide), if_neg (by decide), if_pos trivial, hbits]
    exact reads_pure n
  | fourteen h =>
    obtain ⟨hmask, hbits⟩ := fourteen_bits (n / 256) (by omega)
    refine Reads.next_bind ?_
    simp only [hmask]
    rw [if_neg (by decide), if_neg (by decide), if_pos trivial]
    refine Reads.next_bind ?_
    rw [hbits, UInt8.toNat_ofNat', show n / 256 * 256 + n % 2 ^ 8 = n by omega]
    exact reads_pure n
  | @thirtyTwo x h hx =>
    have hmask := thirtyTwo_bits x hx
    refine Reads.next_bind ?_
    simp only [hmask]
    rw [if_neg (by decide), if_pos trivial]
    have hbytes := reads_times_next lengthFailed (littleBytes 4 n).reverse
    rw [List.length_reverse, length_littleBytes] at hbytes
    have hbig := hbytes.bind_pure (f := big)
    rwa [big_reverse, little_littleBytes 4 n h] at hbig

theorem LengthForm.head {n : Nat} {bytes : List UInt8} (h : LengthForm n bytes) :
    ∃ b bs, bytes = b :: bs ∧ b &&& 0xC0 ≠ 0xC0 := by
  cases h with
  | six h => exact ⟨_, _, rfl, by rw [(six_bits n h).1]; decide⟩
  | fourteen h => exact ⟨_, _, rfl, by rw [(fourteen_bits (n / 256) (by omega)).1]; decide⟩
  | @thirtyTwo x h hx => exact ⟨_, _, rfl, by rw [thirtyTwo_bits x hx]; decide⟩

theorem reads_decodeString {s bytes : List UInt8} (h : RawString s bytes) : Reads decodeString bytes (latin1 s) := by
  cases h with
  | @mk len hlen =>
    obtain ⟨b, bs, rfl, hb⟩ := hlen.head
    have hread : Reads (do
        let length ← decodeLength
        return (← times (next ⟨"Decode string failed"⟩) length).map byteChar : Iter (List Char))
        (b :: bs ++ s) (latin1 s) :=
      (reads_decodeLength hlen).bind (reads_times_next _ s).bind_pure
    refine Reads.peek_bind ?_
    rw [if_neg hb]
    exact hread

/-! ## The parts of a file -/

section
variable {key value : List Char} {k v : List UInt8}

theorem reads_readAuxField (hk : Reads decodeString k key) (hv : Reads decodeString v value) :
    Reads readAuxField (k ++ v) (key, value) := hk.bind hv.bind_pure

theorem reads_parseData (hk : Reads decodeString k key) (hv : Reads decodeString v value) :
    Reads parseData (0x00 :: (k ++ v)) (key, .string value) := by
  refine Reads.next_bind ?_
  rw [if_pos rfl]
  exact hk.bind hv.bind_pure

theorem reads_littleBytes (k n : Nat) : Reads (times (next invalidTimestamp) k) (littleBytes k n) (littleBytes k n) := by
  have h := reads_times_next invalidTimestamp (littleBytes k n)
  rwa [length_littleBytes] at h

/-- **A pair is read back**, whatever its expiry. -/
theorem reads_parsePair (expiry : Expiry) (hk : Reads decodeString k key) (hv : Reads decodeString v value) :
    Reads parsePair (expiry.bytes ++ 0x00 :: (k ++ v)) (key, .string value, expiry.instant) := by
  have hdata := reads_parseData hk hv
  cases expiry with
  | none =>
    refine Reads.peek_bind ?_
    rw [if_neg (by decide), if_neg (by decide)]
    exact hdata.bind_pure
  | seconds n =>
    refine Reads.peek_bind ?_
    rw [if_pos rfl]
    refine Reads.skip_bind ((reads_littleBytes 4 n.toNat).bind ?_)
    rw [little_littleBytes 4 _ n.toNat_lt]
    exact hdata.bind_pure
  | millis n =>
    refine Reads.peek_bind ?_
    rw [if_neg (by decide), if_pos rfl]
    refine Reads.skip_bind ((reads_littleBytes 8 n.toNat).bind ?_)
    rw [little_littleBytes 8 _ n.toNat_lt]
    exact hdata.bind_pure

end

/-- **A database is read back**, whatever stands in the place of the flag between its index and its sizes. -/
theorem reads_readDatabase {index n m : List UInt8} {i size expirySize : Nat} {pairs : List (List UInt8)}
    {ps : List (List Char × ValueType × Option SystemTime)} (hindex : Reads decodeLength index i) (mark : UInt8)
    (hn : Reads decodeLength n size) (hm : Reads decodeLength m expirySize) (hmax : max size expirySize = ps.length)
    (hpairs : List.Forall₂ (Reads parsePair) pairs ps) :
    Reads readDatabase (index ++ mark :: (n ++ (m ++ pairs.flatten))) ⟨ps⟩ := by
  have hall := Reads.times hpairs
  refine hindex.bind (Reads.skip_bind (hn.bind (hm.bind ?_)))
  rw [hmax]
  exact hall.bind_pure

/-! ## The phases -/

/-- The flag, then what `p` reads. -/
def Flagged {α : Type} (flag : UInt8) (p : Iter α) (bytes : List UInt8) (a : α) : Prop :=
  ∃ body, bytes = flag :: body ∧ Reads p body a

theorem readDatabases_flagged {datasets : List Dataset} {dbs : List (List UInt8)}
    (h : List.Forall₂ (Flagged 0xfe readDatabase) dbs datasets) (rest : List UInt8) :
    readDatabases (dbs.flatten ++ 0xff :: rest) = .ok datasets := by
  induction h with
  | nil =>
    rw [List.flatten_nil, List.nil_append, readDatabases, if_neg (by decide), if_pos rfl]
  | @cons _ _ dbs _ hdb _ ih =>
    obtain ⟨body, rfl, hread⟩ := hdb
    rw [List.flatten_cons, List.append_assoc, List.cons_append, readDatabases_flag (hread (dbs.flatten ++ 0xff :: rest)),
      ih]
    rfl

theorem head_flagged {datasets : List Dataset} {dbs : List (List UInt8)}
    (h : List.Forall₂ (Flagged 0xfe readDatabase) dbs datasets) (rest : List UInt8) :
    ∃ flag iter, dbs.flatten ++ 0xff :: rest = flag :: iter ∧ flag ≠ 0xfa := by
  cases h with
  | nil => exact ⟨0xff, rest, rfl, by decide⟩
  | cons hdb =>
    obtain ⟨body, rfl, -⟩ := hdb
    exact ⟨0xfe, _, rfl, by decide⟩

theorem readMetadata_flagged {aux : List (List Char × List Char)} {auxs : List (List UInt8)} {datasets : List Dataset}
    {dbs : List (List UInt8)} (haux : List.Forall₂ (Flagged 0xfa readAuxField) auxs aux)
    (hdbs : List.Forall₂ (Flagged 0xfe readDatabase) dbs datasets) (rest : List UInt8) :
    readMetadata (auxs.flatten ++ (dbs.flatten ++ 0xff :: rest)) = .ok (aux, datasets) := by
  induction haux with
  | nil =>
    have hread := readDatabases_flagged hdbs rest
    obtain ⟨flag, iter, hhead, hflag⟩ := head_flagged hdbs rest
    rw [hhead] at hread
    rw [List.flatten_nil, List.nil_append, hhead, readMetadata_of_readDatabases hflag hread]
  | @cons _ _ auxs _ ha _ ih =>
    obtain ⟨body, rfl, hread⟩ := ha
    rw [List.flatten_cons, List.append_assoc, List.cons_append,
      readMetadata_flag (hread (auxs.flatten ++ (dbs.flatten ++ 0xff :: rest))), ih]
    rfl

theorem reads_readHeader {version : List UInt8} (hlen : version.length = 4) :
    Reads readHeader (encode "REDIS".toList ++ version) (decodeLossy version) := by
  have hmagic := reads_times_next (⟨"Wrong Magic String"⟩ : RDBFileParserError) (encode "REDIS".toList)
  have hversion := reads_times_next (⟨"Invalid RDB Version"⟩ : RDBFileParserError) version
  rw [hlen] at hversion
  refine Reads.bind (s := encode "REDIS".toList) hmagic ?_
  rw [if_neg (by rw [decodeLossy_encode]; simp)]
  exact hversion.bind_pure

/-- **The parts of a file are read as the file**, whatever follows the end flag. -/
theorem readRdb_flagged {version : List UInt8} {aux : List (List Char × List Char)} {auxs : List (List UInt8)}
    {datasets : List Dataset} {dbs : List (List UInt8)} (hversion : version.length = 4)
    (haux : List.Forall₂ (Flagged 0xfa readAuxField) auxs aux)
    (hdbs : List.Forall₂ (Flagged 0xfe readDatabase) dbs datasets) (rest : List UInt8) :
    readRdb (encode "REDIS".toList ++ version ++ auxs.flatten ++ dbs.flatten ++ [0xff] ++ rest) =
      .ok ⟨decodeLossy version, aux, datasets⟩ := by
  have hheader := reads_readHeader hversion (auxs.flatten ++ (dbs.flatten ++ 0xff :: rest))
  have hbytes : encode "REDIS".toList ++ version ++ auxs.flatten ++ dbs.flatten ++ [0xff] ++ rest =
      encode "REDIS".toList ++ version ++ (auxs.flatten ++ (dbs.flatten ++ 0xff :: rest)) := by simp
  rw [hbytes, readRdb, hheader, ok_bind]
  simp only [readMetadata_flagged haux hdbs rest]
  rfl

/-! ## An image -/

theorem decodeLossy_ascii : ∀ (s : List UInt8), (∀ b ∈ s, b.toNat < 128) → decodeLossy s = latin1 s
  | [], _ => rfl
  | b :: s, h => by
    have ih := decodeLossy_ascii s (fun c hc => h c (List.mem_cons_of_mem _ hc))
    rw [decodeLossy] at ih
    rw [decodeLossy, ← UInt8.ofNat_toNat (x := b), decodeFrom_ascii (h b List.mem_cons_self), ih, UInt8.ofNat_toNat]
    rfl

theorem EntryForm.reads {e : RdbEntry} {bytes : List UInt8} (h : EntryForm e bytes) : Reads parsePair bytes e.pair := by
  cases h with
  | mk hk hv => exact reads_parsePair e.expiry (reads_decodeString hk) (reads_decodeString hv)

theorem DatabaseForm.flagged {db : RdbDatabase} {bytes : List UInt8} (h : DatabaseForm db bytes) :
    Flagged 0xfe readDatabase bytes db.dataset := by
  cases h with
  | @mk _ _ _ count pairs hindex hn hcount hm hpairs =>
    have hread : List.Forall₂ (Reads parsePair) pairs (db.entries.map RdbEntry.pair) := by
      rw [List.forall₂_map_right_iff]
      exact (hpairs.imp (fun _ _ h => h.reads)).flip
    have hmax : max db.entries.length count = (db.entries.map RdbEntry.pair).length := by
      rw [List.length_map, Nat.max_eq_left hcount]
    exact ⟨_, rfl, reads_readDatabase (reads_decodeLength hindex) 0xfb (reads_decodeLength hn) (reads_decodeLength hm)
      hmax hread⟩

theorem AuxForm.flagged {a : List UInt8 × List UInt8} {bytes : List UInt8} (h : AuxForm a bytes) :
    Flagged 0xfa readAuxField bytes (latin1 a.1, latin1 a.2) := by
  cases h with
  | mk hk hv => exact ⟨_, rfl, reads_readAuxField (reads_decodeString hk) (reads_decodeString hv)⟩

/-- **The bytes of an image are read as its file**, whatever follows the end flag. -/
theorem Written.readRdb {f : RdbImage} {bytes : List UInt8} (h : Written f bytes) (rest : List UInt8) :
    readRdb (bytes ++ rest) = .ok f.file := by
  cases h with
  | @mk auxs dbs haux hdbs =>
    have hauxs : List.Forall₂ (Flagged 0xfa readAuxField) auxs (f.aux.map (fun a => (latin1 a.1, latin1 a.2))) := by
      rw [List.forall₂_map_right_iff]
      exact (haux.imp (fun _ _ h => h.flagged)).flip
    have hdatasets : List.Forall₂ (Flagged 0xfe readDatabase) dbs (f.databases.map RdbDatabase.dataset) := by
      rw [List.forall₂_map_right_iff]
      exact (hdbs.imp (fun _ _ h => h.flagged)).flip
    rw [readRdb_flagged f.version_length hauxs hdatasets rest, decodeLossy_ascii f.version f.version_ascii]
    rfl

/-- **Loading a file recovers what it stores**: the version, the auxiliary fields and every pair, each in its place, the
payload bytes as characters and the expiries as instants. -/
theorem readRdb_written {f : RdbImage} {bytes : List UInt8} (h : Written f bytes) (rest : List UInt8) :
    readRdb (bytes ++ rest) = .ok {
      rdbVersion := f.version.map byteChar
      auxFields := f.aux.map (fun a => (a.1.map byteChar, a.2.map byteChar))
      datasets := f.databases.map (fun db => ⟨db.entries.map (fun e =>
        (e.key.map byteChar, .string (e.value.map byteChar), e.expiry.instant))⟩) } := h.readRdb rest

/-- An image of version `0011`. -/
def RdbImage.of (aux : List (List UInt8 × List UInt8)) (databases : List RdbDatabase) : RdbImage :=
  { version := [48, 48, 49, 49], aux, databases, version_length := rfl, version_ascii := by simp }

def RdbImage.sample : RdbImage := .of [([97], [98])] [⟨3, [⟨[107], [255], .seconds 7⟩]⟩]

/-- A pair that expires, its lengths in three forms. -/
theorem readRdb_written_one : readRdb (encode "REDIS".toList ++ [48, 48, 49, 49, 0xfa, 1, 97, 1, 98, 0xfe, 3, 0xfb, 64, 1,
      0, 0xfd, 7, 0, 0, 0, 0x00, 1, 107, 0x81, 0, 0, 0, 1, 255, 0xff, 9]) =
    .ok ⟨"0011".toList, [(['a'], ['b'])], [⟨[(['k'], .string [Char.ofNat 255], some 7000000000)]⟩]⟩ := by
  have hwritten : Written RdbImage.sample _ :=
    .mk (.cons (.mk (.mk (.six (by decide))) (.mk (.six (by decide)))) .nil)
      (.cons (.mk (.six (by decide)) (.fourteen (by decide)) (Nat.zero_le 1) (.six (by decide))
        (.cons (.mk (.mk (.six (by decide))) (.mk (.thirtyTwo (x := 1) (by decide) (by decide)))) .nil)) .nil)
  exact readRdb_written hwritten [9]

end Rusdis
