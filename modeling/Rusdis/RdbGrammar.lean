import Rusdis.RdbContent
/-!
# RdbGrammar — what `read_rdb` accepts

Whatever is accepted begins with the bytes of a content, up to the byte between a database's index and its sizes, which
is skipped (`readRdb_takes`).  So it begins with a form of the grammar exactly when each of those bytes is the flag
(`grammar_iff`); and no cut of it is accepted, while what follows it does not matter (`readRdb_cut`).
-/
namespace Rusdis

open Scanner Utf8

/-! ## Lengths and strings -/

/-- A byte is its two highest bits and the six below. -/
theorem byte_bits (b : UInt8) : (b &&& 0x3F).toNat < 64 ∧
    (b &&& 0xC0 = 0 → b = UInt8.ofNat (b &&& 0x3F).toNat) ∧
    (b &&& 0xC0 = 0x40 → b = UInt8.ofNat (64 + (b &&& 0x3F).toNat)) ∧
    (b &&& 0xC0 = 0x80 → b = UInt8.ofNat (128 + (b &&& 0x3F).toNat)) ∧
    (b &&& 0xC0 = 0xC0 → b = UInt8.ofNat (192 + (b &&& 0x3F).toNat)) := by
  revert b
  exact forall_byte (by decide +kernel)

theorem rdbLength_littleBytes (w : IntWidth) {bs : List UInt8} (h : bs.length = w.bytes) :
    RdbLength (little bs) (w.flag :: bs) := by
  have hlt := little_lt bs
  rw [h, show 256 = 2 ^ 8 from rfl, ← Nat.pow_mul] at hlt
  have hform := RdbLength.int w (BitVec.ofNat _ (little bs))
  rwa [BitVec.toNat_ofNat, Nat.mod_eq_of_lt hlt, ← h, littleBytes_little] at hform

/-- **What `decode_length` reads is a form of a length.** -/
theorem takes_decodeLength : Takes decodeLength (fun u n => RdbLength n u) := by
  refine Takes.next_bind (fun b => ?_)
  obtain ⟨hlt, hsix, hfourteen, hthirtyTwo, hint⟩ := byte_bits b
  refine takes_ite (fun hmask => ?_) (fun _ => takes_ite (fun hmask => ?_) (fun _ => takes_ite (fun hmask => ?_)
    (fun _ => takes_ite (fun hmask => ?_) (fun _ => takes_throw _))))
  · have hflag := hint hmask
    refine takes_ite (fun hbits => ?_) (fun _ => takes_ite (fun hbits => ?_) (fun _ => takes_ite (fun hbits => ?_)
      (fun _ => takes_throw _)))
    · rw [hbits] at hflag
      refine ((takes_next lengthFailed).imp (fun u c hu => ?_)).bind_pure
      rw [hu, hflag, show c.toNat = little [c] by simp [little]]
      exact rdbLength_littleBytes .one rfl
    · rw [hbits] at hflag
      refine ((takes_times_next lengthFailed 2).imp (fun u bs hu => ?_)).bind_pure
      rw [hu.1, hflag]
      exact rdbLength_littleBytes .two hu.2
    · rw [hbits] at hflag
      refine ((takes_times_next lengthFailed 4).imp (fun u bs hu => ?_)).bind_pure
      rw [hu.1, hflag]
      exact rdbLength_littleBytes .four hu.2
  · refine ((takes_times_next lengthFailed 4).imp (fun u bs hu => ?_)).bind_pure
    obtain ⟨rfl, hlen⟩ := hu
    have hbig := big_reverse u.reverse
    have hbytes := littleBytes_little u.reverse
    have hbound := little_lt u.reverse
    rw [List.reverse_reverse] at hbig
    rw [List.length_reverse, hlen, ← hbig] at hbytes hbound
    have hform := LengthForm.thirtyTwo hbound hlt
    rw [hbytes, List.reverse_reverse, ← hthirtyTwo hmask] at hform
    exact .plain hform
  · refine ((takes_next lengthFailed).imp (fun u c hu => ?_)).bind_pure
    have hlast := c.toNat_lt
    generalize (b &&& 0x3F).toNat = six at hlt hfourteen
    have hform := LengthForm.fourteen (n := six * 256 + c.toNat) (by omega)
    have hc : UInt8.ofNat (six * 256 + c.toNat) = c := by
      apply UInt8.toNat_inj.1
      rw [UInt8.toNat_ofNat']
      omega
    rw [hc, show (six * 256 + c.toNat) / 256 = six by omega, ← hfourteen hmask] at hform
    rw [hu]
    exact .plain hform
  · have hform := LengthForm.six hlt
    rw [← hsix hmask] at hform
    exact takes_pure (.plain hform)

theorem RdbLength.plain_of_head {n : Nat} {b : UInt8} {bytes : List UInt8} (h : RdbLength n (b :: bytes))
    (hb : b &&& 0xC0 ≠ 0xC0) : LengthForm n (b :: bytes) := by
  cases h with
  | plain h => exact h
  | int w n => exact absurd w.flag_mask hb

theorem RdbLength.ne_nil {n : Nat} (h : RdbLength n []) : False := by
  cases h with
  | plain h => cases h

/-- **What `decode_string` reads is a form of a string.** -/
theorem takes_decodeString : Takes decodeString (fun u text => ∃ s, StringForm s u ∧ s.read = text) := by
  refine Takes.peek_bind (fun b => takes_ite (fun hmask => ?_) (fun hmask => ?_))
  · refine (takes_decodeLength.imp (fun u n hn => ⟨fun hu => RdbLength.ne_nil (hu ▸ hn), fun v hv => ?_⟩)).bind_pure
    subst hv
    cases hn with
    | int w n => exact ⟨_, .int w n, rfl⟩
    | plain hn =>
      obtain ⟨b', bs, hbs, hb'⟩ := hn.head
      obtain ⟨rfl, rfl⟩ := List.cons.inj hbs
      exact absurd hmask hb'
  · refine takes_decodeLength.bind (fun u n hn => ((takes_times_next _ n).imp (fun s bs hs => ?_)).bind_pure)
    obtain ⟨rfl, rfl⟩ := hs
    refine ⟨fun hnil => RdbLength.ne_nil ((List.append_eq_nil_iff.1 hnil).1 ▸ hn), fun v hv => ⟨.raw s, .raw ?_, rfl⟩⟩
    cases u with
    | nil => exact absurd hn RdbLength.ne_nil
    | cons b' u =>
      obtain ⟨rfl, -⟩ := List.cons.inj hv
      exact hn.plain_of_head hmask

/-! ## The parts of a file -/

/-- A key and a value, one after the other. -/
theorem takes_strings {α : Type} (f : List Char → List Char → α) : Takes (do
      let key ← decodeString
      let value ← decodeString
      return f key value : Iter α)
    (fun u a => ∃ k v key value, u = k ++ v ∧ StringForm key k ∧ StringForm value v ∧ f key.read value.read = a) := by
  refine takes_decodeString.bind (fun k key hk => (takes_decodeString.imp (fun v value hv => ?_)).bind_pure)
  obtain ⟨key, hkey, rfl⟩ := hk
  obtain ⟨value, hvalue, rfl⟩ := hv
  exact ⟨k, v, key, value, rfl, hkey, hvalue, rfl⟩

theorem takes_readAuxField :
    Takes readAuxField (fun u field => ∃ a, FieldForm a (0xfa :: u) ∧ (a.1.read, a.2.read) = field) := by
  refine (takes_strings Prod.mk).imp (fun u field h => ?_)
  obtain ⟨k, v, key, value, rfl, hkey, hvalue, rfl⟩ := h
  exact ⟨(key, value), .mk hkey hvalue, rfl⟩

theorem takes_parseData : Takes parseData (fun u data => ∃ k v key value, u = 0x00 :: (k ++ v) ∧ StringForm key k ∧
    StringForm value v ∧ (key.read, .string value.read) = data) := by
  refine Takes.next_bind (fun b => takes_ite (fun hb => ?_) (fun _ => takes_throw _))
  refine (takes_strings (fun key value => (key, ValueType.string value))).imp (fun u data h => ?_)
  obtain ⟨k, v, key, value, rfl, hkey, hvalue, rfl⟩ := h
  exact ⟨k, v, key, value, by rw [hb], hkey, hvalue, rfl⟩

/-- What follows an expiry makes a pair of it. -/
theorem takes_pair (expiry : Expiry) : Takes (do
      let (key, value) ← parseData
      return (key, value, expiry.instant) : Iter (List Char × ValueType × Option SystemTime))
    (fun u pair => ∃ p, PairForm p (expiry.bytes ++ u) ∧ p.decode RdbString.read = pair) := by
  refine (takes_parseData.imp (fun u data h => ?_)).bind_pure (g := fun d => (d.1, d.2, expiry.instant))
  obtain ⟨k, v, key, value, rfl, hkey, hvalue, rfl⟩ := h
  exact ⟨⟨key, value, expiry⟩, .mk hkey hvalue, rfl⟩

theorem takes_stamp (k : Nat) : Takes (times (next invalidTimestamp) k)
    (fun u (bs : List UInt8) => u = littleBytes k (little bs) ∧ little bs < 256 ^ k) := by
  refine (takes_times_next invalidTimestamp k).imp (fun u bs h => ?_)
  obtain ⟨rfl, rfl⟩ := h
  exact ⟨(littleBytes_little u).symm, little_lt u⟩

/-- **What a pair is read from is a form of a pair**, its expiry in front. -/
theorem takes_parsePair : Takes parsePair (fun u pair => ∃ p, PairForm p u ∧ p.decode RdbString.read = pair) := by
  refine Takes.peek_bind (fun flag => takes_ite (fun hflag => ?_) (fun _ => takes_ite (fun hflag => ?_) (fun _ => ?_)))
  · refine Takes.skip_bind nofun (fun b => (takes_stamp 4).bind (fun u bs h => ?_))
    obtain ⟨hu, hlt⟩ := h
    have hn : (UInt32.ofNat (little bs)).toNat = little bs := by
      rw [UInt32.toNat_ofNat']
      exact Nat.mod_eq_of_lt hlt
    have hpair := takes_pair (.seconds (UInt32.ofNat (little bs)))
    rw [Expiry.instant, Expiry.bytes, hn, ← hu, ← hflag] at hpair
    exact hpair.imp (fun v pair h => ⟨nofun, fun w hw => (List.cons.inj hw).1 ▸ h⟩)
  · refine Takes.skip_bind nofun (fun b => (takes_stamp 8).bind (fun u bs h => ?_))
    obtain ⟨hu, hlt⟩ := h
    have hn : (UInt64.ofNat (little bs)).toNat = little bs := by
      rw [UInt64.toNat_ofNat']
      exact Nat.mod_eq_of_lt hlt
    have hpair := takes_pair (.millis (UInt64.ofNat (little bs)))
    rw [Expiry.instant, Expiry.bytes, hn, ← hu, ← hflag] at hpair
    exact hpair.imp (fun v pair h => ⟨nofun, fun w hw => (List.cons.inj hw).1 ▸ h⟩)
  · refine (takes_pair .none).imp (fun u pair h => ⟨fun hu => ?_, fun _ _ => h⟩)
    obtain ⟨p, hp, -⟩ := h
    rw [hu] at hp
    generalize hbytes : Expiry.bytes .none ++ [] = bytes at hp
    cases hp with
    | mk => simp [Expiry.bytes] at hbytes

/-- **What a database is read from is a form of a table**, with any byte in front of its sizes. -/
theorem takes_readDatabase : Takes readDatabase
    (fun u dataset => ∃ mark t, TableForm mark t (0xfe :: u) ∧ t.decode RdbString.read = dataset) := by
  refine takes_decodeLength.bind (fun index i hindex => Takes.skip_bind nofun (fun mark => ?_))
  refine takes_decodeLength.bind (fun n size hn => takes_decodeLength.bind (fun m expirySize hm => ?_))
  refine ((takes_parsePair.times _).imp (fun u pairs h => ?_)).bind_pure
  obtain ⟨hlen, us, rfl, hpairs⟩ := h
  obtain ⟨ps, hps, rfl⟩ : ∃ ps, List.Forall₂ PairForm ps us ∧ ps.map (RdbPair.decode RdbString.read) = pairs := by
    clear hlen
    induction hpairs with
    | nil => exact ⟨[], .nil, rfl⟩
    | cons hp _ ih =>
      obtain ⟨p, hform, rfl⟩ := hp
      obtain ⟨ps, hps, rfl⟩ := ih
      exact ⟨p :: ps, .cons hform hps, rfl⟩
  rw [List.length_map] at hlen
  have hform : TableForm mark ⟨i, ps⟩ _ := .mk hindex hn hm hlen.symm hps
  exact ⟨mark, ⟨i, ps⟩, hform, rfl⟩

/-! ## The phases -/

def AnyTable (t : RdbTable) (bytes : List UInt8) : Prop := ∃ mark, TableForm mark t bytes

theorem readDatabases_inv {rest : List UInt8} {datasets : List Dataset}
    (h : readDatabases (0xfe :: rest) = .ok datasets) : ∃ dataset s ds, readDatabase rest = .ok (dataset, s) ∧
      readDatabases s = .ok ds ∧ datasets = dataset :: ds := by
  cases hread : readDatabase rest with
  | error e =>
    rw [readDatabases, if_pos rfl] at h
    split at h
    · cases h
    · rename_i he
      rw [hread] at he
      cases he
  | ok x =>
    rw [readDatabases_flag hread] at h
    obtain ⟨ds, hds, he⟩ := Fallible.bind_eq_ok.1 h
    cases he
    exact ⟨x.1, x.2, ds, rfl, hds, rfl⟩

theorem readMetadata_inv {rest : List UInt8} {aux : List (List Char × List Char)} {datasets : List Dataset}
    (h : readMetadata (0xfa :: rest) = .ok (aux, datasets)) : ∃ field s fields, readAuxField rest = .ok (field, s) ∧
      readMetadata s = .ok (fields, datasets) ∧ aux = field :: fields := by
  cases hread : readAuxField rest with
  | error e =>
    rw [readMetadata, if_pos rfl] at h
    split at h
    · cases h
    · rename_i he
      rw [hread] at he
      cases he
  | ok x =>
    rw [readMetadata_flag hread] at h
    obtain ⟨⟨fields, ds⟩, hds, he⟩ := Fallible.bind_eq_ok.1 h
    cases he
    exact ⟨x.1, x.2, fields, rfl, hds, rfl⟩

/-- **The databases are read from forms of tables**, up to the end flag. -/
theorem readDatabases_takes (iter : List UInt8) (datasets : List Dataset) (h : readDatabases iter = .ok datasets) :
    ∃ tables dbs rest, iter = dbs.flatten ++ 0xff :: rest ∧ List.Forall₂ AnyTable tables dbs ∧
      tables.map (RdbTable.decode RdbString.read) = datasets := by
  match iter with
  | [] =>
    rw [readDatabases] at h
    cases h
  | flag :: iter =>
    by_cases hfe : flag = 0xfe
    · subst hfe
      obtain ⟨dataset, s, ds, hread, hds, rfl⟩ := readDatabases_inv h
      have := shortens_readDatabase iter dataset s hread
      obtain ⟨u, rfl, mark, t, ht, rfl⟩ := takes_readDatabase iter dataset s hread
      obtain ⟨tables, dbs, rest, rfl, hdbs, rfl⟩ := readDatabases_takes s ds hds
      exact ⟨t :: tables, (0xfe :: u) :: dbs, rest, by simp, .cons ⟨mark, ht⟩ hdbs, rfl⟩
    · rw [readDatabases, if_neg hfe] at h
      by_cases hff : flag = 0xff
      · rw [if_pos hff] at h
        cases h
        exact ⟨[], [], iter, by rw [hff]; rfl, .nil, rfl⟩
      · rw [if_neg hff] at h
        cases h
termination_by iter.length
decreasing_by rw [List.length_cons]; omega

/-- **The auxiliary fields are read from forms of fields**, up to the databases. -/
theorem readMetadata_takes (iter : List UInt8) (aux : List (List Char × List Char)) (datasets : List Dataset)
    (h : readMetadata iter = .ok (aux, datasets)) : ∃ fields auxs tables dbs rest,
      iter = auxs.flatten ++ (dbs.flatten ++ 0xff :: rest) ∧ List.Forall₂ FieldForm fields auxs ∧
        List.Forall₂ AnyTable tables dbs ∧ fields.map (fun a => (a.1.read, a.2.read)) = aux ∧
          tables.map (RdbTable.decode RdbString.read) = datasets := by
  match iter with
  | [] =>
    rw [readMetadata] at h
    cases h
  | flag :: iter =>
    by_cases hfa : flag = 0xfa
    · subst hfa
      obtain ⟨field, s, fs, hread, hfs, rfl⟩ := readMetadata_inv h
      have := shortens_readAuxField iter field s hread
      obtain ⟨u, rfl, a, ha, rfl⟩ := takes_readAuxField iter field s hread
      obtain ⟨fields, auxs, tables, dbs, rest, rfl, hauxs, hdbs, rfl, rfl⟩ := readMetadata_takes s fs datasets hfs
      exact ⟨a :: fields, (0xfa :: u) :: auxs, tables, dbs, rest, by simp, .cons ha hauxs, hdbs, rfl, rfl⟩
    · obtain ⟨rfl, hds⟩ : aux = [] ∧ readDatabases (flag :: iter) = .ok datasets := by
        rw [readMetadata, if_neg hfa] at h
        by_cases hfe : flag = 0xfe
        · rw [if_pos hfe] at h
          obtain ⟨ds, hds, he⟩ := Fallible.bind_eq_ok.1 h
          cases he
          exact ⟨rfl, hds⟩
        · rw [if_neg hfe] at h
          by_cases hff : flag = 0xff
          · rw [if_pos hff] at h
            cases h
            rw [readDatabases, if_neg hfe, if_pos hff]
            exact ⟨rfl, rfl⟩
          · rw [if_neg hff] at h
            cases h
      obtain ⟨tables, dbs, rest, hiter, hdbs, rfl⟩ := readDatabases_takes (flag :: iter) datasets hds
      exact ⟨[], [], tables, dbs, rest, hiter, .nil, hdbs, rfl, rfl⟩
termination_by iter.length
decreasing_by rw [List.length_cons]; omega

/-- **Only the five bytes of the magic string are read as it.** -/
theorem magic_of_decodeLossy {magic : List UInt8} (hlen : magic.length = 5)
    (h : decodeLossy magic = "REDIS".toList) : magic = encode "REDIS".toList := by
  have hascii : ∀ b ∈ magic, b.toNat < 128 :=
    ascii_of_length_decodeFrom magic (by rw [← decodeLossy, h]; decide) (by rw [← decodeLossy, h, hlen]; rfl)
  rw [decodeLossy_ascii magic hascii] at h
  apply latin1_injective
  rw [h]
  decide

theorem takes_readHeader : Takes readHeader (fun u text => ∃ version, u = encode "REDIS".toList ++ version ∧
    version.length = 4 ∧ decodeLossy version = text) := by
  refine (takes_times_next _ 5).bind (fun u magic hmagic => takes_ite (fun _ => takes_throw _) (fun hredis => ?_))
  obtain ⟨rfl, hlen⟩ := hmagic
  rw [ne_eq, not_not] at hredis
  refine ((takes_times_next _ 4).imp (fun v version hversion => ?_)).bind_pure
  obtain ⟨rfl, hlen'⟩ := hversion
  exact ⟨v, by rw [magic_of_decodeLossy hlen hredis], hlen', rfl⟩

/-- **What is accepted begins with a form of a content**, up to the marks in front of the sizes. -/
theorem readRdb_takes {bs : List UInt8} {f : RDBFile} (h : readRdb bs = .ok f) : ∃ c pre rest, bs = pre ++ rest ∧
    ContentForm AnyTable c pre ∧ c.decode RdbString.read = f := by
  obtain ⟨⟨text, iter⟩, hheader, h⟩ := Fallible.bind_eq_ok.1 h
  obtain ⟨⟨aux, datasets⟩, hmeta, h⟩ := Fallible.bind_eq_ok.1 h
  cases h
  obtain ⟨u, rfl, version, rfl, hlen, rfl⟩ := takes_readHeader bs text iter hheader
  obtain ⟨fields, auxs, tables, dbs, rest, rfl, hauxs, hdbs, rfl, rfl⟩ := readMetadata_takes iter aux datasets hmeta
  exact ⟨⟨version, fields, tables⟩, _, rest, by simp, .mk (c := ⟨version, fields, tables⟩) hlen hauxs hdbs, rfl⟩

/-! ## The marks -/

/-- A byte that stands where a database, after a regular beginning of the file, has the flag in front of its sizes. -/
inductive MarkAt (mark : UInt8) : List UInt8 → Prop
  | mk {version index : List UInt8} {auxs dbs : List (List UInt8)} {i : Nat} (rest : List UInt8)
      (hversion : version.length = 4) (hauxs : ∀ a ∈ auxs, ∃ x, FieldForm x a) (hdbs : ∀ d ∈ dbs, ∃ t, AnyTable t d)
      (hindex : RdbLength i index) :
      MarkAt mark (encode "REDIS".toList ++ version ++ auxs.flatten ++ dbs.flatten ++ 0xfe :: (index ++ mark :: rest))

/-- Two readings of the same bytes end at the same place. -/
theorem Flagged.tail_eq {α : Type} {flag : UInt8} {p : Iter α} {a b : α} {u v s t : List UInt8}
    (ha : Flagged flag p u a) (hb : Flagged flag p v b) (h : u ++ s = v ++ t) : s = t := by
  obtain ⟨u, rfl, hu⟩ := ha
  obtain ⟨v, rfl, hv⟩ := hb
  rw [List.cons_append, List.cons_append, List.cons.injEq] at h
  have hs := hu s
  rw [h.2, hv t] at hs
  cases hs
  rfl

theorem fields_tail_eq {s t : List UInt8} (hs : s.head? ≠ some 0xfa) (ht : t.head? ≠ some 0xfa) :
    ∀ {us vs : List (List UInt8)}, (∀ a ∈ us, ∃ x, FieldForm x a) → (∀ a ∈ vs, ∃ x, FieldForm x a) →
      us.flatten ++ s = vs.flatten ++ t → s = t
  | [], [], _, _, h => h
  | [], v :: vs, _, hv, h => by
    obtain ⟨_, hx⟩ := hv v List.mem_cons_self
    obtain ⟨body, rfl, -⟩ := hx.flagged
    exact absurd (by rw [List.flatten_nil, List.nil_append] at h; rw [h]; rfl) hs
  | u :: us, [], hu, _, h => by
    obtain ⟨_, hx⟩ := hu u List.mem_cons_self
    obtain ⟨body, rfl, -⟩ := hx.flagged
    exact absurd (by rw [List.flatten_nil, List.nil_append] at h; rw [← h]; rfl) ht
  | u :: us, v :: vs, hu, hv, h => by
    rw [List.forall_mem_cons] at hu hv
    obtain ⟨⟨_, hx⟩, hu⟩ := hu
    obtain ⟨⟨_, hy⟩, hv⟩ := hv
    rw [List.flatten_cons, List.flatten_cons, List.append_assoc, List.append_assoc] at h
    exact fields_tail_eq hs ht hu hv (hx.flagged.tail_eq hy.flagged h)

/-- **A mark among databases of the grammar is the flag.** -/
theorem mark_of_tables {mark : UInt8} {index rest rest' : List UInt8} {i : Nat} (hindex : RdbLength i index) :
    ∀ {us vs : List (List UInt8)}, (∀ d ∈ us, ∃ t, TableForm 0xfb t d) → (∀ d ∈ vs, ∃ t, AnyTable t d) →
      us.flatten ++ 0xff :: rest = vs.flatten ++ 0xfe :: (index ++ mark :: rest') → mark = 0xfb
  | [], [], _, _, h => by cases h
  | [], v :: vs, _, hv, h => by
    obtain ⟨_, _, ht⟩ := hv v List.mem_cons_self
    obtain ⟨body, rfl, -⟩ := ht.flagged
    cases h
  | u :: us, [], hu, _, h => by
    obtain ⟨t, ht⟩ := hu u List.mem_cons_self
    cases ht with
    | @mk index' n m _ _ pairs hindex' =>
      rw [List.flatten_cons, List.append_assoc, List.cons_append, List.flatten_nil, List.nil_append, List.cons.injEq,
        List.append_assoc] at h
      have hread := hindex'.reads ((0xfb :: (n ++ (m ++ pairs.flatten))) ++ (us.flatten ++ 0xff :: rest))
      rw [h.2, hindex.reads] at hread
      cases hread
      rfl
  | u :: us, v :: vs, hu, hv, h => by
    rw [List.forall_mem_cons] at hu hv
    obtain ⟨⟨_, ht⟩, hu⟩ := hu
    obtain ⟨⟨_, _, ht'⟩, hv⟩ := hv
    rw [List.flatten_cons, List.flatten_cons, List.append_assoc, List.append_assoc] at h
    exact mark_of_tables hindex hu hv (ht.flagged.tail_eq ht'.flagged h)

theorem head_tables {dbs : List (List UInt8)} {b : UInt8} {rest : List UInt8} (h : ∀ d ∈ dbs, ∃ t, AnyTable t d)
    (hb : b ≠ 0xfa) : (dbs.flatten ++ b :: rest).head? ≠ some 0xfa := by
  cases dbs with
  | nil => simpa using hb
  | cons d dbs =>
    obtain ⟨_, _, ht⟩ := h d List.mem_cons_self
    obtain ⟨body, rfl, -⟩ := ht.flagged
    exact nofun

theorem ContentForm.marks {c : RdbContent} {pre rest : List UInt8} (h : ContentForm (TableForm 0xfb) c pre)
    {mark : UInt8} (hmark : MarkAt mark (pre ++ rest)) : mark = 0xfb := by
  generalize hbs : pre ++ rest = bs at hmark
  cases h with
  | @mk auxs dbs hversion haux hdbs =>
    cases hmark with
    | @mk version index auxs' dbs' i rest' hversion' hauxs' hdbs' hindex =>
      have hfields := Fallible.forall_exists haux
      have htables := Fallible.forall_exists hdbs
      simp only [List.append_assoc, List.singleton_append] at hbs
      have hmagic := List.append_cancel_left hbs
      have htail := (List.append_inj hmagic (hversion.trans hversion'.symm)).2
      have hany : ∀ d ∈ dbs, ∃ t, AnyTable t d := fun d hd => by
        obtain ⟨t, ht⟩ := htables d hd
        exact ⟨t, 0xfb, ht⟩
      exact mark_of_tables hindex htables hdbs'
        (fields_tail_eq (head_tables hany (by decide)) (head_tables hdbs' (by decide)) hfields hauxs' htail)

/-- **Databases whose marks are the flag are in the grammar.** -/
theorem tables_of_marks {bs version : List UInt8} {auxs : List (List UInt8)} (hversion : version.length = 4)
    (hauxs : ∀ a ∈ auxs, ∃ x, FieldForm x a) {tables : List RdbTable} {dbs : List (List UInt8)}
    (h : List.Forall₂ AnyTable tables dbs) (hmarks : ∀ mark, MarkAt mark bs → mark = 0xfb) : ∀ (done : List (List UInt8))
      (rest : List UInt8), (∀ d ∈ done, ∃ t, AnyTable t d) →
        bs = encode "REDIS".toList ++ version ++ auxs.flatten ++ done.flatten ++ (dbs.flatten ++ rest) →
          List.Forall₂ (TableForm 0xfb) tables dbs := by
  induction h with
  | nil => exact fun _ _ _ _ => .nil
  | @cons t d tables dbs ht _ ih =>
    intro done rest hdone hbs
    refine .cons ?_ (ih (done ++ [d]) rest ?_ (by rw [hbs]; simp))
    · obtain ⟨mark, ht⟩ := ht
      have hmark : mark = 0xfb := by
        cases ht with
        | @mk index n m _ _ pairs hindex =>
          have hbytes : bs = encode "REDIS".toList ++ version ++ auxs.flatten ++ done.flatten ++
              0xfe :: (index ++ mark :: (n ++ (m ++ pairs.flatten) ++ (dbs.flatten ++ rest))) := by rw [hbs]; simp
          refine hmarks mark ?_
          rw [hbytes]
          exact .mk _ hversion hauxs hdone hindex
      rwa [hmark] at ht
    · intro d' hd'
      rcases List.mem_append.1 hd' with hd' | hd'
      · exact hdone d' hd'
      · rw [List.mem_singleton.1 hd']
        exact ⟨t, ht⟩

/-- **What is accepted begins with a form of the grammar exactly when every mark is the flag.** -/
theorem grammar_iff {bs : List UInt8} {f : RDBFile} (h : readRdb bs = .ok f) :
    (∃ c pre rest, bs = pre ++ rest ∧ ContentForm (TableForm 0xfb) c pre ∧ c.decode RdbString.read = f) ↔
      ∀ mark, MarkAt mark bs → mark = 0xfb := by
  constructor
  · rintro ⟨c, pre, rest, rfl, hform, -⟩ mark hmark
    exact hform.marks hmark
  · intro hmarks
    obtain ⟨c, pre, rest, hbs, hform, rfl⟩ := readRdb_takes h
    cases hform with
    | @mk auxs dbs hversion haux hdbs =>
      have hfields := Fallible.forall_exists haux
      have hbs' : bs = encode "REDIS".toList ++ c.version ++ auxs.flatten ++ ([] : List (List UInt8)).flatten ++
          (dbs.flatten ++ 0xff :: rest) := by rw [hbs]; simp
      have hstrict := tables_of_marks hversion hfields hdbs hmarks [] _ (by simp) hbs'
      exact ⟨c, _, rest, hbs, .mk hversion haux hstrict, rfl⟩

theorem grammar_single :
    (∃ c pre rest, encode "REDIS".toList ++ [48, 48, 49, 49, 0xfe, 0, 0xfb, 1, 0, 0x00, 0xc0, 5, 0xc0, 7, 0xff] =
      pre ++ rest ∧ ContentForm (TableForm 0xfb) c pre ∧
        c.decode RdbString.read = (RdbContent.single (.int .one 5#8) (.int .one 7#8)).decode RdbString.read) ↔
      ∀ mark, MarkAt mark (encode "REDIS".toList ++
        [48, 48, 49, 49, 0xfe, 0, 0xfb, 1, 0, 0x00, 0xc0, 5, 0xc0, 7, 0xff]) → mark = 0xfb :=
  grammar_iff ((contentForm_single 0xfb (.int .one 5#8) (.int .one 7#8)).readRdb (fun _ _ ht => ⟨0xfb, ht⟩) [])

/-- **A byte other than the flag is skipped as well.** -/
theorem grammar_zero : ¬ ∀ (bs : List UInt8) (f : RDBFile), readRdb bs = .ok f → ∃ c pre rest, bs = pre ++ rest ∧
    ContentForm (TableForm 0xfb) c pre ∧ c.decode RdbString.read = f := by
  intro h
  have hform := contentForm_single 0 (.int .one 5#8) (.int .one 7#8)
  obtain ⟨c, pre, rest, hbs, hc, -⟩ := h _ _ (hform.readRdb (fun _ _ ht => ⟨0, ht⟩) [])
  have hmark : MarkAt 0 (encode "REDIS".toList ++ [48, 48, 49, 49] ++ ([] : List (List UInt8)).flatten ++
      ([] : List (List UInt8)).flatten ++ 0xfe :: ([0] ++ 0 :: [1, 0, 0x00, 0xc0, 5, 0xc0, 7, 0xff])) :=
    .mk _ rfl (by simp) (by simp) (.plain (.six (n := 0) (by decide)))
  have hseen : MarkAt 0 (pre ++ rest) := hbs ▸ hmark
  cases hc.marks hseen

/-! ## Cuts -/

/-- **An accepted file ends somewhere**: what follows does not matter, and no shorter cut is accepted. -/
theorem readRdb_cut {bs : List UInt8} {f : RDBFile} (h : readRdb bs = .ok f) : ∃ n,
    (∀ tail, readRdb (bs.take n ++ tail) = .ok f) ∧ ∀ k < n, ∃ e, readRdb (bs.take k) = .error e := by
  classical
  have hsome : ∃ k g, readRdb (bs.take k) = .ok g := ⟨bs.length, f, by rwa [List.take_length]⟩
  refine ⟨Nat.find hsome, ?_, fun k hk => ?_⟩
  · obtain ⟨g, hg⟩ := Nat.find_spec hsome
    obtain ⟨c, pre, rest, htake, hform, rfl⟩ := readRdb_takes hg
    have hread := hform.readRdb (fun _ _ ht => ht)
    -- the shortest accepted cut is a whole content
    have hpre : bs.take pre.length = pre := by
      have hprefix : pre <+: bs := (List.prefix_append pre rest).trans (htake ▸ List.take_prefix _ _)
      exact (List.prefix_iff_eq_take.1 hprefix).symm
    have hle : Nat.find hsome ≤ pre.length := Nat.find_min' hsome ⟨_, by rw [hpre]; simpa using hread []⟩
    have hcut : bs.take (Nat.find hsome) = pre := by
      have hlen := congrArg List.length htake
      rw [List.length_append, List.length_take] at hlen
      rw [← hpre, show Nat.find hsome = pre.length by omega]
    have hwhole := hread (bs.drop (Nat.find hsome))
    rw [← hcut, List.take_append_drop, h] at hwhole
    intro tail
    rw [hcut, hread tail, hwhole]
  · cases hread : readRdb (bs.take k) with
    | error e => exact ⟨e, rfl⟩
    | ok g => exact absurd ⟨g, hread⟩ (Nat.find_min hsome hk)

theorem readRdb_cut_single : ∃ n,
    (∀ tail, readRdb ((encode "REDIS".toList ++ [48, 48, 49, 49, 0xfe, 0, 0xfb, 1, 0, 0x00, 0xc0, 5, 0xc0, 7, 0xff,
        1, 2]).take n ++ tail) = .ok ((RdbContent.single (.int .one 5#8) (.int .one 7#8)).decode RdbString.read)) ∧
      ∀ k < n, ∃ e, readRdb ((encode "REDIS".toList ++ [48, 48, 49, 49, 0xfe, 0, 0xfb, 1, 0, 0x00, 0xc0, 5, 0xc0, 7,
        0xff, 1, 2]).take k) = .error e :=
  readRdb_cut ((contentForm_single 0xfb (.int .one 5#8) (.int .one 7#8)).readRdb (fun _ _ ht => ⟨0xfb, ht⟩) [1, 2])

end Rusdis
