import Rusdis.RdbContent
import Rusdis.Session
import Rusdis.Slots
/-!
# RdbText — the text of a file and the text a client asks for

A string of a file is loaded byte by byte, each byte a character, while the keys and the replies of clients are UTF-8.
So a `GET` finds what the file stores when the bytes are the characters, and otherwise only by way of another entry
(`get_text_iff`).
-/
namespace Rusdis

open Utf8
open Decimal (natText intText)

/-! ## What a file stores -/

/-- The last element with a property. -/
inductive Last {α : Type} (P : α → Prop) (a : α) : List α → Prop
  | here {l : List α} (ha : P a) (hl : ∀ b ∈ l, ¬ P b) : Last P a (a :: l)
  | there {b : α} {l : List α} (h : Last P a l) : Last P a (b :: l)

/-- The bytes a string stands for. -/
def RdbString.bytes : RdbString → List UInt8
  | .raw s   => s
  | .int _ n => encode (intText n.toInt)

/-- The content has `v` under `k` in its database `0`, both raw, and no expiry. -/
def Stores (c : RdbContent) (k v : List Char) : Prop :=
  ∃ t, c.tables.find? (fun t => t.index = 0) = some t ∧
    Last (fun p => p.key.bytes = encode k) ⟨.raw (encode k), .raw (encode v), .none⟩ t.pairs

/-- The bytes of the string are the code points of the text; an integer has its unsigned digits. -/
def RdbString.Spells (k : List Char) : RdbString → Prop
  | .raw s   => s.map UInt8.toNat = k.map Char.toNat
  | .int _ n => natText n.toNat = k

/-- In the first database of the file the last entry whose key spells `k` has a value that spells `v`, not expired. -/
def FirstSpells (now : SystemTime) (c : RdbContent) (k v : List Char) : Prop :=
  ∃ t p, c.tables.head? = some t ∧ Last (fun p => p.key.Spells k) p t.pairs ∧ p.value.Spells v ∧
    ∀ i ∈ p.expiry.instant, now < i

/-- After these bytes are loaded a `GET` of `k` is answered with `v`. -/
def Fetched (regex : List Char → Option (List Char → Bool)) (now : SystemTime) (bytes : List UInt8) (k v : List Char) :
    Prop :=
  ∃ file, readRdb bytes = .ok file ∧ ∀ σ : Server, σ.map = (Store.new file.datasets).map →
    (executeMultiCommands regex [(now, .get k)] false σ).2 = ['$'] ++ natText (encode v).length ++ crlf ++ v ++ crlf

/-! ## What is loaded -/

theorem spells_iff (k : List Char) (s : RdbString) : s.Spells k ↔ s.read = k := by
  cases s with
  | int w n => exact Iff.rfl
  | raw s =>
    have hcodes : (latin1 s).map Char.toNat = s.map UInt8.toNat := by
      rw [latin1, List.map_map]
      exact List.map_congr_left (fun b _ => toNat_byteChar b)
    change s.map UInt8.toNat = k.map Char.toNat ↔ latin1 s = k
    rw [← hcodes]
    exact (List.map_injective_iff.2 (fun _ _ h => Char.toNat_inj.1 h)).eq_iff

theorem Last.mem {α : Type} {P : α → Prop} {a : α} {l : List α} (h : Last P a l) : a ∈ l ∧ P a := by
  induction h with
  | here ha _ => exact ⟨List.mem_cons_self, ha⟩
  | there _ ih => exact ⟨List.mem_cons_of_mem _ ih.1, ih.2⟩

theorem Last.unique {α : Type} {P Q : α → Prop} {a b : α} {l : List α} (ha : Last P a l) (hb : Last Q b l) (hP : P b)
    (hQ : Q a) : a = b := by
  induction ha with
  | here _ hl =>
    cases hb with
    | here => rfl
    | there hb => exact absurd hP (hl b hb.mem.1)
  | there ha ih =>
    cases hb with
    | here _ hl => exact absurd hQ (hl a ha.mem.1)
    | there hb => exact ih hb

theorem Last.imp {α : Type} {P Q : α → Prop} {a : α} {l : List α} (h : Last P a l) (ha : Q a)
    (hQP : ∀ b ∈ l, Q b → P b) : Last Q a l := by
  induction h with
  | here _ hl => exact .here ha (fun b hb hQ => hl b hb (hQP b (List.mem_cons_of_mem _ hb) hQ))
  | there _ ih => exact .there (ih (fun b hb => hQP b (List.mem_cons_of_mem _ hb)))

theorem lastPair_eq_none {key : List Char} : ∀ {ps : List (List Char × ValueType × Option SystemTime)},
    lastPair key ps = none ↔ ∀ p ∈ ps, p.1 ≠ key
  | [] => iff_of_true rfl nofun
  | p :: ps => by
    rw [lastPair, Option.or_eq_none_iff, lastPair_eq_none, List.forall_mem_cons, and_comm]
    simp

theorem lastPair_eq_some {key : List Char} {d : StringData} :
    ∀ {ps : List RdbPair}, lastPair key (ps.map (RdbPair.decode RdbString.read)) = some d ↔
      ∃ p, Last (fun p => p.key.Spells key) p ps ∧ d = ⟨p.value.read, p.expiry.instant⟩
  | [] => ⟨nofun, fun ⟨_, h, _⟩ => nomatch h⟩
  | q :: ps => by
    rw [List.map_cons, lastPair, Option.or_eq_some_iff, lastPair_eq_some, lastPair_eq_none]
    constructor
    · rintro (⟨p, hp, rfl⟩ | ⟨hnone, hq⟩)
      · exact ⟨p, .there hp, rfl⟩
      · obtain ⟨hkey, hd⟩ := Option.ite_none_right_eq_some.1 hq
        refine ⟨q, .here ((spells_iff key q.key).2 hkey) (fun p hp hspells => ?_), (Option.some.inj hd).symm⟩
        exact hnone _ (List.mem_map_of_mem hp) ((spells_iff key p.key).1 hspells)
    · rintro ⟨p, hp, rfl⟩
      cases hp with
      | here hkey hl =>
        refine Or.inr ⟨fun pair hpair heq => ?_, Option.ite_none_right_eq_some.2 ⟨(spells_iff key q.key).1 hkey, rfl⟩⟩
        obtain ⟨p, hp, rfl⟩ := List.mem_map.1 hpair
        exact hl p hp ((spells_iff key p.key).2 heq)
      | there hp => exact Or.inl ⟨p, hp, rfl⟩

section
variable (regex : List Char → Option (List Char → Bool)) {now : SystemTime} {k v : List Char}

theorem executeGet_bulk_iff {σ : Server} : (executeGet now k σ).2 = encodeBulk v ↔
    ∃ d, σ.map.lookup k = some d ∧ d.data = v ∧ d.isExpired now = false := by
  unfold executeGet
  have hnull : "$-1\r\n".toList ≠ encodeBulk v :=
    fun h => encodeBulk_append_ne v [] _ (by rw [List.append_nil, ← h]; rfl)
  cases hd : σ.map.lookup k with
  | none => exact iff_of_false hnull (fun ⟨_, h, _⟩ => nomatch h)
  | some d =>
    simp only [Option.some.injEq, exists_eq_left']
    by_cases hexp : d.isExpired now = true
    · rw [if_pos hexp]
      exact iff_of_false hnull (fun h => by rw [hexp] at h; exact nomatch h.2)
    · rw [if_neg hexp]
      constructor
      · intro h
        refine ⟨(encodeBulk_inj (s := []) (t := []) ?_).1, Bool.eq_false_of_not_eq_true hexp⟩
        rw [List.append_nil, List.append_nil]
        exact h
      · rintro ⟨rfl, -⟩
        rfl

theorem fetched_iff {bytes : List UInt8} {file : RDBFile} (h : readRdb bytes = .ok file) : Fetched regex now bytes k v ↔
    ∃ d, (Store.new file.datasets).map.lookup k = some d ∧ d.data = v ∧ d.isExpired now = false := by
  have hreply : ∀ σ : Server, (executeMultiCommands regex [(now, .get k)] false σ).2 =
      ['$'] ++ natText (encode v).length ++ crlf ++ v ++ crlf ↔ (executeGet now k σ).2 = encodeBulk v := by
    intro σ
    rw [executeMultiCommands_single, length_encode]
    exact Iff.rfl
  constructor
  · rintro ⟨file', hfile, hget⟩
    cases h.symm.trans hfile
    have hserver := hget { Server.start .master 0 with map := (Store.new file.datasets).map } rfl
    exact executeGet_bulk_iff.1 ((hreply _).1 hserver)
  · intro hd
    refine ⟨file, h, fun σ hσ => (hreply σ).2 (executeGet_bulk_iff.2 ?_)⟩
    rwa [hσ]

theorem isExpired_eq_false_iff (d : StringData) : d.isExpired now = false ↔ ∀ i ∈ d.expiration, now < i := by
  unfold StringData.isExpired
  cases d.expiration with
  | none => exact iff_of_true rfl nofun
  | some i => simp

/-- **A `GET` is answered with what the first database spells.** -/
theorem fetched_iff_firstSpells {c : RdbContent} {bytes : List UInt8} (h : readRdb bytes = .ok (c.decode RdbString.read)) :
    Fetched regex now bytes k v ↔ FirstSpells now c k v := by
  rw [fetched_iff regex h, ← select_zero, lookup_select_datasets _ (by unfold slots; omega), RdbContent.decode,
    List.getElem?_map, ← List.head?_eq_getElem?]
  unfold FirstSpells
  cases c.tables.head? with
  | none =>
    constructor
    · rintro ⟨d, hd, -⟩
      cases hd
    · rintro ⟨t, p, ht, -⟩
      cases ht
  | some t =>
    change (∃ d, lastPair k (t.pairs.map (RdbPair.decode RdbString.read)) = some d ∧ _) ↔ _
    simp only [lastPair_eq_some, isExpired_eq_false_iff, Option.some.injEq]
    constructor
    · rintro ⟨d, ⟨p, hp, rfl⟩, hv, hlive⟩
      exact ⟨t, p, rfl, hp, (spells_iff v p.value).2 hv, hlive⟩
    · rintro ⟨t', p, rfl, hp, hv, hlive⟩
      exact ⟨_, ⟨p, hp, rfl⟩, (spells_iff v p.value).1 hv, hlive⟩

/-- Where nothing else spells the key, the entry is found by its text exactly when key and value are ASCII. -/
theorem firstSpells_iff_ascii {c : RdbContent} (hstored : Stores c k v) {t : RdbTable} (ht : c.tables.head? = some t)
    (hindex : t.index = 0) (honly : ∀ p ∈ t.pairs, p.key.Spells k → p.key = .raw (encode k)) :
    FirstSpells now c k v ↔ Ascii k ∧ Ascii v := by
  obtain ⟨t', hfind, hlast⟩ := hstored
  obtain rfl : t' = t := by
    cases htables : c.tables with
    | nil => rw [htables] at ht; cases ht
    | cons t₀ ts =>
      rw [htables] at ht hfind
      cases ht
      rw [List.find?_cons_of_pos (by simpa using hindex)] at hfind
      exact (Option.some.inj hfind).symm
  constructor
  · rintro ⟨t₁, p, ht₁, hp, hv, -⟩
    cases ht.symm.trans ht₁
    have hkey := honly p hp.mem.1 hp.mem.2
    have hk : Ascii k := (encode_eq_iff k).1 (by have := hp.mem.2; rwa [hkey] at this)
    -- the entry stored for the key spells it as well, so both are the same entry
    obtain rfl := hp.unique hlast ((encode_eq_iff k).2 hk) (by rw [hkey]; rfl)
    exact ⟨hk, (encode_eq_iff v).1 hv⟩
  · rintro ⟨hk, hv⟩
    have hspelled := hlast.imp (Q := fun p => p.key.Spells k) ((encode_eq_iff k).2 hk) (fun p hp hspells => by
      rw [honly p hp hspells]
      rfl)
    refine ⟨t', _, ht, hspelled, (encode_eq_iff v).2 hv, fun i hi => ?_⟩
    cases hi

/-- **A `GET` is answered with the stored text exactly when the file's first database spells it**; where that is database
`0` and nothing else spells the key, exactly when key and value are ASCII. -/
theorem get_text_iff {c : RdbContent} {bytes : List UInt8} (h : ContentForm (TableForm 0xfb) c bytes)
    (rest : List UInt8) (hstored : Stores c k v) :
    (Fetched regex now (bytes ++ rest) k v ↔ FirstSpells now c k v) ∧
      ∀ t, c.tables.head? = some t → t.index = 0 → (∀ p ∈ t.pairs, p.key.Spells k → p.key = .raw (encode k)) →
        (Fetched regex now (bytes ++ rest) k v ↔ Ascii k ∧ Ascii v) := by
  have hspelled : Fetched regex now (bytes ++ rest) k v ↔ FirstSpells now c k v :=
    fetched_iff_firstSpells regex (h.readRdb (fun _ _ ht => ⟨0xfb, ht⟩) rest)
  exact ⟨hspelled, fun t ht hindex honly => hspelled.trans (firstSpells_iff_ascii hstored ht hindex honly)⟩

end

def RdbContent.texts (k v : List Char) : RdbContent := .single (.raw (encode k)) (.raw (encode v))

theorem stores_texts (k v : List Char) : Stores (.texts k v) k v := ⟨_, rfl, .here rfl nofun⟩

def RdbContent.textBytes (k v : List Char) : List UInt8 :=
  encode "REDIS".toList ++ [48, 48, 49, 49, 0xfe, 0, 0xfb, 1, 0, 0x00] ++
    ([UInt8.ofNat (encode k).length] ++ encode k ++ ([UInt8.ofNat (encode v).length] ++ encode v)) ++ [0xff]

theorem contentForm_texts {k v : List Char} (hk : (encode k).length < 64) (hv : (encode v).length < 64) :
    ContentForm (TableForm 0xfb) (.texts k v) (RdbContent.textBytes k v) :=
  contentForm_single 0xfb (.raw (.six hk)) (.raw (.six hv))

theorem get_text_plain :
    (Fetched (fun _ => none) 0 (RdbContent.textBytes ['k'] ['v'] ++ []) ['k'] ['v'] ↔
      FirstSpells 0 (.texts ['k'] ['v']) ['k'] ['v']) ∧
    ∀ t, (RdbContent.texts ['k'] ['v']).tables.head? = some t → t.index = 0 →
      (∀ p ∈ t.pairs, p.key.Spells ['k'] → p.key = .raw (encode ['k'])) →
        (Fetched (fun _ => none) 0 (RdbContent.textBytes ['k'] ['v'] ++ []) ['k'] ['v'] ↔ Ascii ['k'] ∧ Ascii ['v']) :=
  get_text_iff _ (contentForm_texts (by decide) (by decide)) [] (stores_texts ['k'] ['v'])

/-- **The two bytes of `é` are loaded as two characters.** -/
theorem get_text_wide : ¬ ∀ (regex : List Char → Option (List Char → Bool)) (now : SystemTime) (c : RdbContent)
    (bytes rest : List UInt8) (k v : List Char), ContentForm (TableForm 0xfb) c bytes → Stores c k v →
      Fetched regex now (bytes ++ rest) k v := by
  intro h
  have hform : ContentForm (TableForm 0xfb) (.texts ['k'] ['é']) (RdbContent.textBytes ['k'] ['é']) :=
    contentForm_texts (by decide) (by decide)
  have hfetched := h (fun _ => none) 0 _ _ [] ['k'] ['é'] hform (stores_texts ['k'] ['é'])
  obtain ⟨t, p, ht, hp, hv, -⟩ := (fetched_iff_firstSpells _ (hform.readRdb (fun _ _ ht => ⟨0xfb, ht⟩) [])).1 hfetched
  cases ht
  obtain rfl := List.mem_singleton.1 hp.mem.1
  have hcodes : [195, 169] = [233] := hv
  cases hcodes

end Rusdis
