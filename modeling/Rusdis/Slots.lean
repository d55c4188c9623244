import Rusdis.Admin
import Rusdis.RdbImage
/-!
# Slots — where the databases of a file go

`Admin::new` puts a database where it stands in the file, whatever its index.  Every index then shows the pairs stored
under it exactly when the file is `InOrder` as far as those pairs can tell (`loaded_iff`).
-/
namespace Rusdis

open Utf8

/-! ## The pairs of a dataset -/

/-- The last pair of a key. -/
def lastPair (key : List Char) : List (List Char × ValueType × Option SystemTime) → Option StringData
  | []      => none
  | p :: ps => (lastPair key ps).or (if p.1 = key then some (stringDataOf p.2) else none)

theorem lookup_foldl_insert (key : List Char) : ∀ (ps : List (List Char × ValueType × Option SystemTime)) (m : DataMap),
    (ps.foldl (fun m p => m.insert p.1 (stringDataOf p.2)) m).lookup key = (lastPair key ps).or (m.lookup key)
  | [], m => by rw [List.foldl_nil, lastPair, Option.none_or]
  | p :: ps, m => by
    rw [List.foldl_cons, lookup_foldl_insert key ps, lastPair, Option.or_assoc]
    congr 1
    by_cases hk : p.1 = key
    · subst hk
      rw [AList.lookup_insert, if_pos rfl, Option.some_or]
    · rw [AList.lookup_insert_ne (Ne.symm hk), if_neg hk, Option.none_or]

theorem lookup_collectMap (key : List Char) (d : Dataset) : (collectMap d).lookup key = lastPair key d.pairs := by
  rw [collectMap, lookup_foldl_insert, AList.lookup_empty, Option.or_none]

/-! ## What a slot shows after loading -/

/-- What the file stores under an index. -/
def stored (f : RdbImage) (i : Nat) (key : List Char) : Option StringData :=
  (f.databases.find? (fun db => db.index = i)).bind (fun db => lastPair key db.dataset.pairs)

/-- What the file has in a place of its list. -/
def placed (f : RdbImage) (p : Nat) (key : List Char) : Option StringData :=
  (f.databases[p]?).bind (fun db => lastPair key db.dataset.pairs)

/-- The slot an index selects: its own, or the first when there is none. -/
def slotOf (f : RdbImage) (i : Nat) : Nat := if i < max f.databases.length 16 then i else 0

theorem slots_file (f : RdbImage) : slots f.file.datasets = max f.databases.length 16 := by
  rw [slots, RdbImage.file, List.length_map]

/-- **A slot shows what stands in its place of the file.** -/
theorem lookup_select_datasets (datasets : List Dataset) {p : Nat} (hp : p < slots datasets) (key : List Char) :
    (((Store.new datasets).select p).map).lookup key = (datasets[p]?).bind (fun d => lastPair key d.pairs) := by
  have hmap := map_select (Store.of_run datasets []) hp
  change (newDatabases datasets).1[slotRef datasets p]? = some ((Store.new datasets).select p).map at hmap
  rw [heap_newDatabases] at hmap
  by_cases hpre : p < datasets.length
  · rw [slotRef, if_pos hpre, List.getElem?_cons_succ, List.getElem?_map, List.getElem?_eq_getElem hpre] at hmap
    rw [← Option.some.inj hmap, lookup_collectMap, List.getElem?_eq_getElem hpre]
    rfl
  · rw [slotRef, if_neg hpre, List.getElem?_cons_zero] at hmap
    rw [← Option.some.inj hmap, List.getElem?_eq_none (Nat.le_of_not_lt hpre)]
    exact AList.lookup_empty key

theorem lookup_select (f : RdbImage) {p : Nat} (hp : p < slots f.file.datasets) (key : List Char) :
    (((Store.new f.file.datasets).select p).map).lookup key = placed f p key := by
  rw [lookup_select_datasets f.file.datasets hp, placed, RdbImage.file, List.getElem?_map, Option.bind_map]
  rfl

theorem Store.map_congr {s s' : Store} (hheap : s.heap = s'.heap) (hadmin : s.admin = s'.admin) : s.map = s'.map := by
  obtain ⟨heap, admin, live⟩ := s
  obtain ⟨heap', admin', live'⟩ := s'
  cases hheap
  cases hadmin
  rfl

theorem select_zero (datasets : List Dataset) : ((Store.new datasets).select 0).map = (Store.new datasets).map :=
  Store.map_congr rfl (dif_pos (Store.new datasets).admin.inRange)

/-- **What an index shows** stands in the place of its slot. -/
theorem lookup_select_index (f : RdbImage) (i : Nat) (key : List Char) :
    (((Store.new f.file.datasets).select i).map).lookup key = placed f (slotOf f i) key := by
  have hslots := slots_file f
  by_cases hi : i < max f.databases.length 16
  · rw [slotOf, if_pos hi]
    exact lookup_select f (by rwa [hslots]) key
  · have hlen : ¬ i < (Store.new f.file.datasets).admin.databases.length := by
      change ¬ i < (newDatabases f.file.datasets).2.length
      rwa [length_newDatabases, hslots]
    have hstay : ((Store.new f.file.datasets).select i).map = (Store.new f.file.datasets).map :=
      Store.map_congr rfl (dif_neg hlen)
    rw [slotOf, if_neg hi, hstay, ← select_zero]
    exact lookup_select f (by rw [hslots]; omega) key

/-! ## Loading a file -/

/-- The indices a file is asked for: those it mentions, and the first sixteen. -/
def Asked (f : RdbImage) (i : Nat) : Prop := i ∈ f.databases.map RdbDatabase.index ∨ i < 16

/-- After loading these bytes every index shows what the file stores under it. -/
def Loaded (f : RdbImage) (bytes : List UInt8) : Prop :=
  ∃ file, readRdb bytes = .ok file ∧
    ∀ i, Asked f i → ∀ key, (((Store.new file.datasets).select i).map).lookup key = stored f i key

/-- What stands in the place of an index is what the file stores under it. -/
def InOrder (f : RdbImage) : Prop := ∀ i, Asked f i → ∀ key, placed f (slotOf f i) key = stored f i key

theorem Loaded.inOrder {f : RdbImage} {bytes : List UInt8} (hread : readRdb bytes = .ok f.file) (h : Loaded f bytes) :
    InOrder f := by
  obtain ⟨file, hfile, hall⟩ := h
  cases hread.symm.trans hfile
  exact fun i hi key => (lookup_select_index f i key).symm.trans (hall i hi key)

/-- **A file's databases land in their own slots exactly when they stand in order.** -/
theorem loaded_iff {f : RdbImage} {bytes : List UInt8} (h : Written f bytes) (rest : List UInt8) :
    Loaded f (bytes ++ rest) ↔ InOrder f := by
  refine ⟨Loaded.inOrder (h.readRdb rest), fun horder => ⟨f.file, h.readRdb rest, fun i hi key => ?_⟩⟩
  exact (lookup_select_index f i key).trans (horder i hi key)

theorem find?_index : ∀ (dbs : List RdbDatabase) (k i : Nat),
    (∀ (p : Nat) (db : RdbDatabase), dbs[p]? = some db → db.index = k + p) → dbs.find? (fun db => db.index = k + i) = dbs[i]?
  | [], _, _, _ => rfl
  | db :: dbs, k, i, h => by
    have hdb : db.index = k := h 0 db rfl
    cases i with
    | zero => rw [List.find?_cons_of_pos (by simpa using hdb), List.getElem?_cons_zero]
    | succ i =>
      have ih := find?_index dbs (k + 1) i (fun p db' hp => by
        have := h (p + 1) db' (by rwa [List.getElem?_cons_succ])
        omega)
      rw [List.find?_cons_of_neg (by simp [hdb]), List.getElem?_cons_succ, ← ih, Nat.add_assoc, Nat.add_comm 1 i]

/-- **Databases numbered by their places are in order.** -/
theorem inOrder_of_places {f : RdbImage} (h : ∀ (p : Nat) (db : RdbDatabase), f.databases[p]? = some db → db.index = p) :
    InOrder f := by
  intro i hi key
  have hslot : slotOf f i = i := by
    rcases hi with hi | hi
    · obtain ⟨db, hdb, rfl⟩ := List.mem_map.1 hi
      obtain ⟨p, hp⟩ := List.mem_iff_getElem?.1 hdb
      rw [h p db hp, slotOf, if_pos]
      have := (List.getElem?_eq_some_iff.1 hp).1
      omega
    · exact if_pos (by omega)
  have hfind := find?_index f.databases 0 i (fun p db hp => by rw [h p db hp, Nat.zero_add])
  rw [Nat.zero_add] at hfind
  rw [hslot, placed, stored, hfind]

def RdbImage.first : RdbImage := .of [] [⟨0, [⟨[107], [118], .none⟩, ⟨[107], [119], .none⟩]⟩]

theorem loaded_first : Loaded RdbImage.first (encode "REDIS".toList ++ [48, 48, 49, 49, 0xfe, 0, 0xfb, 2, 0,
    0x00, 1, 107, 1, 118, 0x00, 1, 107, 1, 119, 0xff, 7]) := by
  have hwritten : Written RdbImage.first _ := .mk .nil (.cons (.mk (.six (by decide)) (.six (by decide)) (Nat.zero_le 2)
    (.six (by decide)) (.cons (.mk (.mk (.six (by decide))) (.mk (.six (by decide))))
      (.cons (.mk (.mk (.six (by decide))) (.mk (.six (by decide)))) .nil))) .nil)
  refine (loaded_iff hwritten [7]).2 (inOrder_of_places (fun p db hp => ?_))
  match p, hp with
  | 0, hp => cases hp; rfl

/-- A database after another that is not there. -/
def RdbImage.second : RdbImage := .of [] [⟨1, [⟨[107], [118], .none⟩]⟩]

/-- **The index is not looked at.** -/
theorem loaded_second : ¬ ∀ (f : RdbImage) (bytes : List UInt8), Written f bytes →
    (f.databases.map RdbDatabase.index).Nodup → Loaded f bytes := by
  intro h
  have hwritten : Written RdbImage.second _ := .mk .nil (.cons (.mk (.six (by decide)) (.six (by decide)) (Nat.zero_le 1)
    (.six (by decide)) (.cons (.mk (.mk (.six (by decide))) (.mk (.six (by decide)))) .nil)) .nil)
  have hread := hwritten.readRdb []
  rw [List.append_nil] at hread
  have horder := (h RdbImage.second _ hwritten (by decide)).inOrder hread
  have hone := horder 1 (Or.inr (by decide)) ['k']
  revert hone
  decide +kernel

end Rusdis
