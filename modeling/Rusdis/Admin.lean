import Rusdis.Rdb
/-!
# Admin — the databases and who shares them

A map behind an `Arc` is a reference into a list of maps: cloning copies the reference, `Arc::new` adds a map.  After
`Admin::new` a preloaded slot has a map of its own, and all other slots have one and the same (`stringData_new`), so two
databases are isolated exactly when one of them was preloaded (`isolated_iff`).
-/
namespace Rusdis

/-- `Arc::new(Mutex::new(m))`. -/
def arcNew (m : DataMap) (heap : List DataMap) : List DataMap × Nat := (heap ++ [m], heap.length)

structure Database where
  stringData : Nat
  deriving DecidableEq, Repr

structure Admin where
  databases : List Database
  curIdx : Nat
  inRange : curIdx < databases.length

def stringDataOf : ValueType × Option SystemTime → StringData
  | (.string s, expiration) => ⟨s, expiration⟩

/-- The pairs collected into a map; the last of a key stays. -/
def collectMap (d : Dataset) : DataMap := d.pairs.foldl (fun m p => m.insert p.1 (stringDataOf p.2)) ∅

def placeDatasets : Nat → List Dataset → List DataMap → List Database → List DataMap × List Database
  | _,   [],                  heap, databases => (heap, databases)
  | idx, dataset :: datasets, heap, databases =>
    let (heap, stringData) := arcNew (collectMap dataset) heap
    placeDatasets (idx + 1) datasets heap (databases.set idx ⟨stringData⟩)

theorem placeDatasets_heap : ∀ (idx : Nat) (datasets : List Dataset) (heap : List DataMap) (databases : List Database),
    (placeDatasets idx datasets heap databases).1 = heap ++ datasets.map collectMap
  | _, [], heap, _ => (List.append_nil heap).symm
  | idx, dataset :: datasets, heap, databases => by
    rw [placeDatasets, arcNew, placeDatasets_heap, List.map_cons, List.append_assoc, List.singleton_append]

theorem placeDatasets_length : ∀ (idx : Nat) (datasets : List Dataset) (heap : List DataMap)
    (databases : List Database), (placeDatasets idx datasets heap databases).2.length = databases.length
  | _, [], _, _ => rfl
  | idx, dataset :: datasets, heap, databases => by
    rw [placeDatasets, arcNew, placeDatasets_length, List.length_set]

/-- **Each dataset is put in its place in the list**, behind a reference of its own. -/
theorem placeDatasets_get : ∀ (idx : Nat) (datasets : List Dataset) (heap : List DataMap) (databases : List Database)
    (k : Nat), k < databases.length → (placeDatasets idx datasets heap databases).2[k]? =
      if idx ≤ k ∧ k < idx + datasets.length then some ⟨heap.length + (k - idx)⟩ else databases[k]?
  | idx, [], heap, databases, k, hk => by
    rw [placeDatasets, if_neg (by simp)]
  | idx, dataset :: datasets, heap, databases, k, hk => by
    rw [placeDatasets, arcNew, placeDatasets_get _ _ _ _ k (by rwa [List.length_set]), List.length_append,
      List.length_singleton, List.length_cons]
    by_cases hidx : idx = k
    · subst hidx
      rw [if_neg (by omega), if_pos (by omega), List.getElem?_set_self hk, Nat.sub_self]
      rfl
    · rw [List.getElem?_set_ne hidx]
      by_cases hrange : idx + 1 ≤ k ∧ k < idx + 1 + datasets.length
      · rw [if_pos hrange, if_pos (by omega), show heap.length + 1 + (k - (idx + 1)) = heap.length + (k - idx) by omega]
      · rw [if_neg hrange, if_neg (by omega)]

/-- `vec![Database::default(); length]`: clones of one default database. -/
def defaultDatabases (length : Nat) : List DataMap × List Database :=
  let (heap, stringData) := arcNew ∅ []
  (heap, List.replicate length ⟨stringData⟩)

def slots (preload : List Dataset) : Nat := max preload.length 16

def newDatabases (preload : List Dataset) : List DataMap × List Database :=
  let (heap, databases) := defaultDatabases (slots preload)
  placeDatasets 0 preload heap databases

theorem length_newDatabases (preload : List Dataset) : (newDatabases preload).2.length = slots preload := by
  rw [newDatabases, defaultDatabases, arcNew, placeDatasets_length, List.length_replicate]

theorem heap_newDatabases (preload : List Dataset) : (newDatabases preload).1 = ∅ :: preload.map collectMap := by
  rw [newDatabases, defaultDatabases, arcNew, placeDatasets_heap]
  rfl

/-- The map a slot refers to: its own when it was preloaded, else the first. -/
def slotRef (preload : List Dataset) (k : Nat) : Nat := if k < preload.length then k + 1 else 0

theorem getElem_newDatabases (preload : List Dataset) {k : Nat} (hk : k < slots preload) :
    (newDatabases preload).2[k]? = some ⟨slotRef preload k⟩ := by
  rw [newDatabases, defaultDatabases, arcNew, placeDatasets_get _ _ _ _ k (by rwa [List.length_replicate])]
  by_cases hpre : k < preload.length
  · rw [if_pos (by omega), slotRef, if_pos hpre]
    simp [Nat.add_comm]
  · rw [if_neg (by omega), slotRef, if_neg hpre, List.getElem?_replicate, if_pos hk]
    rfl

def Admin.new (preload : List Dataset) : Admin where
  databases := (newDatabases preload).2
  curIdx := 0
  inRange := by rw [length_newDatabases, slots]; omega

def Admin.selectDatabase (idx : Nat) (a : Admin) : Admin :=
  if h : idx < a.databases.length then { a with curIdx := idx, inRange := h } else a

def Admin.getStringDataMap (a : Admin) : Nat := (a.databases.get ⟨a.curIdx, a.inRange⟩).stringData

theorem Admin.databases_selectDatabase (idx : Nat) (a : Admin) : (a.selectDatabase idx).databases = a.databases := by
  unfold Admin.selectDatabase
  split <;> rfl

theorem Admin.curIdx_selectDatabase {idx : Nat} {a : Admin} (h : idx < a.databases.length) :
    (a.selectDatabase idx).curIdx = idx := by
  rw [Admin.selectDatabase, dif_pos h]

/-! ## The maps behind the references -/

structure Store where
  heap : List DataMap
  admin : Admin
  live : ∀ db ∈ admin.databases, db.stringData < heap.length

theorem live_new (preload : List Dataset) :
    ∀ db ∈ (Admin.new preload).databases, db.stringData < (newDatabases preload).1.length := by
  intro db hdb
  obtain ⟨k, hk⟩ := List.mem_iff_getElem?.1 hdb
  have hlt : k < slots preload := by
    have := (List.getElem?_eq_some_iff.1 hk).1
    rwa [Admin.new, length_newDatabases] at this
  have hget := (getElem_newDatabases preload hlt).symm.trans hk
  cases hget
  change slotRef preload k < _
  rw [heap_newDatabases, List.length_cons, List.length_map, slotRef]
  split <;> omega

def Store.new (preload : List Dataset) : Store := ⟨(newDatabases preload).1, Admin.new preload, live_new preload⟩

def Store.select (idx : Nat) (s : Store) : Store where
  heap := s.heap
  admin := s.admin.selectDatabase idx
  live := by rw [Admin.databases_selectDatabase]; exact s.live

/-- The map reached from the selected database. -/
def Store.map (s : Store) : DataMap := s.heap.get ⟨s.admin.getStringDataMap, s.live _ (List.get_mem _ _)⟩

def Store.modify (f : DataMap → DataMap) (s : Store) : Store where
  heap := s.heap.modify s.admin.getStringDataMap f
  admin := s.admin
  live := by rw [List.length_modify]; exact s.live

inductive Op where
  | select (idx : Nat)
  | insert (key : List Char) (d : StringData)
  | remove (key : List Char)
  deriving DecidableEq, Repr

def Op.IsWrite : Op → Prop
  | .select _ => False
  | _         => True

def Op.apply (op : Op) (s : Store) : Store :=
  match op with
  | .select idx   => s.select idx
  | .insert key d => s.modify (·.insert key d)
  | .remove key   => s.modify (·.erase key)

def Store.run (ops : List Op) (s : Store) : Store := ops.foldl (fun s op => op.apply s) s

/-! ## Which slots share a map -/

theorem Store.getElem_map (s : Store) : s.heap[s.admin.getStringDataMap]? = some s.map := by
  rw [Store.map, List.get_eq_getElem]
  exact List.getElem?_eq_getElem _

theorem Op.databases_apply (op : Op) (s : Store) : (op.apply s).admin.databases = s.admin.databases := by
  cases op with
  | select idx => exact Admin.databases_selectDatabase idx s.admin
  | insert | remove => rfl

theorem Store.databases_run : ∀ (ops : List Op) (s : Store), (s.run ops).admin.databases = s.admin.databases
  | [], _ => rfl
  | op :: ops, s => (Store.databases_run ops (op.apply s)).trans (op.databases_apply s)

section
variable {preload : List Dataset} {s : Store}

/-- The databases are those the store was made with. -/
def Store.Of (preload : List Dataset) (s : Store) : Prop := s.admin.databases = (newDatabases preload).2

theorem Store.of_run (preload : List Dataset) (ops : List Op) : ((Store.new preload).run ops).Of preload :=
  Store.databases_run ops _

theorem stringData_select (hs : s.Of preload) {idx : Nat} (hidx : idx < slots preload) :
    (s.select idx).admin.getStringDataMap = slotRef preload idx := by
  have hlt : idx < s.admin.databases.length := by rwa [hs, length_newDatabases]
  have hget : (s.select idx).admin.databases[(s.select idx).admin.curIdx]? = some ⟨slotRef preload idx⟩ := by
    rw [Store.select, Admin.curIdx_selectDatabase hlt, Admin.databases_selectDatabase, hs,
      getElem_newDatabases preload hidx]
  rw [Admin.getStringDataMap, List.get_eq_getElem, (List.getElem_eq_iff _).2 hget]

/-- **What a selected slot shows** is the map it refers to. -/
theorem map_select (hs : s.Of preload) {idx : Nat} (hidx : idx < slots preload) :
    s.heap[slotRef preload idx]? = some (s.select idx).map := by
  rw [← stringData_select hs hidx]
  exact Store.getElem_map (s.select idx)

/-- **A write is seen through every slot of the same reference** and through no other. -/
theorem map_modify (hs : s.Of preload) {i j : Nat} (hi : i < slots preload) (hj : j < slots preload)
    (f : DataMap → DataMap) : (((s.select i).modify f).select j).map =
      if slotRef preload i = slotRef preload j then f (s.select j).map else (s.select j).map := by
  have hs' : ((s.select i).modify f).Of preload := (Admin.databases_selectDatabase i s.admin).trans hs
  have hheap : ((s.select i).modify f).heap = s.heap.modify (slotRef preload i) f := by
    rw [← stringData_select hs hi]
    rfl
  have hseen := map_select hs' hj
  rw [hheap, List.getElem?_modify, map_select hs hj] at hseen
  apply Option.some.inj
  rw [← hseen]
  split <;> rfl

end

/-- A write through the one database is not seen through the other, after any run. -/
def Isolated (preload : List Dataset) (i j : Nat) : Prop :=
  ∀ (ops : List Op) (w : Op), w.IsWrite →
    ((w.apply (((Store.new preload).run ops).select i)).select j).map = (((Store.new preload).run ops).select j).map

theorem slotRef_eq_iff (preload : List Dataset) {i j : Nat} (hij : i ≠ j) :
    slotRef preload i = slotRef preload j ↔ ¬ (i < preload.length ∨ j < preload.length) := by
  unfold slotRef
  split <;> split <;> omega

/-- **Two databases are isolated exactly when one of them was preloaded.** -/
theorem isolated_iff (preload : List Dataset) {i j : Nat} (hij : i ≠ j) (hi : i < (Admin.new preload).databases.length)
    (hj : j < (Admin.new preload).databases.length) :
    Isolated preload i j ↔ i < preload.length ∨ j < preload.length := by
  rw [Admin.new, length_newDatabases] at hi hj
  constructor
  · intro h
    by_contra hshared
    have hseen := h [] (.insert ['k'] ⟨[], none⟩) trivial
    have hmodify := (map_modify (Store.of_run preload []) hi hj (fun m => m.insert ['k'] ⟨[], none⟩)).trans
      (if_pos ((slotRef_eq_iff preload hij).2 hshared))
    have hempty := map_select (Store.of_run preload []) hj
    rw [slotRef, if_neg (fun hpre => hshared (Or.inr hpre))] at hempty
    change (newDatabases preload).1[0]? = _ at hempty
    rw [heap_newDatabases, List.getElem?_cons_zero, Option.some.injEq] at hempty
    rw [← hempty] at hseen hmodify
    have hinsert := congrArg (AList.lookup ['k']) (hmodify.symm.trans hseen)
    rw [AList.lookup_insert, AList.lookup_empty] at hinsert
    cases hinsert
  · intro h ops w hw
    have hne : ¬ slotRef preload i = slotRef preload j := fun heq => (slotRef_eq_iff preload hij).1 heq h
    cases w with
    | select => exact absurd hw id
    | insert key d => exact (map_modify (Store.of_run preload ops) hi hj _).trans (if_neg hne)
    | remove key => exact (map_modify (Store.of_run preload ops) hi hj _).trans (if_neg hne)

theorem isolated_preloaded : Isolated [⟨[]⟩] 0 5 ↔ 0 < 1 ∨ 5 < 1 :=
  isolated_iff [⟨[]⟩] (by decide) (by decide) (by decide)

/-- Databases `0` and `1` of an empty server. -/
theorem isolated_default : ¬ ∀ (preload : List Dataset) (i j : Nat), i ≠ j → i < (Admin.new preload).databases.length →
    j < (Admin.new preload).databases.length → Isolated preload i j := by
  intro h
  have hseen := h [] 0 1 (by decide) (by decide) (by decide) [] (.insert ['k'] ⟨[], none⟩) trivial
  have hlookup := congrArg (AList.lookup ['k']) hseen
  revert hlookup
  decide +kernel

end Rusdis
