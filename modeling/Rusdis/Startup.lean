import Rusdis.Admin
import Rusdis.Tasks
/-!
# Startup — the load of `main` beside the task of `connect_master`

The replication task fetches the handle of the map `ADMIN` reaches and inserts into it in a later step; meanwhile `main`
reads the RDB file and puts a new `Admin` in place of the old.  A `SET` inserted before stays in the old map, and so
does one whose handle was fetched before.  The runs in which every `SET` stays visible are those without such a step
(`startup_iff`).
-/
namespace Rusdis

open Steps Utf8

/-! ## A new `Admin` -/

/-- The databases moved behind the maps already there. -/
def Admin.shift (n : Nat) (a : Admin) : Admin where
  databases := a.databases.map (fun db => ⟨n + db.stringData⟩)
  curIdx := a.curIdx
  inRange := by rw [List.length_map]; exact a.inRange

/-- `*admin_handle = Admin::new(preload)`: the maps of the old one stay for who holds a handle. -/
def Store.renew (preload : List Dataset) (s : Store) : Store where
  heap := s.heap ++ (newDatabases preload).1
  admin := (Admin.new preload).shift s.heap.length
  live := by
    intro db hdb
    obtain ⟨db', hdb', rfl⟩ := List.mem_map.1 hdb
    have := live_new preload db' hdb'
    rw [List.length_append]
    exact Nat.add_lt_add_left this _

theorem Admin.getStringDataMap_shift (n : Nat) (a : Admin) : (a.shift n).getStringDataMap = n + a.getStringDataMap := by
  simp [Admin.getStringDataMap, Admin.shift]

/-- **A new `Admin` reaches the map it was made with.** -/
theorem Store.map_renew (preload : List Dataset) (s : Store) : (s.renew preload).map = (Store.new preload).map := by
  have hnew := (Store.new preload).getElem_map
  have hrenew := (s.renew preload).getElem_map
  rw [Store.renew, Admin.getStringDataMap_shift, List.getElem?_append_right (Nat.le_add_right _ _),
    Nat.add_sub_cancel_left] at hrenew
  exact Option.some.inj (hrenew.symm.trans hnew)

/-- An insert through a handle. -/
def Store.insertAt (map : Nat) (key : List Char) (d : StringData) (s : Store) : Store where
  heap := s.heap.modify map (·.insert key d)
  admin := s.admin
  live := by rw [List.length_modify]; exact s.live

theorem Store.map_insertAt (map : Nat) (key : List Char) (d : StringData) (s : Store) :
    (s.insertAt map key d).map = if map = s.admin.getStringDataMap then s.map.insert key d else s.map := by
  have hseen := (s.insertAt map key d).getElem_map
  have hheap : (s.insertAt map key d).heap = s.heap.modify map (·.insert key d) := rfl
  have href : (s.insertAt map key d).admin.getStringDataMap = s.admin.getStringDataMap := rfl
  rw [hheap, href, List.getElem?_modify, s.getElem_map] at hseen
  rw [← Option.some.inj hseen]

/-! ## The two tasks -/

/-- A program point of `main` after `connect_master`, by the step it takes next. -/
inductive MainPc where
  | loading
  | parsed (datasets : List Dataset)
  | listening

/-- A program point of the replication task; `map` is the handle it fetched. -/
inductive ReplicaPc where
  | idle
  | set (key value : List Char) (px : Option UInt64)
  | ready (w : Setting)
  | fetched (w : Setting) (map : Nat)

/-- The maps and what `ADMIN` holds, the two tasks, and the `SET`s executed so far. -/
structure Startup where
  store : Store
  main : MainPc
  replica : ReplicaPc
  executed : List Setting

inductive Startup.Act where
  | receive (key value : List Char) (px : Option UInt64)
  | replica (now : SystemTime)
  | main

def Startup.start : Startup := ⟨Store.new [], .loading, .idle, []⟩

section
variable (file : Option (List UInt8))

/-- The load: `file` is what `--dir` and `--dbfilename` name, none when it cannot be opened. -/
def Startup.load (s : Startup) : Option Startup :=
  match s.main with
  | .loading =>
    match file with
    | none     => some { s with main := .listening }
    | some buf =>
      match readRdb buf with
      | .ok rdbFile => some { s with main := .parsed rdbFile.datasets }
      | .error _    => some { s with main := .listening }
  | .parsed datasets => some { s with store := s.store.renew datasets, main := .listening }
  | .listening => none

/-- The `SET` arm of `execute_multi_commands`, on a replica. -/
def Startup.advance (now : SystemTime) (s : Startup) : Option Startup :=
  match s.replica with
  | .idle => none
  | .set key value px =>
    match Setting.compute now key value px with
    | none   => some { s with replica := .idle }
    | some w => some { s with replica := .ready w }
  | .ready w => some { s with replica := .fetched w s.store.admin.getStringDataMap }
  | .fetched w map =>
    some { s with
      store := s.store.insertAt map w.key ⟨w.value, w.expiration⟩
      replica := .idle
      executed := s.executed ++ [w] }

def Startup.step (s : Startup) : Startup.Act → Option Startup
  | .receive key value px =>
    match s.replica with
    | .idle => some { s with replica := .set key value px }
    | _     => none
  | .replica now => s.advance now
  | .main => s.load file

end

/-- **A `SET` whose steps nothing comes between does to the map reached what `execute` does.** -/
theorem Startup.run_set (file : Option (List UInt8)) {s : Startup} (hidle : s.replica = .idle) {now : SystemTime}
    {px : Option UInt64} {e : Option SystemTime} (h : setExpiration now px = some e) (key value : List Char)
    {σ : Server} (hσ : σ.map = s.store.map) :
    ∃ s', run (Startup.step file) (.receive key value px :: List.replicate 3 (.replica now)) s = some s' ∧
      s'.store.map = (executeSet now key value px σ).1.map ∧ s'.replica = .idle := by
  obtain ⟨store, main, replica, executed⟩ := s
  obtain rfl : replica = .idle := hidle
  refine ⟨⟨store.insertAt store.admin.getStringDataMap key ⟨value, e⟩, main, .idle,
    executed ++ [⟨key, value, px, e, now, h⟩]⟩, ?_, ?_, rfl⟩
  · have hcompute : Startup.advance now ⟨store, main, .set key value px, executed⟩ =
        some ⟨store, main, .ready ⟨key, value, px, e, now, h⟩, executed⟩ := by
      unfold Startup.advance
      simp only [compute_of_some h]
    have hreceive : Startup.step file ⟨store, main, .idle, executed⟩ (.receive key value px) =
        some ⟨store, main, .set key value px, executed⟩ := rfl
    rw [run_cons hreceive, List.replicate_succ, run_cons hcompute]
    rfl
  · rw [Store.map_insertAt, if_pos rfl, executeSet_map h, hσ]

/-! ## What stays visible -/

def Setting.In (m : DataMap) (w : Setting) : Prop := m.lookup w.key = some ⟨w.value, w.expiration⟩

def lastSet (key : List Char) (executed : List Setting) : Option Setting :=
  executed.reverse.find? (fun w => w.key = key)

/-- The map holds the last `SET` of every key. -/
def ShownIn (m : DataMap) (executed : List Setting) : Prop := ∀ key, ∀ w ∈ lastSet key executed, w.In m

/-- **Every executed `SET` is visible through `ADMIN`**, until a later one of its key. -/
def Startup.Visible (s : Startup) : Prop := ShownIn s.store.map s.executed

/-- The step neither discards a map that has what the new one lacks nor inserts through an old handle what the map
reached now lacks. -/
def Startup.Current (s : Startup) : Startup.Act → Prop
  | .receive _ _ _ => True
  | .replica _ =>
    ∀ w map, s.replica = .fetched w map → map = s.store.admin.getStringDataMap ∨ w.In s.store.map
  | .main => ∀ datasets, s.main = .parsed datasets → ShownIn (Store.new datasets).map s.executed

theorem lastSet_concat (key : List Char) (executed : List Setting) (w : Setting) :
    lastSet key (executed ++ [w]) = if w.key = key then some w else lastSet key executed := by
  rw [lastSet, List.reverse_append, List.reverse_singleton, List.singleton_append, List.find?_cons]
  by_cases h : w.key = key <;> simp [h, lastSet]

/-- **An insert keeps every `SET` visible exactly when it is into the map reached**, or that has its entry already. -/
theorem shownIn_insertAt {s : Store} {executed : List Setting} (h : ShownIn s.map executed) (w : Setting) (map : Nat) :
    ShownIn (s.insertAt map w.key ⟨w.value, w.expiration⟩).map (executed ++ [w]) ↔
      map = s.admin.getStringDataMap ∨ w.In s.map := by
  rw [Store.map_insertAt]
  constructor
  · intro hshown
    have hw := hshown w.key w (by rw [lastSet_concat, if_pos rfl]; rfl)
    by_cases hmap : map = s.admin.getStringDataMap
    · exact Or.inl hmap
    · rw [if_neg hmap] at hw
      exact Or.inr hw
  · rintro hcases key v hv
    rw [lastSet_concat] at hv
    by_cases hmap : map = s.admin.getStringDataMap
    · rw [if_pos hmap]
      split at hv
      · obtain rfl := Option.some.inj hv
        exact AList.lookup_insert s.map
      · rename_i hne
        have hkey : v.key = key := by simpa using List.find?_some hv
        exact (AList.lookup_insert_ne (fun hk => hne (hk.symm.trans hkey))).trans (h key v hv)
    · rw [if_neg hmap]
      split at hv
      · obtain rfl := Option.some.inj hv
        exact hcases.resolve_left hmap
      · exact h key v hv

variable {file : Option (List UInt8)} {s s' : Startup} {a : Startup.Act}

/-- **What a step does to the maps**: nothing, an insert through the handle that was fetched, or a new `Admin`. -/
inductive Startup.Move (s : Startup) : Startup.Act → Startup → Prop
  | quiet {a : Startup.Act} {s' : Startup} (hok : s.Current a) (hstore : s'.store = s.store)
      (hexecuted : s'.executed = s.executed) : Move s a s'
  | insert {s' : Startup} (now : SystemTime) (w : Setting) (map : Nat) (hreplica : s.replica = .fetched w map)
      (hstore : s'.store = s.store.insertAt map w.key ⟨w.value, w.expiration⟩)
      (hexecuted : s'.executed = s.executed ++ [w]) : Move s (.replica now) s'
  | swap {s' : Startup} (datasets : List Dataset) (hmain : s.main = .parsed datasets)
      (hstore : s'.store = s.store.renew datasets) (hexecuted : s'.executed = s.executed) : Move s .main s'

theorem Startup.move_load (h : s.load file = some s') : s.Move .main s' := by
  unfold Startup.load at h
  cases hmain : s.main with
  | loading =>
    have hok : s.Current .main := by rintro datasets hparsed; rw [hmain] at hparsed; cases hparsed
    rw [hmain] at h
    cases file with
    | none =>
      obtain rfl := Option.some.inj h
      exact .quiet hok rfl rfl
    | some buf =>
      simp only at h
      split at h <;> (obtain rfl := Option.some.inj h; exact .quiet hok rfl rfl)
  | parsed datasets =>
    rw [hmain] at h
    obtain rfl := Option.some.inj h
    exact .swap datasets hmain rfl rfl
  | listening => rw [hmain] at h; cases h

theorem Startup.move_advance {now : SystemTime} (h : s.advance now = some s') : s.Move (.replica now) s' := by
  unfold Startup.advance at h
  cases hreplica : s.replica with
  | idle => rw [hreplica] at h; cases h
  | set key value px =>
    have hok : s.Current (.replica now) := by rintro w map hfetched; rw [hreplica] at hfetched; cases hfetched
    rw [hreplica] at h
    simp only at h
    split at h <;> (obtain rfl := Option.some.inj h; exact .quiet hok rfl rfl)
  | ready w =>
    have hok : s.Current (.replica now) := by rintro w map hfetched; rw [hreplica] at hfetched; cases hfetched
    rw [hreplica] at h
    obtain rfl := Option.some.inj h
    exact .quiet hok rfl rfl
  | fetched w map =>
    rw [hreplica] at h
    obtain rfl := Option.some.inj h
    exact .insert now w map hreplica rfl rfl

theorem Startup.move_step (h : s.step file a = some s') : s.Move a s' := by
  cases a with
  | receive key value px =>
    unfold Startup.step at h
    simp only at h
    split at h
    · obtain rfl := Option.some.inj h
      exact .quiet trivial rfl rfl
    · cases h
  | replica now => exact Startup.move_advance h
  | main => exact Startup.move_load h

/-- **One step keeps every `SET` visible exactly when it is a current one.** -/
theorem Startup.current_iff (hs : s.Visible) : s.Current a ↔ ∀ s' ∈ s.step file a, s'.Visible := by
  constructor
  · intro hok s' hs'
    unfold Startup.Visible
    cases Startup.move_step hs' with
    | quiet _ hstore hexecuted => rwa [hstore, hexecuted]
    | insert now w map hreplica hstore hexecuted =>
      rw [hstore, hexecuted]
      exact (shownIn_insertAt hs w map).2 (hok w map hreplica)
    | swap datasets hmain hstore hexecuted =>
      rw [hstore, hexecuted, Store.map_renew]
      exact hok datasets hmain
  · intro hall
    cases a with
    | receive => trivial
    | replica now =>
      intro w map hreplica
      rw [Startup.step, Startup.advance, hreplica] at hall
      exact (shownIn_insertAt hs w map).1 (hall _ rfl)
    | main =>
      intro datasets hmain
      have hload : s.load file = some { s with store := s.store.renew datasets, main := .listening } := by
        unfold Startup.load
        rw [hmain]
      rw [Startup.step, hload] at hall
      have hshown := hall _ rfl
      unfold Startup.Visible at hshown
      rwa [Store.map_renew] at hshown

/-- No handle is held that `ADMIN` no longer reaches, and no load is to come. -/
def Startup.Loaded (s : Startup) : Prop :=
  s.main = .listening ∧ ∀ w map, s.replica = .fetched w map → map = s.store.admin.getStringDataMap

theorem Startup.loaded_step (h : s.Loaded) (hstep : s.step file a = some s') : s'.Loaded := by
  cases a with
  | receive key value px =>
    unfold Startup.step at hstep
    simp only at hstep
    split at hstep
    · obtain rfl := Option.some.inj hstep
      exact ⟨h.1, fun w map hw => by cases hw⟩
    · cases hstep
  | replica now =>
    unfold Startup.step Startup.advance at hstep
    simp only at hstep
    split at hstep
    · cases hstep
    · split at hstep <;> (obtain rfl := Option.some.inj hstep; exact ⟨h.1, fun w map hw => by cases hw⟩)
    · obtain rfl := Option.some.inj hstep
      refine ⟨h.1, fun w map hw => ?_⟩
      obtain ⟨-, rfl⟩ := ReplicaPc.fetched.inj hw
      rfl
    · obtain rfl := Option.some.inj hstep
      exact ⟨h.1, fun w map hw => by cases hw⟩
  | main =>
    unfold Startup.step Startup.load at hstep
    simp only [h.1] at hstep
    cases hstep

/-- **After the load nothing is lost**, where no older handle is held then. -/
theorem Startup.visible_of_loaded {as : List Startup.Act} (hrun : run (Startup.step file) as s = some s')
    (hloaded : s.Loaded) (hs : s.Visible) : s'.Visible := by
  refine (run_keeps (I := fun s => s.Loaded ∧ s.Visible) (fun {s a s'} hstep h => ?_) hrun ⟨hloaded, hs⟩).2
  have hok : s.Current a := by
    cases a with
    | receive => trivial
    | replica now => exact fun w map hw => Or.inl (h.1.2 w map hw)
    | main => exact fun datasets hmain => absurd (h.1.1.symm.trans hmain) nofun
  exact ⟨Startup.loaded_step h.1 hstep, (Startup.current_iff h.2).1 hok s' hstep⟩

/-- **Every `SET` stays visible in exactly the runs of current steps.** -/
theorem startup_iff (file : Option (List UInt8)) (as : List Startup.Act) :
    (∀ bs, bs <+: as → ∀ s ∈ run (Startup.step file) bs Startup.start, s.Visible) ↔
      Meets (Startup.step file) Startup.Current as Startup.start := by
  have hstart : Startup.start.Visible := by
    intro key w hw
    cases hw
  exact (meets_iff (fun hs => Startup.current_iff hs) hstart).symm

/-- `k` is set on the replica before the load of a file without keys is over. -/
theorem startup_swapped : ¬ ∀ (file : Option (List UInt8)) (as : List Startup.Act),
    ∀ s ∈ run (Startup.step file) as Startup.start, s.Visible := by
  intro h
  let file := encode "REDIS0011".toList ++ [0xff]
  let as : List Startup.Act := [.receive ['k'] ['v'] none, .replica 0, .replica 0, .replica 0, .main, .main]
  have hrun : (run (Startup.step (some file)) as Startup.start).map
      (fun s => (s.store.map.lookup ['k'], (lastSet ['k'] s.executed).isSome)) = some (none, true) := by decide +kernel
  obtain ⟨s, hs, hlost⟩ := Option.map_eq_some_iff.1 hrun
  obtain ⟨hlookup, hset⟩ := Prod.mk.inj hlost
  obtain ⟨w, hw⟩ := Option.isSome_iff_exists.1 hset
  have hkey : w.key = ['k'] := by simpa using List.find?_some hw
  have hshown := h (some file) as s hs ['k'] w hw
  rw [Setting.In, hkey, hlookup] at hshown
  cases hshown

end Rusdis
