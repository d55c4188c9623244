import Rusdis.Session
/-!
# LastWrite — what a `GET` reads

In a history without `INCR` a `GET` reads the value of the last stored `SET` of its key, unless that has expired
(`get_last_write`).  The map holds just that, or nothing once a `GET` has found it expired (`Recalls`).
-/
namespace Rusdis

/-- A `SET` that replied `+OK`: its clock reading, its value and its `PX`. -/
structure Write where
  now : SystemTime
  value : List Char
  px : Option UInt64
  deriving DecidableEq, Repr

/-- The write is still to be read at `t`. -/
def Write.live (t : SystemTime) (w : Write) : Bool :=
  match w.px with
  | none       => true
  | some mills => decide (t < w.now + mills.toNat * 1000000)

def writeOf (key : List Char) : (SystemTime × Command) × List Char → Option Write
  | ((now, .set key' value px), reply) => if key' = key ∧ reply = "+OK\r\n".toList then some ⟨now, value, px⟩ else none
  | _                                  => none

/-- The last write to a key in a history of commands and their replies. -/
def lastWrite (key : List Char) : List ((SystemTime × Command) × List Char) → Option Write
  | []      => none
  | c :: cs => (lastWrite key cs).or (writeOf key c)

/-- The answer to a `GET` at `t` whose key was last written so. -/
def readBack (t : SystemTime) : Option Write → List Char
  | none   => "$-1\r\n".toList
  | some w => if w.live t then encodeBulk w.value else "$-1\r\n".toList

/-- The map holds every last write, or nothing for it once it has expired at `t`. -/
def Recalls (t : SystemTime) (m : DataMap) (written : List Char → Option Write) : Prop :=
  ∀ key, match written key with
    | none   => m.lookup key = none
    | some w => ∃ e, setExpiration w.now w.px = some e ∧
      (m.lookup key = some ⟨w.value, e⟩ ∨ m.lookup key = none ∧ w.live t = false)

theorem live_iff {w : Write} {e : Option SystemTime} (h : setExpiration w.now w.px = some e) (t : SystemTime) :
    w.live t = !StringData.isExpired t ⟨w.value, e⟩ := by
  obtain ⟨now, value, px⟩ := w
  cases px with
  | none => cases h; rfl
  | some mills =>
    obtain ⟨fu, hfu, rfl⟩ := Option.map_eq_some_iff.1 h
    have hfu : now + mills.toNat * 1000000 = fu := by
      unfold checkedAdd at hfu
      simp only at hfu
      split at hfu
      · exact Option.some.inj hfu
      · cases hfu
    simp only [Write.live, StringData.isExpired, hfu]
    rw [← decide_not]
    exact decide_eq_decide.2 Int.not_le.symm

theorem Write.live_anti {t t' : SystemTime} (h : t ≤ t') {w : Write} (hw : w.live t = false) : w.live t' = false := by
  unfold Write.live at hw ⊢
  cases hpx : w.px with
  | none => rw [hpx] at hw; cases hw
  | some mills =>
    rw [hpx] at hw
    exact decide_eq_false (fun h' => of_decide_eq_false hw (Int.lt_of_le_of_lt h h'))

section
variable {t t' : SystemTime} {m : DataMap} {written : List Char → Option Write}

theorem Recalls.mono (h : Recalls t m written) (htt' : t ≤ t') : Recalls t' m written := by
  intro key
  have hkey := h key
  cases hw : written key with
  | none => rwa [hw] at hkey
  | some w =>
    rw [hw] at hkey
    obtain ⟨e, he, hcases⟩ := hkey
    exact ⟨e, he, hcases.imp id (fun hn => ⟨hn.1, Write.live_anti htt' hn.2⟩)⟩

theorem Recalls.insert (h : Recalls t m written) (key : List Char) {w : Write} {e : Option SystemTime}
    (he : setExpiration w.now w.px = some e) :
    Recalls t (m.insert key ⟨w.value, e⟩) (Function.update written key (some w)) := by
  intro key'
  by_cases hk : key' = key
  · subst hk
    rw [Function.update_self]
    exact ⟨e, he, Or.inl (AList.lookup_insert m)⟩
  · rw [Function.update_of_ne hk, AList.lookup_insert_ne hk]
    exact h key'

theorem Recalls.erase (h : Recalls t m written) {key : List Char} {d : StringData} (hd : m.lookup key = some d)
    (hexpired : d.isExpired t = true) : Recalls t (m.erase key) written := by
  intro key'
  have hkey := h key'
  by_cases hk : key' = key
  · subst hk
    rw [AList.lookup_erase]
    cases hw : written key' with
    | none => rfl
    | some w =>
      rw [hw, hd] at hkey
      obtain ⟨e, he, hcases⟩ := hkey
      refine ⟨e, he, Or.inr ⟨rfl, ?_⟩⟩
      rcases hcases with heq | ⟨hnone, -⟩
      · cases heq
        rw [live_iff he, hexpired]
        rfl
      · cases hnone
  · rwa [AList.lookup_erase_ne hk]

end

section
variable (regex : List Char → Option (List Char → Bool))

theorem writeOf_ok (key key' value : List Char) (now : SystemTime) (px : Option UInt64) (σ : Server) :
    writeOf key ((now, .set key' value px), (executeSet now key' value px σ).2) =
      if key' = key ∧ setExpiration now px ≠ none then some ⟨now, value, px⟩ else none := by
  have hne : "-ERR Instant Addtion Error".toList ≠ "+OK\r\n".toList := by decide
  unfold executeSet
  cases setExpiration now px with
  | none => simp only [writeOf, ne_eq, not_true, and_false, if_false, hne]
  | some e => simp only [writeOf, ne_eq, reduceCtorEq, not_false_iff, and_true]

/-- **A command records its write**, and no other command does more than drop what has expired. -/
theorem recalls_execute {t now : SystemTime} {cmd : Command} {σ : Server} {written : List Char → Option Write}
    (h : Recalls t σ.map written) (hnow : t ≤ now) (hincr : ∀ key, cmd ≠ .incr key) :
    Recalls now (execute regex now cmd σ).1.map
      (fun key => (writeOf key ((now, cmd), (execute regex now cmd σ).2)).or (written key)) := by
  have h := h.mono hnow
  cases cmd with
  | set key value px =>
    simp only [execute, writeOf_ok]
    cases he : setExpiration now px with
    | none =>
      have hset : executeSet now key value px σ = (σ, "-ERR Instant Addtion Error".toList) := by
        rw [executeSet, he]
      rw [hset]
      simpa using h
    | some e =>
      rw [executeSet_map he]
      convert h.insert key (w := ⟨now, value, px⟩) he using 1
      funext key'
      by_cases hk : key = key'
      · subst hk
        simp
      · rw [Function.update_of_ne (Ne.symm hk)]
        simp [hk]
  | get key =>
    simp only [execute, executeGet]
    cases hd : σ.map.lookup key with
    | none => exact h
    | some d =>
      simp only
      split
      · rename_i hexpired
        exact h.erase hd hexpired
      · exact h
  | incr key => exact absurd rfl (hincr key)
  | _ => exact h

theorem recalls_singly : ∀ (cs : List (SystemTime × Command)) {t t' : SystemTime} {σ : Server}
    {written : List Char → Option Write}, Recalls t σ.map written → (t :: cs.map Prod.fst).Pairwise (· ≤ ·) →
      (∀ s ∈ t :: cs.map Prod.fst, s ≤ t') → (∀ c ∈ cs, ∀ key, c.2 ≠ .incr key) →
        Recalls t' (singly regex cs σ).1.map
          (fun key => (lastWrite key (cs.zip (singly regex cs σ).2)).or (written key))
  | [], _, _, _, _, h, _, hle, _ => h.mono (hle _ List.mem_cons_self)
  | (now, cmd) :: cs, t, t', σ, written, h, hclock, hle, hincr => by
    obtain ⟨hnow, hclock⟩ := List.pairwise_cons.1 hclock
    have hstep := recalls_execute regex h (hnow now (by simp)) (hincr (now, cmd) List.mem_cons_self)
    have ih := recalls_singly cs hstep hclock (fun s hs => hle s (List.mem_cons_of_mem _ hs))
      (fun c hc => hincr c (List.mem_cons_of_mem _ hc))
    rw [singly_cons]
    simp only [List.zip_cons_cons, lastWrite, Option.or_assoc]
    exact ih

theorem executeGet_recalls {t : SystemTime} {σ : Server} {written : List Char → Option Write}
    (h : Recalls t σ.map written) (key : List Char) : (executeGet t key σ).2 = readBack t (written key) := by
  have hkey := h key
  unfold executeGet
  cases hw : written key with
  | none =>
    rw [hw] at hkey
    rw [hkey]
    rfl
  | some w =>
    rw [hw] at hkey
    obtain ⟨e, he, hd | ⟨hnone, hlive⟩⟩ := hkey
    · rw [hd, readBack, live_iff he]
      simp only
      cases StringData.isExpired t ⟨w.value, e⟩ <;> rfl
    · rw [hnone, readBack, hlive]
      rfl

/-- **A `GET` reads the last write to its key while it is live**, and nothing otherwise. -/
theorem get_last_write (cs : List (SystemTime × Command)) (key : List Char) (t : SystemTime) (σ : Server)
    (hempty : σ.map = ∅) (hclock : (cs.map Prod.fst ++ [t]).Pairwise (· ≤ ·))
    (hincr : ∀ c ∈ cs, ∀ key, c.2 ≠ .incr key) :
    (execute regex t (.get key) (executeAll regex cs σ).1).2 =
      readBack t (lastWrite key (cs.zip (singly regex cs σ).2)) := by
  have hstart : ∀ s, Recalls s σ.map (fun _ => none) := by
    intro s key
    rw [hempty]
    exact AList.lookup_empty key
  obtain ⟨hpairwise, -, hle⟩ := List.pairwise_append.1 hclock
  have hle : ∀ s ∈ cs.map Prod.fst, s ≤ t := fun s hs => hle s hs t List.mem_cons_self
  have hrecalls : Recalls t (singly regex cs σ).1.map
      (fun key => (lastWrite key (cs.zip (singly regex cs σ).2)).or none) := by
    cases cs with
    | nil => exact hstart t
    | cons c cs =>
      refine recalls_singly regex (c :: cs) (hstart c.1) (List.pairwise_cons.2 ⟨?_, hpairwise⟩) ?_ hincr
      · exact List.forall_mem_cons.2 ⟨Int.le_refl _, (List.pairwise_cons.1 hpairwise).1⟩
      · exact List.forall_mem_cons.2 ⟨hle c.1 List.mem_cons_self, hle⟩
  have hget := executeGet_recalls hrecalls key
  rw [Option.or_none] at hget
  rw [executeAll_singly]
  exact hget

end

/-- A `SET` without `PX` cancels the expiry of the one before it. -/
theorem get_last_write_two :
    (execute (fun _ => none) 50000000 (.get ['k']) (executeAll (fun _ => none)
      [(0, .set ['k'] ['1'] (some 10)), (5, .get ['k']), (6, .set ['k'] ['2'] none)] (Server.start .master 0)).1).2 =
    readBack 50000000 (some ⟨6, ['2'], none⟩) := by
  have hget := get_last_write (fun _ => none)
    [(0, .set ['k'] ['1'] (some 10)), (5, .get ['k']), (6, .set ['k'] ['2'] none)] ['k'] 50000000
    (Server.start .master 0) rfl (by decide) (by simp)
  rw [hget]
  decide +kernel

end Rusdis
