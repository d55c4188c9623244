import Rusdis.Execute
/-!
# Mirror — a master's map and its replica's

Only a `SET` is given to the broadcast channel, and an `INCR` changes the map without a message.  The parts of the two
maps that never expire stay equal in every run whose `INCR`s change nothing there (`mirror`).
-/
namespace Rusdis

open Decimal (intText)

/-! ## What one command does -/

/-- An `INCR` of this key changes no text that never expires. -/
def IncrKeeps (m : DataMap) (key : List Char) : Prop :=
  ∃ d, m.lookup key = some d ∧
    (d.expiration ≠ none ∨ (∀ n, parseI64 d.data ≠ .ok n) ∨ d.data = intText 9223372036854775807)

theorem parseI64_intText {n : Int} (h1 : -9223372036854775808 ≤ n) (h2 : n ≤ 9223372036854775807) :
    parseI64 (intText n) = .ok n :=
  Decimal.readInt_intText h1 h2 (by decide) (by decide)

theorem parseI64_range {s : List Char} {n : Int} (h : parseI64 s = .ok n) :
    -9223372036854775808 ≤ n ∧ n ≤ 9223372036854775807 :=
  Decimal.readInt_range (by decide) (by decide) h

theorem incr_text_ne {s : List Char} {num : Int} (h : parseI64 s = .ok num) :
    intText (if num < 9223372036854775807 then num + 1 else num) = s ↔ s = intText 9223372036854775807 := by
  have hr := parseI64_range h
  split
  · rename_i hlt
    constructor
    · intro he
      have := parseI64_intText (n := num + 1) (by omega) (by omega)
      rw [he, h, Except.ok.injEq] at this
      omega
    · rintro rfl
      rw [parseI64_intText (by omega) (by omega), Except.ok.injEq] at h
      omega
  · rw [show num = 9223372036854775807 by omega, eq_comm]

/-- **An `INCR` keeps the part that never expires only where `IncrKeeps` says so.** -/
theorem persistent_executeIncr (key : List Char) (σ : Server) :
    persistent (executeIncr key σ).1.map = persistent σ.map ↔ IncrKeeps σ.map key := by
  unfold executeIncr orInsert IncrKeeps
  cases hd : σ.map.lookup key with
  | none =>
    simp only [reduceCtorEq, false_and, exists_false, iff_false]
    intro h
    have hself := congrFun h key
    rw [show parseI64 ['0'] = .ok 0 by rfl] at hself
    simp only [view_insert_self] at hself
    rw [persistent, view, hd, StringData.kept_of_none rfl] at hself
    cases hself
  | some d =>
    simp only [Option.some.injEq, exists_eq_left']
    cases hn : parseI64 d.data with
    | error e => simp
    | ok num =>
      simp only [Except.ok.injEq, ne_eq, forall_eq', false_or]
      constructor
      · intro h
        by_cases he : d.expiration = none
        · have hself := congrFun h key
          unfold persistent at hself
          rw [view_insert_self, view_of_lookup hd, StringData.kept_setData, StringData.kept_of_none he,
            Option.map_some, Option.some.injEq] at hself
          exact Or.inr ((incr_text_ne hn).1 hself)
        · exact Or.inl he
      · intro h
        funext key'
        by_cases hk : key' = key
        · subst hk
          unfold persistent
          rw [view_insert_self, view_of_lookup hd, StringData.kept_setData]
          rcases h with he | hmax
          · rw [StringData.kept_of_ne he, Option.map_none]
          · rw [(incr_text_ne hn).2 hmax]
            unfold StringData.kept
            cases d.expiration <;> rfl
        · exact view_insert_ne hk _ _

def Broadcasting (σ : Server) : Prop := σ.replicationInfo.role = .master ∧ σ.slavesCount ≠ 0

theorem Broadcasting.propagate {σ : Server} (h : Broadcasting σ) (cmd : Command) :
    σ.propagate cmd = { σ with broadcast := σ.broadcast ++ [generateResp cmd] } := if_pos h

def broadcastOf (now : SystemTime) : Command → List Command
  | .set key value px => if setExpiration now px = none then [] else [.set key value px]
  | _                 => []

section
variable (regex : List Char → Option (List Char → Bool))

theorem broadcasting_execute (now : SystemTime) (cmd : Command) {σ : Server} (h : Broadcasting σ) :
    Broadcasting (execute regex now cmd σ).1 := by
  obtain ⟨-, hr, hs⟩ := execute_frame regex now cmd σ
  rw [Broadcasting, hr, hs]
  exact h

/-- **What one command does on a master with replicas**: a stored `SET` is broadcast, and nothing else is; what never
expires changes only by a `SET` or by an `INCR`. -/
theorem execute_cases (now : SystemTime) (cmd : Command) {σ : Server} (h : Broadcasting σ) :
    (∃ key value px e, cmd = .set key value px ∧ setExpiration now px = some e ∧
      (execute regex now cmd σ).1.map = σ.map.insert key ⟨value, e⟩ ∧
      (execute regex now cmd σ).1.broadcast = σ.broadcast ++ [generateResp cmd]) ∨
    (broadcastOf now cmd = [] ∧ (execute regex now cmd σ).1.broadcast = σ.broadcast ∧
      ((∀ key, cmd = .incr key → IncrKeeps σ.map key) →
        persistent (execute regex now cmd σ).1.map = persistent σ.map)) := by
  cases cmd with
  | set key value px =>
    simp only [execute, executeSet]
    split
    · rename_i he
      exact Or.inr ⟨if_pos he, rfl, fun _ => rfl⟩
    · rename_i e he
      refine Or.inl ⟨key, value, px, e, rfl, he, propagate_map _ _, ?_⟩
      have hstored : Broadcasting (σ.store key ⟨value, e⟩) := h
      rw [hstored.propagate]
      rfl
  | get key =>
    refine Or.inr ⟨rfl, executeGet_broadcast now key σ, fun _ => ?_⟩
    rcases executeGet_map now key σ with hm | ⟨key', d, hd, hexp, hm⟩
    · rw [execute, hm]
    · rw [execute, hm, persistent_erase hd hexp]
  | incr key =>
    refine Or.inr ⟨rfl, ?_, fun hk => (persistent_executeIncr key σ).2 (hk key rfl)⟩
    simp only [execute, executeIncr]
    split <;> rfl
  | _ => exact Or.inr ⟨rfl, rfl, fun _ => rfl⟩

/-! ## Whole runs -/

def IncrsKeep : List (SystemTime × Command) → Server → Prop
  | [], _ => True
  | (now, cmd) :: cs, σ =>
    (∀ key, cmd = .incr key → IncrKeeps σ.map key) ∧ IncrsKeep cs (execute regex now cmd σ).1

theorem setExpiration_none_iff {now now' : SystemTime} {px : Option UInt64} {e e' : Option SystemTime}
    (h : setExpiration now px = some e) (h' : setExpiration now' px = some e') : e = none ↔ e' = none := by
  cases px with
  | none => cases h; cases h'; rfl
  | some mills =>
    obtain ⟨t, -, rfl⟩ := Option.map_eq_some_iff.1 h
    obtain ⟨t', -, rfl⟩ := Option.map_eq_some_iff.1 h'
    simp

def sentAll (cs : List (SystemTime × Command)) : List Command := cs.flatMap (fun c => broadcastOf c.1 c.2)

theorem isSet_of_mem_sentAll {cs : List (SystemTime × Command)} {c : Command} (h : c ∈ sentAll cs) : IsSet c := by
  obtain ⟨⟨now, cmd⟩, -, hc⟩ := List.mem_flatMap.1 h
  cases cmd with
  | set key value px =>
    simp only [broadcastOf] at hc
    split at hc
    · cases hc
    · exact ⟨key, value, px, List.mem_singleton.1 hc⟩
  | _ => cases hc

/-- **A run's messages are those of its stored `SET`s**, in order. -/
theorem executeAll_broadcast : ∀ (cs : List (SystemTime × Command)) (σ : Server), Broadcasting σ →
    (executeAll regex cs σ).1.broadcast = σ.broadcast ++ (sentAll cs).map generateResp
  | [], σ, _ => by simp [executeAll, sentAll]
  | (now, cmd) :: cs, σ, hσ => by
    have ih := executeAll_broadcast cs _ (broadcasting_execute regex now cmd hσ)
    rw [sentAll, List.flatMap_cons]
    refine Eq.trans ih ?_
    rcases execute_cases regex now cmd hσ with ⟨key, value, px, e, rfl, he, -, hb⟩ | ⟨hnone, hb, -⟩
    · have hone : broadcastOf now (.set key value px) = [.set key value px] := if_neg (by rw [he]; simp)
      rw [hb, hone, List.singleton_append, List.map_cons, List.append_assoc]
      rfl
    · rw [hb, hnone]
      rfl

/-- **The delivered `SET`s keep a replica in step.** -/
theorem executeAll_mirror : ∀ (cs ds : List (SystemTime × Command)) (σ ρ : Server), Broadcasting σ →
    persistent ρ.map = persistent σ.map → IncrsKeep regex cs σ → ds.map Prod.snd = sentAll cs →
      (∀ d ∈ ds, Holdable d) → persistent (executeAll regex ds ρ).1.map = persistent (executeAll regex cs σ).1.map
  | [], ds, σ, ρ, _, hmap, _, hds, _ => by
    rw [List.map_eq_nil_iff.1 hds]
    exact hmap
  | (now, cmd) :: cs, ds, σ, ρ, hσ, hmap, hkeep, hds, hclock => by
    have hσ' := broadcasting_execute regex now cmd hσ
    rw [sentAll, List.flatMap_cons] at hds
    rcases execute_cases regex now cmd hσ with ⟨key, value, px, e, rfl, he, hm, -⟩ | ⟨hnone, -, hm⟩
    · have hone : broadcastOf now (.set key value px) = [.set key value px] := if_neg (by rw [he]; simp)
      rw [hone] at hds
      obtain ⟨⟨now', cmd'⟩, ds', rfl, hcmd, hds'⟩ := List.map_eq_cons_iff.1 hds
      obtain rfl : cmd' = .set key value px := hcmd
      obtain ⟨e', he', hρ⟩ := execute_holdable regex ρ (hclock (now', .set key value px) List.mem_cons_self)
      have hstep : persistent (execute regex now' (.set key value px) ρ).1.map =
          persistent (execute regex now (.set key value px) σ).1.map := by
        have hkept : StringData.kept ⟨value, e'⟩ = StringData.kept ⟨value, e⟩ := by
          have hiff := setExpiration_none_iff he he'
          cases e <;> cases e' <;> simp_all [StringData.kept]
        unfold persistent at hmap ⊢
        rw [hm, hρ, view_insert, view_insert, hmap, hkept]
      exact executeAll_mirror cs ds' _ _ hσ' hstep hkeep.2 hds' (fun d hd => hclock d (by simp [hd]))
    · rw [hnone] at hds
      exact executeAll_mirror cs ds _ _ hσ' (hmap.trans (hm hkeep.1).symm) hkeep.2 hds hclock

/-- **A replica that misses nothing mirrors its master** in what never expires, as long as every `INCR` leaves that
alone and the replica's clock can hold the expiries. -/
theorem mirror {cs ds : List (SystemTime × Command)} {σ ρ : Server} (hσ : Broadcasting σ) (hmap : ρ.map = σ.map)
    (hsent : (executeAll regex cs σ).1.broadcast = σ.broadcast ++ ds.map (fun d => generateResp d.2))
    (hkeep : IncrsKeep regex cs σ) (hclock : ∀ d ∈ ds, Holdable d) :
    persistent (executeAll regex ds ρ).1.map = persistent (executeAll regex cs σ).1.map := by
  have hset : ∀ c ∈ ds.map Prod.snd, IsSet c := by
    intro c hc
    obtain ⟨⟨now, cmd⟩, hd, rfl⟩ := List.mem_map.1 hc
    exact (hclock _ hd).isSet
  have hds : ds.map Prod.snd = sentAll cs := by
    rw [executeAll_broadcast regex cs σ hσ] at hsent
    apply map_generateResp_injective _ _ hset (fun c hc => isSet_of_mem_sentAll hc)
    rw [List.map_map, List.append_cancel_left hsent]
    rfl
  exact executeAll_mirror regex cs ds σ ρ hσ (by rw [hmap]) hkeep hds hclock

/-- An `INCR` of an entry that expires is not missed. -/
theorem mirror_two : persistent (executeAll (fun _ => none) [(1, .set ['a'] ['1'] none), (7, .set ['b'] ['2'] (some 10))]
      (Server.start .slave 0)).1.map =
    persistent (executeAll (fun _ => none) [(0, .set ['a'] ['1'] none), (5, .set ['b'] ['2'] (some 10)), (6, .incr ['b'])]
      (Server.start .master 1)).1.map := by
  apply mirror
  · exact ⟨rfl, by decide⟩
  · rfl
  · decide +kernel
  · refine ⟨by simp, by simp, fun key hkey => ?_, trivial⟩
    cases hkey
    exact ⟨⟨['2'], some 10000005⟩, by decide +kernel, Or.inl (by simp)⟩
  · intro d hd
    rcases List.mem_pair.1 hd with rfl | rfl <;> simp [Holdable, setExpiration, checkedAdd]

/-- `INCR a` on two empty maps: the master's holds a `1` that no message tells of. -/
theorem mirror_incr : ¬ ∀ (regex : List Char → Option (List Char → Bool)) (σ ρ : Server)
    (cs ds : List (SystemTime × Command)), Broadcasting σ → ρ.map = σ.map → (∀ d ∈ ds, IsSet d.2) →
      (executeAll regex cs σ).1.broadcast = σ.broadcast ++ ds.map (fun d => generateResp d.2) →
        persistent (executeAll regex ds ρ).1.map = persistent (executeAll regex cs σ).1.map := by
  intro h
  have hall := h (fun _ => none) (Server.start .master 1) (Server.start .slave 0) [(0, .incr ['a'])] []
    ⟨rfl, by decide⟩ rfl (by simp) (by decide +kernel)
  have ha := congrFun hall ['a']
  revert ha
  decide +kernel

end

end Rusdis
