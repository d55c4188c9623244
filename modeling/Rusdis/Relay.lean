import Rusdis.Mirror
import Rusdis.Asks
/-!
# Relay — what the messages tell of a run with many connections

Whatever the connections do between each other's steps, the messages are those of the stored `SET`s in the order of the
lock, so a replica that executes them agrees with the master on every key that no `INCR` names (`relayed`).
-/
namespace Rusdis

open Steps

section
variable {regex : List Char → Option (List Char → Bool)}

theorem kept_of_setExpiration {now now' : SystemTime} {px : Option UInt64} {e e' : Option SystemTime}
    (h : setExpiration now px = some e) (h' : setExpiration now' px = some e') (value : List Char) :
    StringData.kept ⟨value, e⟩ = StringData.kept ⟨value, e'⟩ := by
  have hiff := setExpiration_none_iff h h'
  by_cases he : e = none
  · rw [StringData.kept_of_none he, StringData.kept_of_none (hiff.1 he)]
  · rw [StringData.kept_of_ne he, StringData.kept_of_ne (fun he' => he (hiff.2 he'))]

/-- What never expires of a key changes only by a `SET`, which is broadcast, or by an `INCR` of it. -/
theorem execute_cases_key (regex : List Char → Option (List Char → Bool)) (now : SystemTime) {cmd : Command} {σ : Server}
    (h : Broadcasting σ) {key : List Char} (hincr : cmd ≠ .incr key) :
    (∃ key' value px e, cmd = .set key' value px ∧ setExpiration now px = some e ∧
      (execute regex now cmd σ).1.map = σ.map.insert key' ⟨value, e⟩) ∨
    (broadcastOf now cmd = [] ∧ persistent (execute regex now cmd σ).1.map key = persistent σ.map key) := by
  rcases execute_cases regex now cmd h with ⟨key', value, px, e, hcmd, he, hmap, -⟩ | ⟨hnone, -, hmap⟩
  · exact Or.inl ⟨key', value, px, e, hcmd, he, hmap⟩
  · refine Or.inr ⟨hnone, ?_⟩
    cases cmd with
    | incr key' =>
      have hne : key ≠ key' := fun heq => hincr (congrArg Command.incr heq.symm)
      exact congrArg (Option.bind · _) (lookup_executeIncr_ne hne σ)
    | _ => exact congrFun (hmap nofun) key

/-- **The delivered `SET`s keep a key in step** that no `INCR` names. -/
theorem executeAll_mirror_key {key : List Char} : ∀ (cs ds : List (SystemTime × Command)) (σ ρ : Server), Broadcasting σ →
    persistent ρ.map key = persistent σ.map key → (∀ c ∈ cs, c.2 ≠ .incr key) → ds.map Prod.snd = sentAll cs →
      (∀ d ∈ ds, Holdable d) → persistent (executeAll regex ds ρ).1.map key = persistent (executeAll regex cs σ).1.map key
  | [], ds, σ, ρ, _, hkey, _, hds, _ => by
    rw [List.map_eq_nil_iff.1 hds]
    exact hkey
  | (now, cmd) :: cs, ds, σ, ρ, hσ, hkey, hincr, hds, hclock => by
    have hσ' := broadcasting_execute regex now cmd hσ
    have hincr' : ∀ c ∈ cs, c.2 ≠ .incr key := fun c hc => hincr c (List.mem_cons_of_mem _ hc)
    rw [sentAll, List.flatMap_cons] at hds
    rcases execute_cases_key regex now hσ (hincr (now, cmd) List.mem_cons_self) with
      ⟨key', value, px, e, rfl, he, hm⟩ | ⟨hnone, hm⟩
    · have hone : broadcastOf now (.set key' value px) = [.set key' value px] := if_neg (by rw [he]; simp)
      rw [hone] at hds
      obtain ⟨⟨now', cmd'⟩, ds', rfl, hcmd, hds'⟩ := List.map_eq_cons_iff.1 hds
      obtain rfl : cmd' = .set key' value px := hcmd
      obtain ⟨e', he', hρ⟩ := execute_holdable regex ρ (hclock (now', .set key' value px) List.mem_cons_self)
      have hstep : persistent (execute regex now' (.set key' value px) ρ).1.map key =
          persistent (execute regex now (.set key' value px) σ).1.map key := by
        rw [hm, hρ, persistent, persistent, view_insert, view_insert, kept_of_setExpiration he' he value]
        by_cases hk : key = key'
        · subst hk
          rw [Function.update_self, Function.update_self]
        · rw [Function.update_of_ne hk, Function.update_of_ne hk]
          exact hkey
      exact executeAll_mirror_key cs ds' _ _ hσ' hstep hincr' hds' (fun d hd => hclock d (List.mem_cons_of_mem _ hd))
    · rw [hnone] at hds
      exact executeAll_mirror_key cs ds _ _ hσ' (hkey.trans hm.symm) hincr' hds hclock

variable {ι : Type} [DecidableEq ι] {σ : Server} {s : Handlers regex ι}

/-- **The messages tell a replica of every run**: while nobody holds the map's lock they are those of the stored `SET`s
of all connections, in the order of the lock, and a replica that has executed them agrees with the master on what never
expires of every key that no `INCR` names. -/
theorem relayed {events : List (ι × Event)} (hσ : Broadcasting σ) (hrun : (Handlers.start σ).run events = some s)
    (hfree : s.shared.lock = none) :
    s.shared.server.broadcast = σ.broadcast ++ (sentAll (s.shared.history.map Entry.timed)).map generateResp ∧
      ∀ (ds : List (SystemTime × Command)) (ρ : Server) (key : List Char),
        s.shared.server.broadcast = σ.broadcast ++ ds.map (fun d => generateResp d.2) → (∀ d ∈ ds, Holdable d) →
          persistent ρ.map key = persistent σ.map key → (∀ e ∈ s.shared.history, e.command ≠ .incr key) →
            persistent (executeAll regex ds ρ).1.map key = persistent s.shared.server.map key := by
  obtain ⟨acts, hacts⟩ := run_clients hrun
  have hs : Serial σ s.clients := run_keeps serial_step hacts (serial_start σ)
  have hserver : s.shared.server = (executeAll regex (s.shared.history.map Entry.timed) σ).1 := by
    rw [executeAll_singly]
    exact hs.server hfree
  have hsent := executeAll_broadcast regex (s.shared.history.map Entry.timed) σ hσ
  rw [← hserver] at hsent
  refine ⟨hsent, fun ds ρ key hds hclock hkey hincr => ?_⟩
  have hset : ∀ c ∈ ds.map Prod.snd, IsSet c := by
    intro c hc
    obtain ⟨⟨now, cmd⟩, hd, rfl⟩ := List.mem_map.1 hc
    exact (hclock _ hd).isSet
  have hall : ds.map Prod.snd = sentAll (s.shared.history.map Entry.timed) := by
    apply map_generateResp_injective _ _ hset (fun c hc => isSet_of_mem_sentAll hc)
    rw [List.map_map]
    exact (List.append_cancel_left (hsent.symm.trans hds)).symm
  have hincr' : ∀ c ∈ s.shared.history.map Entry.timed, c.2 ≠ .incr key := by
    intro c hc
    obtain ⟨e, he, rfl⟩ := List.mem_map.1 hc
    exact hincr e he
  rw [hserver]
  exact executeAll_mirror_key _ ds σ ρ hσ hkey hincr' hall hclock

end

/-- An `EXEC` sets and counts while another connection sets; a replica has the two keys that were only set. -/
theorem relayed_two :
    let events := Event.request false ["MULTI"] 0 ++ Event.request false ["SET", "a", "1"] 0 ++
      Event.request false ["INCR", "n"] 0 ++ Event.request true ["SET", "b", "2"] 3 ++
      Event.request false ["EXEC"] 2 ++ List.replicate 4 (true, .go 0) ++ List.replicate 11 (false, .go 0)
    let ds : List (SystemTime × Command) := [(7, .set ['b'] ['2'] none), (7, .set ['a'] ['1'] none)]
    ∃ s : Handlers (fun _ => none) Bool, (Handlers.start (Server.start .master 1)).run events = some s ∧
      s.shared.server.broadcast = ds.map (fun d => generateResp d.2) ∧
      persistent s.shared.server.map ['a'] = some ['1'] := by
  intro events ds
  have hrun : ((Handlers.start (Server.start .master 1) : Handlers (fun _ => none) Bool).run events).map
      (fun s => (s.shared.lock, s.shared.server.broadcast, s.shared.history.map Entry.command)) =
        some (none, ds.map (fun d => generateResp d.2),
          [.set ['b'] ['2'] none, .set ['a'] ['1'] none, .incr ['n']]) := by decide +kernel
  obtain ⟨s, hs, hseen⟩ := Option.map_eq_some_iff.1 hrun
  obtain ⟨hfree, hseen⟩ := Prod.mk.inj hseen
  obtain ⟨hsent, hcommands⟩ := Prod.mk.inj hseen
  refine ⟨s, hs, hsent, ?_⟩
  have hincr : ∀ e ∈ s.shared.history, e.command ≠ .incr ['a'] := by
    intro e he heq
    have hmem := List.mem_map_of_mem (f := Entry.command) he
    rw [hcommands, heq] at hmem
    simp at hmem
  have hrelayed := (relayed ⟨rfl, by decide⟩ hs hfree).2 ds (Server.start .slave 0) ['a'] hsent
    (by simp [ds, Holdable, setExpiration]) rfl hincr
  rw [← hrelayed]
  decide +kernel

end Rusdis
