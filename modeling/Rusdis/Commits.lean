import Rusdis.Mirror
import Rusdis.Replica
import Rusdis.Tasks
/-!
# Commits — the messages are in the order of the inserts

On a master with replicas every inserted `SET` is sent before the map's lock is released, so the messages are those of
the inserts in their order, but for the one `SET` that its holder of the lock has still to send (`broadcast_commits`).
-/
namespace Rusdis

open Steps

/-- No expiration is given to this key, neither by the map nor by a command. -/
def NeverExpires (m : DataMap) (cs : List Command) (key : List Char) : Prop :=
  (∀ d, m.lookup key = some d → d.expiration = none) ∧ ∀ value px, .set key value px ∈ cs → px = none

section
variable {ι : Type} {capacity : Nat}

/-- The messages of a master with replicas, and the texts of its map, follow from the inserts. -/
structure Committed (σ : Server) (s : Tasks ι) : Prop where
  exclusive    : s.Exclusive
  broadcasting : Broadcasting s.shared.server
  isSet        : ∀ c ∈ s.shared.inserts, IsSet c
  sent         : s.shared.server.broadcast ++ (s.waiting.map Setting.command).map generateResp =
    σ.broadcast ++ s.shared.inserts.map generateResp
  replayed     : ∀ key, NeverExpires σ.map s.shared.inserts key →
    (∀ d, s.shared.server.map.lookup key = some d → d.expiration = none) ∧
      s.shared.inserts.foldl putText (texts σ.map) key = texts s.shared.server.map key

theorem committed_start {σ : Server} (hσ : Broadcasting σ) : Committed σ (Tasks.start σ : Tasks ι) where
  exclusive    := exclusive_start σ
  broadcasting := hσ
  isSet        := by simp [Tasks.start]
  sent         := rfl
  replayed     := fun key hkey => ⟨hkey.1, rfl⟩

theorem NeverExpires.of_append {m : DataMap} {cs ds : List Command} {key : List Char}
    (h : NeverExpires m (cs ++ ds) key) : NeverExpires m cs key :=
  ⟨h.1, fun value px hc => h.2 value px (List.mem_append_left _ hc)⟩

variable {σ : Server} {s s' : Tasks ι} {i : ι}

theorem not_skips_of_broadcasting {server : Server} (h : Broadcasting server) (t : Task) : t.skips server ≠ true := by
  unfold Task.skips
  split
  · simp [h.1]
  · simp [h.2]
  · simp

theorem broadcasting_moves {sh sh' : Shared ι} {t t' : Task} (h : Broadcasting sh.server)
    (hm : Moves capacity i sh t sh' t') : Broadcasting sh'.server := by
  cases hm with
  | attach hin hun hst => exact ⟨h.1, Nat.succ_ne_zero _⟩
  | lookup now key hin hin' hun hst => exact broadcasting_execute (fun _ => none) now (.get key) h
  | _ => exact h

theorem replayed_insert {w : Setting} {key : List Char} (hkey : NeverExpires σ.map (s.shared.inserts ++ [w.command]) key)
    (hd : ∀ d, s.shared.server.map.lookup key = some d → d.expiration = none)
    (htext : s.shared.inserts.foldl putText (texts σ.map) key = texts s.shared.server.map key) :
    (∀ d, (s.shared.server.map.insert w.key ⟨w.value, w.expiration⟩).lookup key = some d → d.expiration = none) ∧
      (s.shared.inserts ++ [w.command]).foldl putText (texts σ.map) key =
        texts (s.shared.server.map.insert w.key ⟨w.value, w.expiration⟩) key := by
  have htexts : texts (s.shared.server.map.insert w.key ⟨w.value, w.expiration⟩) =
      Function.update (texts s.shared.server.map) w.key (some w.value) := view_insert _ _ _
  rw [List.foldl_append, List.foldl_cons, List.foldl_nil, Setting.command, putText, htexts]
  by_cases hk : key = w.key
  · subst hk
    rw [AList.lookup_insert, Function.update_self, Function.update_self]
    refine ⟨fun d he => ?_, rfl⟩
    obtain rfl := Option.some.inj he
    exact Setting.expiration_of_px (hkey.2 w.value w.px (List.mem_append_right _ List.mem_cons_self))
  · rw [AList.lookup_insert_ne hk, Function.update_of_ne hk, Function.update_of_ne hk]
    exact ⟨hd, htext⟩

theorem committed_effect (hs : Committed σ s) (hex : s'.Exclusive) (hb : Broadcasting s'.shared.server)
    (h : Effect s i s') : Committed σ s' := by
  cases h with
  | quiet hins hsent hwait hmap =>
    refine ⟨hex, hb, by rw [hins]; exact hs.isSet, by rw [hins, hsent, hwait]; exact hs.sent, fun key hkey => ?_⟩
    rw [hins] at hkey ⊢
    obtain ⟨hd, htext⟩ := hs.replayed key hkey
    rcases hmap with hmap | ⟨key', d, hlookup, hexp, hmap⟩
    · rw [hmap]
      exact ⟨hd, htext⟩
    · have hne : key ≠ key' := by
        rintro rfl
        exact hexp (hd d hlookup)
      have htexts : texts (s.shared.server.map.erase key') key = texts s.shared.server.map key :=
        congrArg (Option.bind · _) (AList.lookup_erase_ne hne)
      rw [hmap, AList.lookup_erase_ne hne, htexts]
      exact ⟨hd, htext⟩
  | insert w hsh hwait hwait' =>
    refine ⟨hex, hb, ?_, ?_, fun key hkey => ?_⟩
    · rw [hsh]
      intro c hc
      rcases List.mem_append.1 hc with hc | hc
      · exact hs.isSet c hc
      · exact ⟨w.key, w.value, w.px, List.mem_singleton.1 hc⟩
    · have hsent := hs.sent
      rw [hwait, List.map_nil, List.map_nil, List.append_nil] at hsent
      rw [hsh, hwait']
      simp only [Shared.insert, Server.store, List.map_append, List.map_cons, List.map_nil, hsent, List.append_assoc]
    · rw [hsh] at hkey ⊢
      obtain ⟨hd, htext⟩ := hs.replayed key hkey.of_append
      exact replayed_insert hkey hd htext
  | skip w hskip hsh hwait hwait' => exact absurd hskip (not_skips_of_broadcasting hs.broadcasting _)
  | send w hsend hsh hwait hwait' =>
    refine ⟨hex, hb, by rw [hsh]; exact hs.isSet, ?_, fun key hkey => ?_⟩
    · have hsent := hs.sent
      rw [hwait] at hsent
      rw [hsh, hwait', List.map_nil, List.map_nil, List.append_nil]
      exact hsent
    · rw [hsh] at hkey ⊢
      exact hs.replayed key hkey

section
variable [DecidableEq ι]

theorem committed_step {a : ι × Choice} (h : s.step (act capacity) a = some s') (hs : Committed σ s) :
    Committed σ s' := by
  obtain ⟨i, c⟩ := a
  obtain ⟨sh, t, hact, rfl⟩ := step_eq_some.1 h
  have hmoves := act_moves hact
  obtain ⟨hex, heff⟩ := moves_effect hs.exclusive hmoves
  exact committed_effect hs hex (broadcasting_moves hs.broadcasting hmoves) heff

/-- **Broadcast order is insert order**: in every state a master with replicas reaches, the messages are those of its
inserts, each once and in order, but for a last `SET` whose task holds the map's lock; and while nobody holds it,
replaying the messages gives every key that never expires its text. -/
theorem broadcast_commits {acts : List (ι × Choice)} (hσ : Broadcasting σ)
    (hrun : (Tasks.start σ).run capacity acts = some s) :
    (s.shared.server.broadcast = σ.broadcast ++ s.shared.inserts.map generateResp ∨
        ∃ i w, s.shared.lock = some i ∧ (s.task i).unsent = [w] ∧
          s.shared.server.broadcast ++ [generateResp w.command] = σ.broadcast ++ s.shared.inserts.map generateResp) ∧
      (s.shared.lock = none → ∀ ds : List Command, (∀ d ∈ ds, IsSet d) →
        s.shared.server.broadcast = σ.broadcast ++ ds.map generateResp → ∀ key, NeverExpires σ.map ds key →
          ds.foldl putText (texts σ.map) key = texts s.shared.server.map key) := by
  have hs : Committed σ s := run_keeps committed_step hrun (committed_start hσ)
  have hsent := hs.sent
  refine ⟨?_, ?_⟩
  · rcases waiting_cases s with hwait | ⟨i, w, hlock, hun, hwait⟩
    · rw [hwait, List.map_nil, List.map_nil, List.append_nil] at hsent
      exact Or.inl hsent
    · rw [hwait] at hsent
      exact Or.inr ⟨i, w, hlock, hun, hsent⟩
  · intro hlock ds hset hds key hkey
    have hwait : s.waiting = [] := by rw [Tasks.waiting, hlock]; rfl
    rw [hwait, List.map_nil, List.map_nil, List.append_nil, hds] at hsent
    obtain rfl : ds = s.shared.inserts :=
      map_generateResp_injective _ _ hset hs.isSet (List.append_cancel_left hsent)
    exact (hs.replayed key hkey).2

end

end

/-- Two connections set one key; the one that locks the map first is sent first, and the other's text stays. -/
theorem broadcast_commits_two :
    let go (i : Bool) (n : Nat) : List (Bool × Choice) := List.replicate n (i, .go 0)
    let first : Command := .set ['k'] ['w'] none
    let second : Command := .set ['k'] ['v'] none
    ∃ s, (Tasks.start (Server.start .master 1)).run 128
        ([(false, .request (.set ['k'] ['v'] none)), (true, .request (.set ['k'] ['w'] none))] ++ go true 1 ++
          go false 2 ++ go true 7 ++ go false 6) = some s ∧
      s.shared.server.broadcast = [first, second].map generateResp ∧ texts s.shared.server.map ['k'] = some ['v'] := by
  intro go first second
  have hrun : ((Tasks.start (Server.start .master 1)).run 128
      ([(false, .request (.set ['k'] ['v'] none)), (true, .request (.set ['k'] ['w'] none))] ++ go true 1 ++
        go false 2 ++ go true 7 ++ go false 6)).map (fun s => (s.shared.lock, s.shared.server.broadcast)) =
      some (none, [first, second].map generateResp) := by decide +kernel
  obtain ⟨s, hs, hseen⟩ := Option.map_eq_some_iff.1 hrun
  obtain ⟨hlock, hsent⟩ := Prod.mk.inj hseen
  refine ⟨s, hs, hsent, ?_⟩
  have hkey : NeverExpires (Server.start .master 1).map [first, second] ['k'] := by
    refine ⟨nofun, fun value px hc => ?_⟩
    rcases List.mem_pair.1 hc with hc | hc <;> exact (Command.set.inj hc).2.2
  have hcommits := (broadcast_commits ⟨rfl, by decide⟩ hs).2 hlock [first, second] (by simp [first, second, IsSet]) hsent
    ['k'] hkey
  rw [← hcommits]
  rfl

end Rusdis
