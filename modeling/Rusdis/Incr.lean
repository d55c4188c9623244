import Rusdis.Execute
/-!
# Incr — what an `INCR` adds

An `INCR` adds one, or fails and leaves the state as it was; at the largest `i64` it replies with that number once more
(`incr_adds_one`).  So a batch of them counts up to the largest number and stays there (`previous_executeAll`).
-/
namespace Rusdis

open Decimal (intText)

/-- The number an `INCR` starts from: `0` where the key is absent, none where the value is no `i64`. -/
def previous (m : DataMap) (key : List Char) : Option Int :=
  match m.lookup key with
  | none   => some 0
  | some d => (parseI64 d.data).toOption

def expirationOf (m : DataMap) (key : List Char) : Option SystemTime := (m.lookup key).bind StringData.expiration

/-- The reply is `:m`, and the map then holds the text of `m` under the key, with the expiration it had; nothing else
has changed. -/
structure Incremented (key : List Char) (σ : Server) (m : Int) (r : Server × List Char) : Prop where
  reply : r.2 = [':'] ++ intText m ++ crlf
  server : r.1 = { σ with map := r.1.map }
  value : r.1.map.lookup key = some ⟨intText m, expirationOf σ.map key⟩
  others : ∀ key', key' ≠ key → r.1.map.lookup key' = σ.map.lookup key'

theorem previous_eq (m : DataMap) (key : List Char) :
    previous m key = (parseI64 (orInsert key ⟨['0'], none⟩ m).2.data).toOption := by
  unfold previous orInsert
  cases m.lookup key <;> rfl

theorem toOption_eq_some {ε α : Type} {x : Except ε α} {a : α} : x.toOption = some a ↔ x = .ok a := by
  cases x with
  | error e => exact iff_of_false nofun nofun
  | ok b => exact ⟨fun h => congrArg _ (Option.some.inj h), fun h => congrArg _ (Except.ok.inj h)⟩

theorem previous_range {m : DataMap} {key : List Char} {n : Int} (h : previous m key = some n) :
    -9223372036854775808 ≤ n ∧ n ≤ 9223372036854775807 := by
  rw [previous_eq, toOption_eq_some] at h
  exact Decimal.readInt_range (by decide) (by decide) h

/-- **An `INCR` of a number** replies the number it stores: the next one, below the largest. -/
theorem incremented_executeIncr {σ : Server} {key : List Char} {n : Int} (h : previous σ.map key = some n) :
    Incremented key σ (if n < 9223372036854775807 then n + 1 else n) (executeIncr key σ) := by
  rw [previous_eq, toOption_eq_some] at h
  have hexp : (orInsert key ⟨['0'], none⟩ σ.map).2.expiration = expirationOf σ.map key := by
    unfold orInsert expirationOf
    cases σ.map.lookup key <;> rfl
  have hothers := fun key' (hne : key' ≠ key) => lookup_executeIncr_ne hne σ
  unfold executeIncr at hothers ⊢
  simp only [h] at hothers ⊢
  refine ⟨rfl, rfl, ?_, hothers⟩
  rw [AList.lookup_insert, StringData.setData, hexp]

theorem executeIncr_of_none {σ : Server} {key : List Char} (h : previous σ.map key = none) :
    executeIncr key σ = (σ, "-ERR value is not an integer or out of range\r\n".toList) := by
  rw [previous_eq] at h
  unfold executeIncr orInsert at *
  cases hd : σ.map.lookup key with
  | none =>
    rw [hd] at h
    cases h
  | some d =>
    rw [hd] at h
    cases hnum : parseI64 d.data with
    | ok num => simp only [hnum] at h; cases h
    | error e => simp only [hnum]

section
variable (regex : List Char → Option (List Char → Bool))

/-- **An `INCR` adds one, or repeats the largest number, or fails and changes nothing.** -/
theorem incr_adds_one (now : SystemTime) (key : List Char) (σ : Server) :
    (∃ n, previous σ.map key = some n ∧ n < 9223372036854775807 ∧
      Incremented key σ (n + 1) (executeMultiCommands regex [(now, .incr key)] false σ)) ∨
    (previous σ.map key = some 9223372036854775807 ∧
      Incremented key σ 9223372036854775807 (executeMultiCommands regex [(now, .incr key)] false σ)) ∨
    (previous σ.map key = none ∧ executeMultiCommands regex [(now, .incr key)] false σ =
      (σ, "-ERR value is not an integer or out of range\r\n".toList)) := by
  have hsingle : executeMultiCommands regex [(now, .incr key)] false σ = executeIncr key σ := by
    simp [executeMultiCommands, executeAll, execute]
  rw [hsingle]
  cases hn : previous σ.map key with
  | none => exact Or.inr (Or.inr ⟨rfl, executeIncr_of_none hn⟩)
  | some n =>
    have hincr := incremented_executeIncr hn
    have hrange := previous_range hn
    by_cases hlt : n < 9223372036854775807
    · rw [if_pos hlt] at hincr
      exact Or.inl ⟨n, rfl, hlt, hincr⟩
    · rw [if_neg hlt] at hincr
      obtain rfl : n = 9223372036854775807 := by omega
      exact Or.inr (Or.inl ⟨rfl, hincr⟩)

/-- **At the largest number the reply repeats it.** -/
theorem incr_at_largest : ¬ ∀ (now : SystemTime) (key : List Char) (σ : Server),
    (∃ n, previous σ.map key = some n ∧
      Incremented key σ (n + 1) (executeMultiCommands (fun _ => none) [(now, .incr key)] false σ)) ∨
    ((executeMultiCommands (fun _ => none) [(now, .incr key)] false σ).2.head? = some '-' ∧
      (executeMultiCommands (fun _ => none) [(now, .incr key)] false σ).1 = σ) := by
  intro h
  let σ : Server := (Server.start .master 0).store ['k'] ⟨"9223372036854775807".toList, none⟩
  have hreply : (executeMultiCommands (fun _ => none) [(0, .incr ['k'])] false σ).2 =
      ":9223372036854775807\r\n".toList := by
    decide +kernel
  have hprevious : previous σ.map ['k'] = some 9223372036854775807 := by decide +kernel
  rcases h 0 ['k'] σ with ⟨n, hn, hincr⟩ | ⟨herror, -⟩
  · cases hprevious.symm.trans hn
    have hbad := hreply.symm.trans hincr.reply
    revert hbad
    decide +kernel
  · rw [hreply] at herror
    revert herror
    decide

/-! ## Counting on -/

theorem Incremented.previous {key : List Char} {σ : Server} {m : Int} {r : Server × List Char} (h : Incremented key σ m r)
    (hlo : -9223372036854775808 ≤ m) (hhi : m ≤ 9223372036854775807) : previous r.1.map key = some m := by
  unfold Rusdis.previous
  rw [h.value]
  simp only [parseI64, Decimal.readInt_intText hlo hhi (by decide) (by decide)]
  rfl

/-- **A batch of `INCR`s counts up to the largest number.** -/
theorem previous_executeAll {key : List Char} : ∀ (clock : List SystemTime) (σ : Server) (n : Int),
    previous σ.map key = some n → previous (executeAll regex (clock.map (·, .incr key)) σ).1.map key =
      some (min (n + clock.length) 9223372036854775807)
  | [], σ, n, h => by
    have hrange := previous_range h
    rw [List.map_nil, executeAll, h, List.length_nil]
    congr 1
    omega
  | _ :: clock, σ, n, h => by
    have hrange := previous_range h
    have hincr := incremented_executeIncr h
    have hnext := hincr.previous (by split <;> omega) (by split <;> omega)
    have ih := previous_executeAll clock _ _ hnext
    rw [List.map_cons, executeAll, List.length_cons]
    refine ih.trans ?_
    congr 1
    split <;> omega

end

end Rusdis
