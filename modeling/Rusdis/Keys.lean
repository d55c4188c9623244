import Rusdis.Execute
import Rusdis.Glob
/-!
# Keys — what `KEYS` lists

A `KEYS` pattern becomes a regular expression that is searched for: a key is listed when a part of it matches, its stars
taking no line feed.  The reply is the glob's exactly when that makes no difference to any stored key (`keys_iff`).
-/
namespace Rusdis

open Glob
open Decimal (natText)

/-- Letters, digits and stars. -/
def PlainPattern (pattern : List Char) : Prop := ∀ c ∈ pattern, c = '*' ∨ c.isAlphanum = true

/-- A pattern as a glob. -/
def globTokens (pattern : List Char) : List (Token Char) := pattern.map (fun c => if c = '*' then .star else .char c)

/-- A regular expression of plain characters and `.*`. -/
def exprTokens : List Char → List (Token Char)
  | []              => []
  | '.' :: '*' :: t => .star :: exprTokens t
  | c :: t          => .char c :: exprTokens t

/-- `is_match`: a part of the key matches, and `.` is any character but the line feed. -/
def IsMatch (expr : List Char) (p : List Char → Bool) : Prop :=
  ∀ key, p key = true ↔ Within (· ≠ '\n') (exprTokens expr) key

/-- The reply is the array of the stored keys that the whole glob matches, each once. -/
def Lists (pattern : List Char) (m : DataMap) (reply : List Char) : Prop :=
  ∃ keys : List (List Char), reply = ['*'] ++ natText keys.length ++ crlf ++ keys.flatMap encodeBulk ∧ keys.Nodup ∧
    ∀ key, key ∈ keys ↔ key ∈ m ∧ Matches (fun _ => True) (globTokens pattern) key

/-! ## The expression -/

theorem toNat_of_isAlphanum {c : Char} (h : c.isAlphanum = true) : c.toNat < 128 ∧ c ≠ '.' := by
  constructor
  · unfold Char.isAlphanum Char.isAlpha Char.isUpper Char.isLower Char.isDigit at h
    simp only [Bool.or_eq_true, Bool.and_eq_true, decide_eq_true_eq, ge_iff_le, UInt32.le_iff_toNat_le] at h
    change c.val.toNat < 128
    rcases h with (⟨-, h⟩ | ⟨-, h⟩) | ⟨-, h⟩ <;> exact Nat.lt_of_le_of_lt h (by decide)
  · rintro rfl
    revert h
    decide

theorem newPattern_star (pattern : List Char) : newPattern ('*' :: pattern) = '.' :: '*' :: newPattern pattern := rfl

theorem newPattern_plain {c : Char} (h : c.toNat < 128) (hstar : c ≠ '*') (pattern : List Char) :
    newPattern (c :: pattern) = c :: newPattern pattern := by
  have hc : (UInt8.ofNat c.toNat).toNat = c.toNat := by
    rw [UInt8.toNat_ofNat']
    omega
  have hbyte : UInt8.ofNat c.toNat ≠ 42 := by
    intro h42
    rw [h42] at hc
    exact hstar (Char.toNat_inj.1 hc.symm)
  rw [newPattern, Utf8.encode, List.flatMap_cons, Utf8.utf8EncodeChar_ascii h, List.singleton_append, List.flatMap_cons,
    if_neg hbyte, hc, Char.ofNat_toNat]
  rfl

theorem exprTokens_plain {c : Char} (h : c ≠ '.') (t : List Char) : exprTokens (c :: t) = .char c :: exprTokens t := by
  rw [exprTokens]
  exact fun _ hc => absurd hc h

/-- **The expression of a pattern is its glob.** -/
theorem exprTokens_newPattern : ∀ {pattern : List Char}, PlainPattern pattern →
    exprTokens (newPattern pattern) = globTokens pattern
  | [], _ => rfl
  | c :: pattern, h => by
    unfold PlainPattern at h
    rw [List.forall_mem_cons] at h
    have ih := exprTokens_newPattern h.2
    rcases h.1 with rfl | hc
    · rw [newPattern_star, exprTokens, ih]
      rfl
    · by_cases hstar : c = '*'
      · rw [hstar, newPattern_star, exprTokens, ih]
        rfl
      · obtain ⟨hlt, hdot⟩ := toNat_of_isAlphanum hc
        rw [newPattern_plain hlt hstar, exprTokens_plain hdot, ih, globTokens, globTokens, List.map_cons, if_neg hstar]

/-! ## The reply -/

theorem parseCommand_keys (pattern : List Char) :
    parseCommand [.bulkString "KEYS".toList, .bulkString pattern] = .ok (.keys (newPattern pattern)) := rfl

/-- A request for a pattern is answered with the keys of its glob. -/
def KeysServed (regex : List Char → Option (List Char → Bool)) (now : SystemTime) (pattern : List Char) (σ : Server) :
    Prop :=
  ∃ cmd, parseCommand [.bulkString "KEYS".toList, .bulkString pattern] = .ok cmd ∧
    Lists pattern σ.map (executeMultiCommands regex [(now, cmd)] false σ).2

section
variable {regex : List Char → Option (List Char → Bool)} {pattern : List Char} {p : List Char → Bool}

theorem keysServed_filter (hregex : regex (newPattern pattern) = some p) (now : SystemTime) (σ : Server) :
    KeysServed regex now pattern σ ↔ ∀ key ∈ σ.map, (p key = true ↔ Matches (fun _ => True) (globTokens pattern) key) := by
  have hreply : (executeMultiCommands regex [(now, .keys (newPattern pattern))] false σ).2 =
      encodeRequest (σ.map.keys.filter p) := by
    simp only [executeMultiCommands, executeAll, execute, executeKeys, hregex, List.append_nil]
    rfl
  have hmem : ∀ key, key ∈ σ.map.keys.filter p ↔ key ∈ σ.map ∧ p key = true := fun key => by
    rw [List.mem_filter, AList.mem_keys]
  constructor
  · rintro ⟨cmd, hcmd, keys, hkeys, -, hglob⟩ key hkey
    obtain rfl := Except.ok.inj ((parseCommand_keys pattern).symm.trans hcmd)
    have heq : σ.map.keys.filter p = keys := encodeRequest_injective (hreply.symm.trans hkeys)
    have hlisted := hglob key
    rw [← heq, hmem] at hlisted
    exact ⟨fun hp => (hlisted.1 ⟨hkey, hp⟩).2, fun hg => (hlisted.2 ⟨hkey, hg⟩).2⟩
  · intro h
    refine ⟨_, parseCommand_keys pattern, σ.map.keys.filter p, hreply, σ.map.keys_nodup.filter p, fun key => ?_⟩
    rw [hmem]
    exact and_congr_right (fun hkey => h key hkey)

/-- **`KEYS` lists the keys of the glob exactly when, of the stored keys, those that have a matching part, its stars
taking no line feed, are those that match as a whole.** -/
theorem keys_iff (hplain : PlainPattern pattern) (hregex : regex (newPattern pattern) = some p)
    (hmatch : IsMatch (newPattern pattern) p) (now : SystemTime) (σ : Server) : KeysServed regex now pattern σ ↔
      ∀ key ∈ σ.map, (Within (· ≠ '\n') (globTokens pattern) key ↔ Matches (fun _ => True) (globTokens pattern) key) := by
  rw [keysServed_filter hregex]
  refine forall₂_congr (fun key _ => ?_)
  rw [hmatch key, exprTokens_newPattern hplain]

/-- **Between two stars the glob is met**, where no stored key has a line feed. -/
theorem keys_of_stars {q : List Char} (hplain : PlainPattern ('*' :: q ++ ['*']))
    (hregex : regex (newPattern ('*' :: q ++ ['*'])) = some p) (hmatch : IsMatch (newPattern ('*' :: q ++ ['*'])) p)
    {σ : Server} (hlines : ∀ key ∈ σ.map, '\n' ∉ key) (now : SystemTime) : KeysServed regex now ('*' :: q ++ ['*']) σ := by
  rw [keysServed_filter hregex]
  intro key hkey
  have hany : ∀ c ∈ key, c ≠ '\n' := fun c hc hn => hlines key hkey (hn ▸ hc)
  have htokens : globTokens ('*' :: q ++ ['*']) = .star :: globTokens q ++ [.star] := by
    rw [globTokens, List.map_append]
    rfl
  rw [hmatch key, exprTokens_newPattern hplain, htokens, within_iff_of_stars hany]
  constructor
  · exact Matches.mono (fun _ _ _ => trivial) List.infix_rfl
  · exact Matches.mono (fun c hc _ => hany c hc) List.infix_rfl

end

/-- The search itself. -/
def search (expr : List Char) : Option (List Char → Bool) :=
  some (fun key => decide (Within (· ≠ '\n') (exprTokens expr) key))

theorem isMatch_search (expr : List Char) :
    IsMatch expr (fun key => decide (Within (· ≠ '\n') (exprTokens expr) key)) := fun _ => decide_eq_true_iff

def Server.keyed (key : List Char) : Server := (Server.start .master 0).store key ⟨['v'], none⟩

theorem keys_open_end : KeysServed search 0 ['a', '*'] (.keyed ['a', 'b']) ↔
    ∀ key ∈ (Server.keyed ['a', 'b']).map,
      (Within (· ≠ '\n') (globTokens ['a', '*']) key ↔ Matches (fun _ => True) (globTokens ['a', '*']) key) :=
  keys_iff (by simp [PlainPattern]) rfl (isMatch_search _) 0 _

/-- **The pattern `a` lists the key `ab`.** -/
theorem keys_unanchored : ¬ ∀ (regex : List Char → Option (List Char → Bool)) (pattern : List Char)
    (p : List Char → Bool) (now : SystemTime) (σ : Server), PlainPattern pattern → regex (newPattern pattern) = some p →
      IsMatch (newPattern pattern) p → KeysServed regex now pattern σ := by
  intro h
  have hserved := h search ['a'] _ 0 (.keyed ['a', 'b']) (by simp [PlainPattern]) rfl (isMatch_search _)
  have hkey := (keysServed_filter rfl 0 _).1 hserved ['a', 'b'] (by decide)
  revert hkey
  decide

end Rusdis
