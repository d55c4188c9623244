import Rusdis.Answers
import Rusdis.RdbImage
/-!
# Words — a request for every command

`words c` is a request for `c`; for a `SET` it is what `generate_resp` spells.  Whatever a command was read from, it is
read again from its words (`parseCommand_words`), so `parse_command` accepts nothing that has no such spelling
(`accepted_iff_words`).
-/
namespace Rusdis

open Fallible Utf8
open Decimal (natText)

/-! ## Patterns -/

/-- The bytes a pattern was made of. -/
def unstar : List Char → List UInt8
  | []              => []
  | '.' :: '*' :: t => 42 :: unstar t
  | c :: t          => UInt8.ofNat c.toNat :: unstar t

/-- The text that `KEYS` was sent for a pattern. -/
def oldPattern (pattern : List Char) : List Char := decodeLossy (unstar pattern)

theorem unstar_cons {c : Char} {t : List Char} (h : t.head? ≠ some '*') :
    unstar (c :: t) = UInt8.ofNat c.toNat :: unstar t := by
  rw [unstar]
  rintro t' rfl rfl
  exact h rfl

/-- A star in a pattern follows its point, and no pattern begins with one. -/
theorem head?_pattern (bs : List UInt8) :
    (bs.flatMap (fun b => if b = 42 then ['.', '*'] else [Char.ofNat b.toNat])).head? ≠ some '*' := by
  cases bs with
  | nil => nofun
  | cons b bs =>
    rw [List.flatMap_cons]
    by_cases hb : b = 42
    · rw [if_pos hb]
      exact fun h => absurd (Option.some.inj h) (by decide)
    · rw [if_neg hb, List.singleton_append, List.head?_cons]
      intro h
      have hstar := congrArg Char.toNat (Option.some.inj h)
      rw [← byteChar, toNat_byteChar] at hstar
      exact hb (UInt8.toNat_inj.1 hstar)

/-- **A pattern says what it was made of.** -/
theorem oldPattern_newPattern (s : List Char) : oldPattern (newPattern s) = s := by
  have hbytes : ∀ bs : List UInt8,
      unstar (bs.flatMap (fun b => if b = 42 then ['.', '*'] else [Char.ofNat b.toNat])) = bs := by
    intro bs
    induction bs with
    | nil => rfl
    | cons b bs ih =>
      rw [List.flatMap_cons]
      by_cases hb : b = 42
      · rw [if_pos hb, hb]
        exact congrArg (42 :: ·) ih
      · rw [if_neg hb, List.singleton_append, unstar_cons (head?_pattern bs), ih, ← byteChar, toNat_byteChar, UInt8.ofNat_toNat]
  rw [oldPattern, newPattern, hbytes, decodeLossy_encode]

/-! ## The words -/

def CapaOption.word : CapaOption → List Char
  | .eof    => "eof".toList
  | .psync2 => "psync2".toList

def InfoSection.word : InfoSection → List Char
  | .replication => "replication".toList

def ConfigGetOption.word : ConfigGetOption → List Char
  | .dir        => "dir".toList
  | .dbFilename => "dbfilename".toList

def ReplconfSubcommand.words : ReplconfSubcommand → List (List Char)
  | .listeningPort port => ["listening-port".toList, natText port.toNat]
  | .capa options       => "capa".toList :: options.map CapaOption.word
  | .getack s           => ["getack".toList, s]
  | .ack offset         => ["ack".toList, natText offset.toNat]

/-- A request for a command. -/
def Command.words : Command → List (List Char)
  | .set key value px     => setWords key value px
  | .get key              => ["get".toList, key]
  | .ping                 => ["ping".toList]
  | .echo words           => ["echo".toList, words]
  | .config (.get option) => ["config".toList, "get".toList, option.word]
  | .keys pattern         => ["keys".toList, oldPattern pattern]
  | .incr key             => ["incr".toList, key]
  | .multi                => ["multi".toList]
  | .exec                 => ["exec".toList]
  | .discard              => ["discard".toList]
  | .info sections        => "info".toList :: sections.map InfoSection.word
  | .replconf sub         => "replconf".toList :: sub.words
  | .psync id offset      => ["psync".toList, id.getD "?".toList, offset.elim "?".toList (fun n => natText n.toNat)]

/-- It is what a `SET` is broadcast as. -/
theorem generateResp_words {c : Command} (hc : IsSet c) : generateResp c = encodeRequest c.words := by
  obtain ⟨key, value, px, rfl⟩ := hc
  exact generateResp_set key value px

/-! ## What is accepted -/

/-- A pattern was made of a text, a `CAPA` has an option, and the id of a `PSYNC` has forty bytes. -/
def Command.WellFormed : Command → Prop
  | .keys pattern             => ∃ s, pattern = newPattern s
  | .replconf (.capa options) => options ≠ []
  | .psync (some id) _        => byteLen id = 40
  | _                         => True

theorem parseReplconfCommand_wellFormed {vs : List Value} {c : Command} (h : parseReplconfCommand vs = .ok c) :
    c.WellFormed := by
  unfold parseReplconfCommand at h
  split at h
  · cases h
  · simp only at h
    split at h
    · obtain ⟨sub, hsub, he⟩ := bind_eq_ok.1 h
      cases he
      obtain ⟨p, rest, -, hp⟩ := oneParameter_eq_ok hsub
      obtain ⟨port, -, he⟩ := bind_eq_ok.1 hp
      cases he
      trivial
    split at h
    · obtain ⟨sub, hsub, he⟩ := bind_eq_ok.1 h
      cases he
      obtain ⟨options, -, hoptions⟩ := bind_eq_ok.1 hsub
      split at hoptions
      · cases hoptions
      · rename_i hne
        cases hoptions
        exact List.ne_nil_of_length_pos (Nat.pos_of_ne_zero hne)
    split at h
    · obtain ⟨sub, hsub, he⟩ := bind_eq_ok.1 h
      cases he
      obtain ⟨s, rest, -, hs⟩ := oneParameter_eq_ok hsub
      cases hs
      trivial
    split at h
    · obtain ⟨sub, hsub, he⟩ := bind_eq_ok.1 h
      cases he
      obtain ⟨s, rest, -, hs⟩ := oneParameter_eq_ok hsub
      obtain ⟨offset, -, he⟩ := bind_eq_ok.1 hs
      cases he
      trivial
    · cases h
  · cases h

theorem parsePsyncCommand_wellFormed {vs : List Value} {c : Command} (h : parsePsyncCommand vs = .ok c) :
    c.WellFormed := by
  unfold parsePsyncCommand at h
  split at h
  · rename_i id offset rest
    cases h
    by_cases hid : byteLen id = 40
    · rw [if_neg (not_not_intro hid)]
      exact hid
    · rw [if_pos hid]
      trivial
  · cases h
  · cases h

theorem eq_or_eq_of_ite {α : Type} {p : Prop} [Decidable p] {x y z : α} (h : (if p then x else y) = z) :
    x = z ∨ y = z :=
  (ite_eq_or_eq p x y).imp (fun hx => hx.symm.trans h) (fun hy => hy.symm.trans h)

theorem parseNamed_wellFormed {word : List Char} {vs : List Value} {c : Command} (h : parseNamed word vs = .ok c) :
    c.WellFormed := by
  rw [parseNamed] at h
  rcases eq_or_eq_of_ite h with h | h
  · obtain ⟨key, value, px, rest, -, -, rfl⟩ := parseSetCommand_eq_ok h
    trivial
  rcases eq_or_eq_of_ite h with h | h
  · obtain ⟨key, rest, -, he⟩ := oneParameter_eq_ok h
    cases he
    trivial
  rcases eq_or_eq_of_ite h with h | h
  · cases h
    trivial
  rcases eq_or_eq_of_ite h with h | h
  · obtain ⟨words, rest, -, he⟩ := oneParameter_eq_ok h
    cases he
    trivial
  rcases eq_or_eq_of_ite h with h | h
  · obtain ⟨sub, rfl⟩ := parseConfigCommand_eq_ok h
    trivial
  rcases eq_or_eq_of_ite h with h | h
  · obtain ⟨pattern, rest, -, he⟩ := oneParameter_eq_ok h
    cases he
    exact ⟨pattern, rfl⟩
  rcases eq_or_eq_of_ite h with h | h
  · obtain ⟨key, rest, -, he⟩ := oneParameter_eq_ok h
    cases he
    trivial
  rcases eq_or_eq_of_ite h with h | h
  · cases h
    trivial
  rcases eq_or_eq_of_ite h with h | h
  · cases h
    trivial
  rcases eq_or_eq_of_ite h with h | h
  · cases h
    trivial
  rcases eq_or_eq_of_ite h with h | h
  · obtain ⟨sections, -, he⟩ := bind_eq_ok.1 h
    cases he
    trivial
  rcases eq_or_eq_of_ite h with h | h
  · exact parseReplconfCommand_wellFormed h
  rcases eq_or_eq_of_ite h with h | h
  · exact parsePsyncCommand_wellFormed h
  · cases h

/-! ## What the words are read as -/

theorem capaOptions_words : ∀ options : List CapaOption,
    capaOptions ((options.map CapaOption.word).map .bulkString) = .ok options
  | []                 => rfl
  | .eof :: options    => by
    rw [List.map_cons, List.map_cons, capaOptions, capaOptions_words options]
    rfl
  | .psync2 :: options => by
    rw [List.map_cons, List.map_cons, capaOptions, capaOptions_words options]
    rfl

theorem infoSections_words : ∀ sections : List InfoSection,
    infoSections ((sections.map InfoSection.word).map .bulkString) = .ok sections
  | []                        => rfl
  | .replication :: sections  => by
    rw [List.map_cons, List.map_cons, infoSections, infoSections_words sections]
    rfl

theorem parseU16_natText (n : UInt16) : parseU16 (natText n.toNat) = .ok n := by
  have hn := n.toNat_lt
  unfold parseU16
  rw [Decimal.readInt_natText (by decide) (by omega), map_ok, Int.toNat_natCast, UInt16.ofNat_toNat]

theorem parseReplconfCommand_words {sub : ReplconfSubcommand} (h : (Command.replconf sub).WellFormed) :
    parseReplconfCommand (sub.words.map .bulkString) = .ok (.replconf sub) := by
  cases sub with
  | listeningPort port =>
    have hread : parseReplconfCommand ((ReplconfSubcommand.listeningPort port).words.map .bulkString) =
        (do return .replconf (← (do return .listeningPort (← orParseInt (parseU16 (natText port.toNat)))))) := rfl
    rw [hread, parseU16_natText]
    rfl
  | capa options =>
    have hread : parseReplconfCommand ((ReplconfSubcommand.capa options).words.map .bulkString) =
        (do return .replconf (← parseReplconfCapaCommand ((options.map CapaOption.word).map .bulkString))) := rfl
    rw [hread, parseReplconfCapaCommand, capaOptions_words, ok_bind, if_neg (fun hlen => h (List.length_eq_zero_iff.1 hlen))]
    rfl
  | getack s => rfl
  | ack offset =>
    have hread : parseReplconfCommand ((ReplconfSubcommand.ack offset).words.map .bulkString) =
        (do return .replconf (← (do return .ack (← orParseInt (parseU64 (natText offset.toNat)))))) := rfl
    rw [hread, parseU64_natText]
    rfl

theorem parsePsyncCommand_words {id : Option (List Char)} {offset : Option UInt64}
    (h : (Command.psync id offset).WellFormed) : parsePsyncCommand [.bulkString (id.getD "?".toList),
      .bulkString (offset.elim "?".toList (fun n => natText n.toNat))] = .ok (.psync id offset) := by
  have hid : (if byteLen (id.getD "?".toList) ≠ 40 then none else some (id.getD "?".toList)) = id := by
    cases id with
    | none => rfl
    | some id => exact if_neg (not_not_intro h)
  have hoffset : (parseU64 (offset.elim "?".toList (fun n => natText n.toNat))).toOption = offset := by
    cases offset with
    | none => rfl
    | some n => rw [Option.elim_some, parseU64_natText]; rfl
  rw [parsePsyncCommand, hid, hoffset]

theorem parseCommand_words {c : Command} (h : c.WellFormed) : parseCommand (c.words.map .bulkString) = .ok c := by
  cases c with
  | set key value px => exact parseCommand_setWords key value px
  | config sub =>
    obtain ⟨option⟩ := sub
    cases option <;> rfl
  | keys pattern =>
    obtain ⟨s, rfl⟩ := h
    have hread : parseCommand ((Command.keys (newPattern s)).words.map .bulkString) =
        .ok (.keys (newPattern (oldPattern (newPattern s)))) := rfl
    rw [hread, oldPattern_newPattern]
  | info sections =>
    have hread : parseCommand ((Command.info sections).words.map .bulkString) =
        (do return .info (← infoSections ((sections.map InfoSection.word).map .bulkString))) := rfl
    rw [hread, infoSections_words]
    rfl
  | replconf sub => exact parseReplconfCommand_words h
  | psync id offset => exact parsePsyncCommand_words h
  | _ => rfl

/-- **`parse_command` accepts the well-formed commands and no others**, and each of them in its own words. -/
theorem accepted_iff_words (c : Command) : ((∃ vs, parseCommand vs = .ok c) ↔ c.WellFormed) ∧
    ((∃ vs, parseCommand vs = .ok c) ↔ parseCommand (c.words.map .bulkString) = .ok c) := by
  have hwell : (∃ vs, parseCommand vs = .ok c) → c.WellFormed := by
    rintro ⟨vs, h⟩
    obtain ⟨cmd, rest, -, hnamed⟩ := parseCommand_eq_ok h
    exact parseNamed_wellFormed hnamed
  exact ⟨⟨hwell, fun h => ⟨_, parseCommand_words h⟩⟩, ⟨fun h => parseCommand_words (hwell h), fun h => ⟨_, h⟩⟩⟩

end Rusdis
