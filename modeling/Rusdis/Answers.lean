import Rusdis.Session
/-!
# Answers — which replies are one RESP value

`Reply` is a text that is one whole RESP value.  A command's reply is one exactly when the command is `Answered`
(`reply_execute_iff`), and so are all the replies of an `EXEC` when every queued command is (`exec_reply_iff`).
-/
namespace Rusdis

open Utf8
open Decimal (intText natText)

/-- A text that fits in one line of a reply. -/
def OneLine (s : List Char) : Prop := '\r' ∉ s ∧ '\n' ∉ s

instance (s : List Char) : Decidable (OneLine s) := inferInstanceAs (Decidable (_ ∧ _))

/-- One whole RESP value. -/
inductive Reply : List Char → Prop
  | simple {s : List Char} (hs : OneLine s) : Reply ('+' :: s ++ crlf)
  | error {s : List Char} (hs : OneLine s) : Reply ('-' :: s ++ crlf)
  | integer (n : Int) : Reply (':' :: intText n ++ crlf)
  | null : Reply "$-1\r\n".toList
  | bulk (s : List Char) : Reply (encodeBulk s)
  | array (rs : List (List Char)) (hrs : ∀ r ∈ rs, Reply r) : Reply ('*' :: natText rs.length ++ crlf ++ rs.flatten)

theorem reply_array (rs : List (List Char)) {n : Nat} (hn : rs.length = n) (hrs : ∀ r ∈ rs, Reply r) :
    Reply ('*' :: natText n ++ crlf ++ rs.flatten) := by
  subst hn
  exact .array rs hrs

/-! ## What a value cannot be -/

theorem getLast?_append_crlf (s : List Char) : (s ++ crlf).getLast? = some '\n' := by
  rw [show crlf = ['\r'] ++ ['\n'] from rfl, ← List.append_assoc, List.getLast?_concat]

theorem Reply.getLast? {s : List Char} (h : Reply s) : s.getLast? = some '\n' := by
  induction h with
  | simple | error | integer | bulk => exact getLast?_append_crlf _
  | null => decide
  | array rs hrs ih =>
    rcases List.eq_nil_or_concat rs with rfl | ⟨rs', r, rfl⟩
    · rw [List.flatten_nil, List.append_nil]
      exact getLast?_append_crlf _
    · rw [List.concat_eq_append, List.flatten_append, List.flatten_singleton, ← List.append_assoc,
        List.getLast?_append, ih r (by simp)]
      rfl

theorem not_reply {s : List Char} (h : s.getLast? ≠ some '\n') : ¬ Reply s := fun hr => h hr.getLast?

theorem reply_simple_iff {s : List Char} : Reply ('+' :: s ++ crlf) ↔ OneLine s := by
  refine ⟨fun h => ?_, .simple⟩
  generalize ht : '+' :: s ++ crlf = t at h
  cases h with
  | simple hs =>
    rw [List.cons_append, List.cons_append, List.cons.injEq] at ht
    rwa [List.append_cancel_right ht.2]
  | _ => cases ht

theorem natText_ne_minus (n : Nat) (s t : List Char) : natText n ++ s ≠ '-' :: t := by
  obtain ⟨d, ds, hd⟩ := List.exists_cons_of_ne_nil (Decimal.natText_ne_nil n)
  have hdigit : d.isDigit = true := Decimal.isDigit_of_mem_natText (by rw [hd]; exact List.mem_cons_self)
  rw [hd, List.cons_append]
  rintro h
  obtain ⟨rfl, -⟩ := List.cons.inj h
  cases hdigit

/-- **A bulk string declares the length of its text.** -/
theorem reply_bulk_iff {n : Nat} {s : List Char} : Reply ('$' :: natText n ++ crlf ++ (s ++ crlf)) ↔ n = byteLen s := by
  constructor
  · intro h
    generalize ht : '$' :: natText n ++ crlf ++ (s ++ crlf) = t at h
    cases h with
    | null =>
      simp only [List.cons_append, List.append_assoc] at ht
      exact absurd (List.cons.inj ht).2 (natText_ne_minus n _ _)
    | bulk s' =>
      simp only [encodeBulk, List.cons_append, List.cons.injEq, true_and, List.append_assoc] at ht
      rw [← List.append_assoc (natText n), ← List.append_assoc (natText _)] at ht
      obtain ⟨rfl, hs⟩ := header_inj ht
      rw [List.append_cancel_right hs]
    | _ => cases ht
  · rintro rfl
    have h := Reply.bulk s
    rwa [encodeBulk, List.append_assoc] at h

/-! ## The replies of a command -/

section
variable (regex : List Char → Option (List Char → Bool))

/-- A command whose reply is one value.  Left out are a `SET` whose expiry the clock cannot hold and a `KEYS` whose
pattern is no regular expression (their errors miss the line ending), an `INFO` of no section (its counter wraps), an
acknowledgement, and an `ECHO` of more than one line. -/
def Answered (now : SystemTime) (r : ReplicationInfo) : Command → Prop
  | .ping | .config _ | .get _ | .incr _ => True
  | .echo words       => OneLine words
  | .set _ _ px       => setExpiration now px ≠ none
  | .keys pattern     => regex pattern ≠ none
  | .info sections    => sections ≠ [] ∧ byteLen (sections.flatMap (infoText r)) ≤ 18446744073709551616
  | .replconf (.ack _) => False
  | .replconf _       => True
  | .multi | .exec | .discard | .psync _ _ => False

theorem reply_executeKeys {pattern : List Char} (σ : Server) (h : regex pattern ≠ none) :
    Reply (executeKeys regex pattern σ) := by
  obtain ⟨p, hp⟩ := Option.ne_none_iff_exists'.1 h
  rw [executeKeys, hp]
  have harray := reply_array ((σ.map.keys.filter p).map encodeBulk) (List.length_map _) (fun r hr => by
    obtain ⟨key, -, rfl⟩ := List.mem_map.1 hr
    exact .bulk key)
  rwa [← List.flatMap_def] at harray

theorem reply_configText (name : String) (o : Option (List Char)) : Reply (configText name o) := by
  have htwo : "*2\r\n".toList = '*' :: natText 2 ++ crlf := by decide
  have hpair : ∀ {r : List Char}, Reply r → Reply ("*2\r\n".toList ++ encodeBulk name.toList ++ r) := by
    intro r hr
    have harray := reply_array (n := 2) [encodeBulk name.toList, r] rfl
      (List.forall_mem_cons.2 ⟨.bulk _, List.forall_mem_singleton.2 hr⟩)
    rwa [List.flatten_cons, List.flatten_singleton, ← List.append_assoc, ← htwo] at harray
  cases o with
  | none => exact hpair .null
  | some s => exact hpair (.bulk s)

theorem reply_executeConfig (sub : ConfigSubcommand) (args : Args) : Reply (executeConfig sub args) := by
  obtain ⟨_ | _⟩ := sub <;> exact reply_configText _ _

theorem reply_executeGet (now : SystemTime) (key : List Char) (σ : Server) : Reply (executeGet now key σ).2 := by
  unfold executeGet
  split
  · split
    · exact .null
    · exact .bulk _
  · exact .null

theorem reply_executeIncr (key : List Char) (σ : Server) : Reply (executeIncr key σ).2 := by
  simp only [executeIncr]
  split
  · exact .integer _
  · exact .error (s := "ERR value is not an integer or out of range".toList) (by decide)

theorem reply_executeSet_iff (now : SystemTime) (key value : List Char) (px : Option UInt64) (σ : Server) :
    Reply (executeSet now key value px σ).2 ↔ setExpiration now px ≠ none := by
  have hmissing : ¬ Reply "-ERR Instant Addtion Error".toList := not_reply (by decide)
  unfold executeSet
  cases setExpiration now px with
  | none => exact ⟨fun h => absurd h hmissing, fun h => absurd rfl h⟩
  | some e => exact ⟨fun _ => by simp, fun _ => .simple (s := "OK".toList) (by decide)⟩

/-- An `INFO` text ends with a line feed, which is not sent. -/
theorem infoText_eq_concat (r : ReplicationInfo) : ∀ (sections : List InfoSection), sections ≠ [] →
    ∃ s, sections.flatMap (infoText r) = s ++ ['\n']
  | [.replication], _ => ⟨_, by rw [List.flatMap_singleton]; exact (List.append_assoc _ _ _).symm⟩
  | .replication :: section' :: sections, _ => by
    obtain ⟨s, hs⟩ := infoText_eq_concat r (section' :: sections) (by simp)
    exact ⟨infoText r .replication ++ s, by rw [List.flatMap_cons, hs, List.append_assoc]⟩

theorem reply_executeInfo_iff (sections : List InfoSection) (σ : Server) : Reply (executeInfo sections σ) ↔
    sections ≠ [] ∧ byteLen (sections.flatMap (infoText σ.replicationInfo)) ≤ 18446744073709551616 := by
  unfold executeInfo
  rw [show ∀ cnt s : List Char, ['$'] ++ cnt ++ crlf ++ s = '$' :: cnt ++ crlf ++ s from fun _ _ => rfl, reply_bulk_iff]
  by_cases hs : sections = []
  · subst hs
    simp
  · obtain ⟨s, hs'⟩ := infoText_eq_concat σ.replicationInfo sections hs
    rw [hs', List.dropLast_concat, byteLen_append, show byteLen ['\n'] = 1 from rfl, toNat_ofNat_pred,
      Nat.lt_iff_add_one_le]
    exact ⟨fun h => ⟨hs, h⟩, fun h => h.2⟩

theorem getack_header : "*3\r\n$8\r\nREPLCONF\r\n$3\r\nACK\r\n".toList =
    '*' :: natText 3 ++ crlf ++ encodeBulk "REPLCONF".toList ++ encodeBulk "ACK".toList := by decide

theorem reply_executeReplconf_iff (sub : ReplconfSubcommand) (σ : Server) :
    Reply (executeReplconf sub σ) ↔ ∀ offset, sub ≠ .ack offset := by
  cases sub with
  | listeningPort | capa => exact ⟨fun _ => by simp, fun _ => .simple (s := "OK".toList) (by decide)⟩
  | ack offset => exact ⟨fun h => absurd h (not_reply (s := []) (by decide)), fun h => absurd rfl (h offset)⟩
  | getack =>
    refine ⟨fun _ => by simp, fun _ => ?_⟩
    have harray := reply_array (n := 3) [encodeBulk "REPLCONF".toList, encodeBulk "ACK".toList,
      encodeBulk (natText σ.replicationInfo.masterReplOffset.toNat)] rfl
      (List.forall_mem_cons.2 ⟨.bulk _, List.forall_mem_cons.2 ⟨.bulk _, List.forall_mem_singleton.2 (.bulk _)⟩⟩)
    rw [List.flatten_cons, List.flatten_cons, List.flatten_singleton, ← List.append_assoc, ← List.append_assoc,
      ← getack_header] at harray
    exact harray

/-- **A command's reply is one RESP value exactly when it is answered.** -/
theorem reply_execute_iff (now : SystemTime) (cmd : Command) (σ : Server) :
    Reply (execute regex now cmd σ).2 ↔ Answered regex now σ.replicationInfo cmd := by
  have hunsupported : ¬ Reply "-ERR not supported command".toList := not_reply (by decide)
  cases cmd with
  | ping => exact ⟨fun _ => trivial, fun _ => .simple (s := "PONG".toList) (by decide)⟩
  | echo words => exact reply_simple_iff
  | config sub => exact ⟨fun _ => trivial, fun _ => reply_executeConfig sub σ.args⟩
  | set key value px => exact reply_executeSet_iff now key value px σ
  | get key => exact ⟨fun _ => trivial, fun _ => reply_executeGet now key σ⟩
  | incr key => exact ⟨fun _ => trivial, fun _ => reply_executeIncr key σ⟩
  | info sections => exact reply_executeInfo_iff sections σ
  | keys pattern =>
    refine ⟨fun h hnone => ?_, reply_executeKeys regex σ⟩
    simp only [execute, executeKeys, hnone] at h
    exact absurd h (not_reply (by decide))
  | replconf sub =>
    refine (reply_executeReplconf_iff sub σ).trans ?_
    cases sub <;> simp [Answered]
  | multi | exec | discard | psync => exact ⟨fun h => absurd h hunsupported, fun h => absurd h id⟩

/-! ## The reply of an `EXEC` -/

theorem reply_singly_iff : ∀ (queue : List (SystemTime × Command)) (σ : Server),
    (∀ r ∈ (singly regex queue σ).2, Reply r) ↔ ∀ x ∈ queue, Answered regex x.1 σ.replicationInfo x.2
  | [], _ => by simp [singly]
  | (now, cmd) :: queue, σ => by
    rw [singly_cons, List.forall_mem_cons, List.forall_mem_cons, reply_execute_iff, reply_singly_iff queue,
      (execute_frame regex now cmd σ).2.1]

/-- The reply of an `EXEC` is an array of the replies of its commands, each of them one value. -/
def WholeReply (queue : List (SystemTime × Command)) (σ : Server) : Prop :=
  ∃ replies, replies = (singly regex queue σ).2 ∧ replies.length = queue.length ∧ (∀ r ∈ replies, Reply r) ∧
    (executeMultiCommands regex queue true σ).2 = ['*'] ++ natText queue.length ++ crlf ++ replies.flatten

/-- **An `EXEC` replies with one array of whole values exactly when every queued command is answered.** -/
theorem exec_reply_iff (queue : List (SystemTime × Command)) (σ : Server) :
    WholeReply regex queue σ ↔ ∀ x ∈ queue, Answered regex x.1 σ.replicationInfo x.2 := by
  rw [← reply_singly_iff]
  constructor
  · rintro ⟨_, rfl, -, hreplies, -⟩
    exact hreplies
  · intro h
    exact ⟨_, rfl, length_singly regex queue σ, h, by rw [executeMultiCommands_singly]⟩

end

/-- The queue of a `KEYS` with an unclosed group. -/
theorem exec_reply_keys : ¬ ∀ (regex : List Char → Option (List Char → Bool)) (ts : List (Turn × Command))
    (σ σ' : Server) (now : Nat → SystemTime), (∀ x ∈ ts, Accepted x.1.buf x.2 ∧ ¬ IsPsync x.2) →
      (session regex (ts.map Prod.fst) Conn.start σ).1.isMulti = true →
        WholeReply regex (timed now (session regex (ts.map Prod.fst) Conn.start σ).1.queue) σ' := by
  intro h
  have haccepted : ∀ x ∈ [(Turn.start ["MULTI"], Command.multi), (Turn.start ["KEYS", "("], .keys ['('])],
      Accepted x.1.buf x.2 ∧ ¬ IsPsync x.2 :=
    List.forall_mem_cons.2 ⟨⟨Turn.start_accepted (by decide) (by decide) (by decide), id⟩,
      List.forall_mem_singleton.2 ⟨Turn.start_accepted (by decide) (by decide) (by decide), id⟩⟩
  obtain ⟨hstate, -, -⟩ := session_simulates (fun _ => none) _ Conn.start (Server.start .master 0) ⟨none, _⟩ rfl
    ⟨rfl, rfl, rfl⟩ ⟨fun _ => rfl, nofun⟩ haccepted
  obtain ⟨_, rfl, -, hreplies, -⟩ := h (fun _ => none) _ (Server.start .master 0) (Server.start .master 0) (fun _ => 0)
    haccepted hstate.isMulti
  rw [reply_singly_iff, hstate.queue] at hreplies
  exact hreplies (0, .keys ['(']) (List.mem_singleton.2 rfl) rfl

end Rusdis
