import Rusdis.Command
import Rusdis.Request
/-!
# Resp — `generate_resp`, and when one frame is read back

A broadcast `SET` is the request of its own words (`generateResp_set`).  One frame alone is read back to the command
it was generated from exactly when its key and its value are counted as payloads (`decode_generateResp_iff`).
-/
namespace Rusdis

open Fallible Utf8
open Decimal (natText)

def generateResp : Command → List Char
  | .set key value px =>
    let string := "$3\r\nset\r\n$".toList ++ natText (byteLen key) ++ crlf ++ key ++ crlf ++ ['$'] ++
      natText (byteLen value) ++ crlf ++ value ++ crlf
    match px with
    | some millis =>
      let millisString := natText millis.toNat
      ['*'] ++ natText 5 ++ crlf ++ (string ++ ("$2\r\npx\r\n$".toList ++ natText (byteLen millisString) ++ crlf ++
        millisString ++ crlf))
    | none => ['*'] ++ natText 3 ++ crlf ++ string
  | _ => "$0\r\n\r\n".toList

def pxWords : Option UInt64 → List (List Char)
  | none        => []
  | some millis => ["px".toList, natText millis.toNat]

def setWords (key value : List Char) (px : Option UInt64) : List (List Char) :=
  "set".toList :: key :: value :: pxWords px

theorem generateResp_set (key value : List Char) (px : Option UInt64) :
    generateResp (.set key value px) = encodeRequest (setWords key value px) := by
  have hset : encodeBulk "set".toList = "$3\r\nset\r\n".toList := by decide
  have hpx : encodeBulk "px".toList = "$2\r\npx\r\n".toList := by decide
  cases px with
  | none =>
    simp only [generateResp, setWords, pxWords, encodeRequest, List.flatMap_cons, List.flatMap_nil, hset]
    simp [encodeBulk]
  | some millis =>
    simp only [generateResp, setWords, pxWords, encodeRequest, List.flatMap_cons, List.flatMap_nil, hset, hpx]
    simp [encodeBulk]

theorem pxWords_injective {px px' : Option UInt64} (h : pxWords px = pxWords px') : px = px' := by
  cases px with
  | none =>
    cases px' with
    | none => rfl
    | some millis' => cases h
  | some millis =>
    cases px' with
    | none => cases h
    | some millis' =>
      simp only [pxWords, List.cons.injEq, true_and, and_true] at h
      rw [UInt64.toNat_inj.1 (Decimal.natText_injective h)]

/-- **A broadcast message says where it ends**, and of which command it is. -/
theorem selfDelimiting_generateResp : Codes.SelfDelimiting generateResp IsSet := by
  rintro _ _ s t ⟨key, value, px, rfl⟩ ⟨key', value', px', rfl⟩ h
  rw [generateResp_set, generateResp_set] at h
  obtain ⟨hwords, rfl⟩ := selfDelimiting_encodeRequest _ _ s t trivial trivial h
  simp only [setWords, List.cons.injEq, true_and] at hwords
  obtain ⟨rfl, rfl, hpx⟩ := hwords
  exact ⟨by rw [pxWords_injective hpx], rfl⟩

theorem generateResp_ne_nil {c : Command} (hc : IsSet c) : generateResp c ≠ [] := by
  obtain ⟨key, value, px, rfl⟩ := hc
  rw [generateResp_set]
  exact List.cons_ne_nil _ _

/-- **The stream of broadcast messages is of one list of commands**, and no message is the start of another. -/
theorem stream_uniquely_decodable :
    (∀ cs ds : List Command, (∀ c ∈ cs, IsSet c) → (∀ d ∈ ds, IsSet d) →
      cs.flatMap generateResp = ds.flatMap generateResp → cs = ds) ∧
    ∀ c d : Command, IsSet c → IsSet d → generateResp c <+: generateResp d → c = d :=
  ⟨selfDelimiting_generateResp.flatMap_inj (fun _ hc => generateResp_ne_nil hc),
    fun _ _ hc hd h => selfDelimiting_generateResp.eq_of_prefix hc hd h⟩

/-- Two updates whose keys hold the separators, the second with a lifetime. -/
theorem stream_uniquely_decodable_two :
    let cs := [Command.set "a\r\n$1".toList "*3\r\n".toList none, .set "é".toList [] (some 100)]
    let ds := [("a\r\n$1".toList, "*3\r\n".toList, none), ("é".toList, [], some 100)].map
      (fun w : List Char × List Char × Option UInt64 => Command.set w.1 w.2.1 w.2.2)
    cs.flatMap generateResp = ds.flatMap generateResp ∧ cs = ds := by
  intro cs ds
  have hcs : ∀ c ∈ cs, IsSet c := by simp [cs, IsSet]
  have hds : ∀ d ∈ ds, IsSet d := by simp [ds, IsSet]
  have hstream : cs.flatMap generateResp = ds.flatMap generateResp := rfl
  exact ⟨hstream, stream_uniquely_decodable.1 cs ds hcs hds hstream⟩

theorem map_generateResp_injective (as bs : List Command) (ha : ∀ c ∈ as, IsSet c) (hb : ∀ c ∈ bs, IsSet c)
    (h : as.map generateResp = bs.map generateResp) : as = bs := by
  apply selfDelimiting_generateResp.flatMap_inj (fun _ hc => generateResp_ne_nil hc) as bs ha hb
  rw [List.flatMap_def, List.flatMap_def, h]

/-- **The words of a `SET` are the command**, whatever its key and value. -/
theorem parseCommand_setWords (key value : List Char) (px : Option UInt64) :
    parseCommand ((setWords key value px).map .bulkString) = .ok (.set key value px) := by
  have hset : toUppercase "set".toList = "SET".toList := by decide
  have hpx : toUppercase "px".toList = "PX".toList := by decide
  rw [setWords, List.map_cons, parseCommand, hset, parseNamed, if_pos rfl]
  cases px with
  | none => rfl
  | some millis =>
    simp only [pxWords, List.map_cons, List.map_nil, parseSetCommand, setOptions, hpx, if_true, parseU64_natText]
    rfl

/-! ## One frame -/

/-- The payloads of a `SET` are counted as payloads.  A value that ends the frame may add one to the quota: the empty
line after the last CRLF takes it back. -/
def Counted (key value : List Char) (px : Option UInt64) : Prop :=
  countQoda key = .ok 0 ∧ (countQoda value = .ok 0 ∨ px = none ∧ countQoda value = .ok 1)

def Payload (a : List Char) : Prop := NoCrlf a ∧ byteLen a < 2147483648

theorem payload_of_parse {s b : List Char} (h : parse s = .ok (.bulkString b)) : Payload b := by
  refine ⟨noCrlf_of_parse_bulkString h, ?_⟩
  cases parse_eq_ok.1 h with
  | bulkString _ hn _ hb =>
  obtain ⟨_, _, hlen⟩ := sliceTo_eq_ok hb
  have := parseI32_range hn
  omega

theorem payload_of_mem {s b : List Char} {xs : List Value} (h : parse s = .ok (.array xs))
    (hb : .bulkString b ∈ xs) : Payload b := by
  cases parse_eq_ok.1 h with
  | array _ _ _ _ hxs =>
  obtain ⟨g, -, hg⟩ := exists_of_mem_right (mapM_eq_ok.1 hxs) _ hb
  exact payload_of_parse hg

theorem framed_word : Framed "set".toList ∧ Framed "px".toList := by
  refine ⟨⟨by decide, by decide, rfl⟩, ⟨by decide, by decide, rfl⟩⟩

theorem utf8Size_of_isDigit {c : Char} (h : c.isDigit = true) : c.utf8Size = 1 := by
  apply utf8Size_of_toNat_lt
  simp only [Char.isDigit, Bool.and_eq_true, decide_eq_true_eq] at h
  exact Nat.lt_of_le_of_lt (UInt32.le_iff_toNat_le.1 h.2) (by decide)

theorem countQoda_natText (n : Nat) : countQoda (natText n) = .ok 0 := by
  obtain ⟨c, cs, hc⟩ := List.exists_cons_of_ne_nil (Decimal.natText_ne_nil n)
  have hdigit : c.isDigit = true := Decimal.isDigit_of_mem_natText (by rw [hc]; exact List.mem_cons_self)
  rw [hc]
  apply countQoda_other
  · rintro rfl; cases hdigit
  · rintro rfl; cases hdigit
  · exact utf8Size_of_isDigit hdigit

theorem framed_natText (n : UInt64) : Framed (natText n.toNat) := by
  refine ⟨Lines.free_of_notMem _ _ (Decimal.notMem_natText (by decide) _), ?_, countQoda_natText _⟩
  have hlen : (natText n.toNat).length ≤ 20 :=
    Nat.toDigits_length 10 n.toNat 20 (by decide) (Nat.lt_trans n.toNat_lt (by decide))
  rw [byteLen_of_ascii _ (fun c hc => utf8Size_of_isDigit (Decimal.isDigit_of_mem_natText hc))]
  omega

/-- **A payload that adds to the quota swallows the next header**, and what is left is too short. -/
theorem quota_of_groups {a : List Char} {left : Int} {m : Nat} {lines groups : List (List Char)} (hleft : left ≠ 0)
    (ha : byteLen a < 2147483648) (hm : m < 2147483648) (hfree : ∀ l ∈ lines, NoCrlf l)
    (hloop : parseArrayLoop left 1 [] (bulkLines a ++ ('$' :: natText m) :: lines) = .ok groups)
    (hbulk : ∀ g ∈ groups, ∃ b, parse g = .ok (.bulkString b)) (hlen : lines.length + 1 < 2 * groups.length) :
    countQoda a = .ok 0 := by
  rcases parseArrayLoop_payload hleft ha hloop with ⟨hzero, -⟩ | ⟨num, hnum, hne, hloop⟩
  · exact hzero
  · obtain ⟨one, hone, hcases⟩ := parseArrayLoop_cons_inv hleft hloop
    rw [countQoda_bulkHeader hm] at hone
    cases hone
    have hr := countQoda_range hnum
    have hkeep : wrapI32 (wrapI32 (num + 1) - 1) = num := by unfold wrapI32; omega
    rw [hkeep] at hcases
    rcases hcases with ⟨hzero, -⟩ | ⟨-, hloop⟩
    · exact absurd hzero hne
    · have hcount := (groups_of_bulk_count _ _ _ _ _ hfree hloop hbulk).1
      omega

theorem framed_pxWords (px : Option UInt64) : ∀ a ∈ pxWords px, Framed a := by
  intro a ha
  cases px with
  | none => cases ha
  | some millis =>
    rcases List.mem_pair.1 ha with rfl | rfl
    · exact framed_word.2
    · exact framed_natText millis

theorem length_pxWords (px : Option UInt64) : (pxWords px).length ≤ 2 := by
  cases px <;> simp [pxWords]

theorem noCrlf_setWords {key value : List Char} (hkey : NoCrlf key) (hvalue : NoCrlf value) (px : Option UInt64) :
    ∀ a ∈ setWords key value px, NoCrlf a := by
  intro a ha
  simp only [setWords, List.mem_cons] at ha
  rcases ha with rfl | rfl | rfl | ha
  · exact framed_word.1.noCrlf
  · exact hkey
  · exact hvalue
  · exact (framed_pxWords px a ha).noCrlf

/-- What a decoded frame went through: `set` is one group, and the groups after it are bulk strings too. -/
theorem groups_of_decode {key value : List Char} {px : Option UInt64} {xs : List Value} (hkey : Payload key)
    (hvalue : Payload value) (hparse : parse (generateResp (.set key value px)) = .ok (.array xs))
    (hset : parseCommand xs = .ok (.set key value px)) : ∃ groups : List (List Char),
      parseArrayLoop ((pxWords px).length + 2) 1 []
        (bulkLines key ++ (bulkLines value ++ ((pxWords px).flatMap bulkLines ++ [[]]))) = .ok groups ∧
      (∀ g ∈ groups, ∃ b, parse g = .ok (.bulkString b)) ∧ (pxWords px).length + 2 ≤ groups.length := by
  obtain ⟨hbulk, hthree, hfive⟩ := bulk_of_parseCommand_set hset
  have hlen : (pxWords px).length + 3 ≤ xs.length := by
    cases px with
    | none => exact hthree
    | some millis => exact hfive (by simp)
  have hp := length_pxWords px
  have hsplit := splitCrlf_encodeRequest (noCrlf_setWords hkey.1 hvalue.1 px) []
  rw [generateResp_set, ← List.append_nil (encodeRequest _)] at hparse
  cases parse_eq_ok.1 hparse with
  | @array t lines groups n _ hs ht _ hloop hxs =>
  obtain ⟨hhead, rfl⟩ := List.cons.inj (hsplit.symm.trans hs)
  obtain ⟨-, rfl⟩ := List.cons.inj hhead
  obtain ⟨rfl, -⟩ := parseI32_natText_eq_ok ht
  have hall := mapM_eq_ok.1 hxs
  rw [setWords, List.flatMap_cons, List.append_assoc, parseArrayLoop_framed framed_word.1 (by simp; omega)] at hloop
  obtain ⟨gs, hgs, he⟩ := bind_eq_ok.1 hloop
  cases he
  rw [wrapI32_of_range (by simp; omega) (by simp; omega)] at hgs
  refine ⟨gs, ?_, fun g hg => ?_, ?_⟩
  · rw [← hgs, List.flatMap_cons, List.flatMap_cons, List.append_assoc, List.append_assoc]
    congr 1
    simp only [List.length_cons]; omega
  · obtain ⟨v, hv, hgv⟩ := exists_of_mem_left hall g (by simp [hg])
    obtain ⟨b, rfl⟩ := hbulk v hv
    exact ⟨b, hgv⟩
  · have := hall.length_eq
    simp only [List.length_cons] at this
    omega

theorem noCrlf_lines {value : List Char} (hvalue : NoCrlf value) (px : Option UInt64) :
    ∀ l ∈ value :: ((pxWords px).flatMap bulkLines ++ [[]]), NoCrlf l := by
  intro l hl
  simp only [List.mem_cons, List.mem_append, List.not_mem_nil, or_false] at hl
  rcases hl with rfl | hl | rfl
  · exact hvalue
  · exact noCrlf_of_mem_bulkLines (fun a ha => (framed_pxWords px a ha).noCrlf) l hl
  · exact Lines.free_nil _ _

theorem quota_of_last {value : List Char} {left : Int} {groups : List (List Char)} (hleft : left ≠ 0)
    (hvalue : byteLen value < 2147483648) (hloop : parseArrayLoop left 1 [] (bulkLines value ++ [[]]) = .ok groups)
    (hlen : groups ≠ []) : countQoda value = .ok 0 ∨ countQoda value = .ok 1 := by
  rcases parseArrayLoop_payload hleft hvalue hloop with ⟨hzero, -⟩ | ⟨num, hnum, -, hloop⟩
  · exact Or.inl hzero
  · have hr := countQoda_range hnum
    obtain ⟨zero, hzero, ⟨hq, -⟩ | ⟨-, hloop⟩⟩ := parseArrayLoop_cons_inv hleft hloop
    · rw [countQoda_nil] at hzero
      cases hzero
      have hone : num = 1 := by unfold wrapI32 at hq; omega
      exact Or.inr (by rw [hnum, hone])
    · cases hloop
      exact absurd rfl hlen

theorem counted_of_decode {key value : List Char} {px : Option UInt64} {xs : List Value} (hkey : Payload key)
    (hvalue : Payload value) (hparse : parse (generateResp (.set key value px)) = .ok (.array xs))
    (hset : parseCommand xs = .ok (.set key value px)) : Counted key value px := by
  obtain ⟨groups, hloop, hbulk, hlen⟩ := groups_of_decode hkey hvalue hparse hset
  have hp := length_pxWords px
  have hk : countQoda key = .ok 0 := by
    refine quota_of_groups (by omega) hkey.2 hvalue.2 (noCrlf_lines hvalue.1 px) hloop hbulk ?_
    simp only [List.length_cons, List.length_append, length_bulkLines, List.length_nil]
    omega
  rw [parseArrayLoop_framed ⟨hkey.1, hkey.2, hk⟩ (by omega), wrapI32_of_range (by omega) (by omega)] at hloop
  obtain ⟨gs, hgs, he⟩ := bind_eq_ok.1 hloop
  cases he
  rw [List.length_cons] at hlen
  cases px with
  | none =>
    rcases quota_of_last (by simp [pxWords]) hvalue.2 hgs (by rintro rfl; simp [pxWords] at hlen) with h | h
    · exact ⟨hk, Or.inl h⟩
    · exact ⟨hk, Or.inr ⟨rfl, h⟩⟩
  | some millis =>
    have hfree : ∀ l ∈ "px".toList :: (bulkLines (natText millis.toNat) ++ [[]]), NoCrlf l := by
      intro l hl
      simp only [bulkLines, List.mem_cons, List.mem_append, List.not_mem_nil, or_false] at hl
      rcases hl with rfl | (rfl | rfl) | rfl
      · exact framed_word.2.noCrlf
      · exact noCrlf_header (by decide) _
      · exact (framed_natText millis).noCrlf
      · exact Lines.free_nil _ _
    have hlines : (pxWords (some millis)).flatMap bulkLines ++ [[]] =
        ('$' :: natText (byteLen "px".toList)) :: "px".toList :: (bulkLines (natText millis.toNat) ++ [[]]) := rfl
    rw [hlines] at hgs
    refine ⟨hk, Or.inl (quota_of_groups (by omega) hvalue.2 (by decide) hfree hgs (fun g hg => hbulk g (by simp [hg]))
      ?_)⟩
    simp only [pxWords, List.length_cons, List.length_nil] at hlen
    simp only [bulkLines, List.length_cons, List.length_append, List.length_nil]
    omega

theorem parseArrayLoop_last {value : List Char} {left : Int} (hleft : left ≠ 0) (hvalue : byteLen value < 2147483648)
    (hq : countQoda value = .ok 1) :
    parseArrayLoop left 1 [] (bulkLines value ++ [[]]) = .ok [encodeBulk value ++ crlf] := by
  rw [bulkLines, List.cons_append, List.cons_append, List.nil_append,
    parseArrayLoop_cons hleft (countQoda_bulkHeader hvalue) (by omega) (by omega), settle_of_ne (by omega),
    parseArrayLoop_cons hleft hq (by omega) (by omega), settle_of_ne (by omega),
    parseArrayLoop_cons hleft countQoda_nil (by omega) (by omega)]
  simp [settle, parseArrayLoop, encodeBulk]

theorem parse_of_counted {key value : List Char} {px : Option UInt64} (hkey : Payload key) (hvalue : Payload value)
    (h : Counted key value px) :
    parse (generateResp (.set key value px)) = .ok (.array ((setWords key value px).map .bulkString)) := by
  obtain ⟨hk, hv | ⟨rfl, hv⟩⟩ := h
  · have hframed : ∀ a ∈ setWords key value px, Framed a := by
      intro a ha
      simp only [setWords, List.mem_cons] at ha
      rcases ha with rfl | rfl | rfl | ha
      · exact framed_word.1
      · exact ⟨hkey.1, hkey.2, hk⟩
      · exact ⟨hvalue.1, hvalue.2, hv⟩
      · exact framed_pxWords px a ha
    have hshort : (setWords key value px).length < 2147483648 := by
      have := length_pxWords px
      simp only [setWords, List.length_cons]; omega
    have := parse_encodeRequest hshort hframed []
    rwa [List.append_nil, ← generateResp_set] at this
  · have hsplit := splitCrlf_encodeRequest (noCrlf_setWords hkey.1 hvalue.1 none) []
    rw [List.append_nil, ← generateResp_set] at hsplit
    have hloop : parseArrayLoop 3 1 [] ((setWords key value none).flatMap bulkLines ++ splitCrlf []) =
        .ok [encodeBulk "set".toList, encodeBulk key, encodeBulk value ++ crlf] := by
      rw [setWords, pxWords, List.flatMap_cons, List.flatMap_cons, List.flatMap_cons, List.append_assoc,
        List.append_assoc, parseArrayLoop_framed framed_word.1 (by omega), wrapI32_of_range (by omega) (by omega),
        parseArrayLoop_framed ⟨hkey.1, hkey.2, hk⟩ (by omega), wrapI32_of_range (by omega) (by omega)]
      rw [List.flatMap_nil, List.append_nil, splitCrlf, Lines.split_nil, parseArrayLoop_last (by omega) hvalue.2 hv]
      rfl
    refine parse_eq_ok.2 (.array hsplit (parseI32_natText (show 3 < 2147483648 by omega)) (by omega) hloop
      (mapM_eq_ok.2 ?_))
    have hset := parse_encodeBulk framed_word.1.noCrlf framed_word.1.length []
    have hkey' := parse_encodeBulk hkey.1 hkey.2 []
    rw [List.append_nil] at hset hkey'
    exact .cons hset (.cons hkey' (.cons (parse_encodeBulk hvalue.1 hvalue.2 crlf) .nil))

/-- **One frame is read back to its command exactly when its payloads are counted as payloads.** -/
theorem decode_generateResp_iff {key value : List Char} {px : Option UInt64} (hkey : Payload key)
    (hvalue : Payload value) :
    (∃ xs, parse (generateResp (.set key value px)) = .ok (.array xs) ∧ parseCommand xs = .ok (.set key value px)) ↔
      Counted key value px :=
  ⟨fun ⟨_, hparse, hset⟩ => counted_of_decode hkey hvalue hparse hset,
    fun h => ⟨_, parse_of_counted hkey hvalue h, parseCommand_setWords key value px⟩⟩

end Rusdis
