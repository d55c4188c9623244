import Rusdis.Codes
import Rusdis.Quota
/-!
# Request — a client's command array

`encodeRequest` is the array of bulk strings a client sends.  `parse` gives its arguments back, whatever follows,
exactly when every argument is `Framed`: no CRLF inside, a length an `i32` holds, and no quota of its own
(`parse_encodeRequest_iff`).
-/
namespace Rusdis

open Fallible Utf8
open Decimal (natText)

def encodeBulk (a : List Char) : List Char := '$' :: natText (byteLen a) ++ crlf ++ a ++ crlf

/-- `*<n>` and, for each argument, its byte length and its text. -/
def encodeRequest (args : List (List Char)) : List Char :=
  '*' :: natText args.length ++ crlf ++ args.flatMap encodeBulk

/-- An argument whose place in the array its declared length decides. -/
structure Framed (a : List Char) : Prop where
  noCrlf : NoCrlf a
  length : byteLen a < 2147483648
  quota  : countQoda a = .ok 0

/-! ## The lines of a request -/

def bulkLines (a : List Char) : List (List Char) := ['$' :: natText (byteLen a), a]

theorem noCrlf_header {c : Char} (hc : c ≠ '\r') (n : Nat) : NoCrlf (c :: natText n) :=
  Lines.free_of_notMem _ _ (by
    rw [List.mem_cons, not_or]
    exact ⟨hc.symm, Decimal.notMem_natText (by decide) n⟩)

theorem encodeBulk_eq (a : List Char) : encodeBulk a = Lines.joinLines '\r' '\n' (bulkLines a) := by
  simp [encodeBulk, bulkLines, crlf]

theorem encodeRequest_eq (args : List (List Char)) :
    encodeRequest args = Lines.joinLines '\r' '\n' (('*' :: natText args.length) :: args.flatMap bulkLines) := by
  have h : args.flatMap encodeBulk = Lines.joinLines '\r' '\n' (args.flatMap bulkLines) := by
    induction args with
    | nil => rfl
    | cons a as ih => rw [List.flatMap_cons, List.flatMap_cons, Lines.joinLines_append, ih, encodeBulk_eq]
  rw [encodeRequest, h]
  simp [crlf]

theorem noCrlf_of_mem_bulkLines {args : List (List Char)} (hargs : ∀ a ∈ args, NoCrlf a) :
    ∀ l ∈ args.flatMap bulkLines, NoCrlf l := by
  intro l hl
  obtain ⟨a, ha, hl⟩ := List.mem_flatMap.1 hl
  rcases List.mem_cons.1 hl with rfl | hl
  · exact noCrlf_header (by decide) _
  · rw [List.mem_singleton.1 hl]; exact hargs a ha

theorem length_bulkLines (args : List (List Char)) : (args.flatMap bulkLines).length = 2 * args.length := by
  simp [bulkLines, List.length_flatMap, Nat.mul_comm]

theorem splitCrlf_encodeRequest {args : List (List Char)} (hargs : ∀ a ∈ args, NoCrlf a) (rest : List Char) :
    splitCrlf (encodeRequest args ++ rest) =
      ('*' :: natText args.length) :: (args.flatMap bulkLines ++ splitCrlf rest) := by
  rw [encodeRequest_eq, splitCrlf, Lines.split_joinLines_append (by decide) rest]
  · rfl
  · intro l hl
    rcases List.mem_cons.1 hl with rfl | hl
    · exact noCrlf_header (by decide) _
    · exact noCrlf_of_mem_bulkLines hargs l hl

theorem splitCrlf_encodeRequest_head (args : List (List Char)) (rest : List Char) :
    ∃ lines, splitCrlf (encodeRequest args ++ rest) = ('*' :: natText args.length) :: lines := by
  refine ⟨splitCrlf (args.flatMap encodeBulk ++ rest), ?_⟩
  rw [show encodeRequest args ++ rest =
      ('*' :: natText args.length) ++ '\r' :: '\n' :: (args.flatMap encodeBulk ++ rest) by simp [encodeRequest, crlf]]
  exact Lines.split_free_append (by decide) _ _ (noCrlf_header (by decide) _)

/-! ## A request says what it was written from -/

theorem header_inj {n m : Nat} {s t : List Char} (h : natText n ++ crlf ++ s = natText m ++ crlf ++ t) :
    n = m ∧ s = t := by
  have hfree : ∀ k, NoCrlf (natText k) := fun k =>
    Lines.free_of_notMem _ _ (Decimal.notMem_natText (by decide) k)
  have hn : n = m := by
    apply Decimal.natText_injective
    have hs := Lines.before_free_append (a := '\r') (b := '\n') (by decide) (hfree n) s
    have ht := Lines.before_free_append (a := '\r') (b := '\n') (by decide) (hfree m) t
    simp only [crlf, List.append_assoc, List.cons_append, List.nil_append] at h
    rw [h, ht] at hs
    exact (Option.some.inj hs).symm
  subst hn
  exact ⟨rfl, List.append_cancel_left h⟩

theorem encodeBulk_inj {a b s t : List Char} (h : encodeBulk a ++ s = encodeBulk b ++ t) : a = b ∧ s = t := by
  simp only [encodeBulk, List.cons_append, List.cons.injEq, true_and] at h
  rw [List.append_assoc _ a, List.append_assoc _ (a ++ crlf), List.append_assoc _ b, List.append_assoc _ (b ++ crlf),
    List.append_assoc a, List.append_assoc b] at h
  obtain ⟨hlen, h⟩ := header_inj h
  have hs := splitAt_append (crlf ++ s) a
  rw [h, hlen, splitAt_append, Option.some.injEq, Prod.mk.injEq] at hs
  exact ⟨hs.1.symm, List.append_cancel_left hs.2.symm⟩

theorem encodeBulk_append_ne (s x r : List Char) : encodeBulk s ++ x ≠ '$' :: '-' :: r := by
  cases hn : natText (byteLen s) with
  | nil => exact absurd hn (Decimal.natText_ne_nil _)
  | cons c cs =>
    have hdigit : c.isDigit = true := Decimal.isDigit_of_mem_natText (hn ▸ List.mem_cons_self)
    rw [encodeBulk, hn]
    intro heq
    obtain rfl : c = '-' := (List.cons.inj (List.cons.inj heq).2).1
    revert hdigit
    decide

theorem selfDelimiting_encodeBulk : Codes.SelfDelimiting encodeBulk (fun _ => True) :=
  fun _ _ _ _ _ _ h => encodeBulk_inj h

/-- The count before the arguments says where a request ends. -/
theorem selfDelimiting_encodeRequest : Codes.SelfDelimiting encodeRequest (fun _ => True) := by
  intro as bs s t _ _ h
  simp only [encodeRequest, List.cons_append, List.cons.injEq, true_and] at h
  rw [List.append_assoc _ (as.flatMap encodeBulk), List.append_assoc _ (bs.flatMap encodeBulk)] at h
  obtain ⟨hlen, h⟩ := header_inj h
  exact selfDelimiting_encodeBulk.flatMap_append_inj as bs s t (by simp) (by simp) hlen h

theorem encodeRequest_injective {as bs : List (List Char)} (h : encodeRequest as = encodeRequest bs) : as = bs :=
  selfDelimiting_encodeRequest.injective trivial trivial h

/-! ## Framed arguments are read back -/

theorem parse_encodeBulk {a : List Char} (h1 : NoCrlf a) (h2 : byteLen a < 2147483648) (rest : List Char) :
    parse (encodeBulk a ++ rest) = .ok (.bulkString a) := by
  have hsplit : splitCrlf (encodeBulk a ++ rest) = ('$' :: natText (byteLen a)) :: a :: splitCrlf rest := by
    rw [encodeBulk_eq, splitCrlf, Lines.split_joinLines_append (by decide) rest]
    · rfl
    · intro l hl
      rcases List.mem_cons.1 hl with rfl | hl
      · exact noCrlf_header (by decide) _
      · rwa [List.mem_singleton.1 hl]
  exact parse_eq_ok.2 (.bulkString hsplit (parseI32_natText h2) (by omega) (sliceTo_byteLen a))

theorem countQoda_bulkHeader {n : Nat} (h : n < 2147483648) : countQoda ('$' :: natText n) = .ok 1 := by
  rw [countQoda_header (.inl rfl), headerQuota_dollar_of_nonneg (parseI32_natText h) (by omega)]

theorem parseArrayLoop_framed {a : List Char} (ha : Framed a) {left : Int} (hleft : left ≠ 0) (ps : List (List Char)) :
    parseArrayLoop left 1 [] (bulkLines a ++ ps) =
      do return encodeBulk a :: (← parseArrayLoop (wrapI32 (left - 1)) 1 [] ps) := by
  rw [bulkLines, List.cons_append, List.cons_append, List.nil_append,
    parseArrayLoop_cons hleft (countQoda_bulkHeader ha.length) (by omega) (by omega), settle_of_ne (by omega),
    parseArrayLoop_cons hleft ha.quota (by omega) (by omega)]
  exact settle_zero _ _ _

theorem parseArrayLoop_request (ps : List (List Char)) : ∀ (args : List (List Char)), args.length < 2147483648 →
    (∀ a ∈ args, Framed a) →
      parseArrayLoop args.length 1 [] (args.flatMap bulkLines ++ ps) = .ok (args.map encodeBulk)
  | [], _, _ => parseArrayLoop_zero _ _ _
  | a :: as, hn, hargs => by
    rw [List.length_cons] at hn
    have ih := parseArrayLoop_request ps as (by omega) (fun x hx => hargs x (by simp [hx]))
    have hleft : wrapI32 (((a :: as).length : Int) - 1) = as.length := by
      rw [List.length_cons]; unfold wrapI32; omega
    rw [List.flatMap_cons, List.append_assoc, parseArrayLoop_framed (hargs a (by simp)) (by simp; omega), hleft, ih]
    rfl

/-- **Framed arguments are read back**, whatever follows the request. -/
theorem parse_encodeRequest {args : List (List Char)} (hn : args.length < 2147483648) (hargs : ∀ a ∈ args, Framed a)
    (rest : List Char) : parse (encodeRequest args ++ rest) = .ok (.array (args.map .bulkString)) := by
  have hmap : (args.map encodeBulk).mapM parse = .ok (args.map .bulkString) :=
    mapM_map_ok args (fun a ha => by
      simpa using parse_encodeBulk (hargs a ha).noCrlf (hargs a ha).length [])
  exact parse_eq_ok.2 (.array (splitCrlf_encodeRequest (fun a ha => (hargs a ha).noCrlf) rest) (parseI32_natText hn)
    (by omega) (parseArrayLoop_request _ args hn hargs) hmap)

/-! ## Only framed arguments are -/

theorem noCrlf_of_parse_array {s : List Char} {args : List (List Char)}
    (h : parse s = .ok (.array (args.map .bulkString))) : ∀ a ∈ args, NoCrlf a := by
  intro a ha
  cases parse_eq_ok.1 h with
  | array _ _ _ _ hmap =>
  obtain ⟨g, -, hg⟩ := exists_of_mem_right (mapM_eq_ok.1 hmap) _ (List.mem_map_of_mem ha)
  exact noCrlf_of_parse_bulkString hg

/-- **A payload line ends its group**, or adds to the quota. -/
theorem parseArrayLoop_payload {a : List Char} {left : Int} {ps groups : List (List Char)} (hleft : left ≠ 0)
    (ha : byteLen a < 2147483648) (hloop : parseArrayLoop left 1 [] (bulkLines a ++ ps) = .ok groups) :
    (countQoda a = .ok 0 ∧ ∃ gs, groups = encodeBulk a :: gs ∧
        parseArrayLoop (wrapI32 (left - 1)) 1 [] ps = .ok gs) ∨
      ∃ num, countQoda a = .ok num ∧ num ≠ 0 ∧ parseArrayLoop left num (encodeBulk a) ps = .ok groups := by
  rw [bulkLines, List.cons_append, List.cons_append, List.nil_append,
    parseArrayLoop_cons hleft (countQoda_bulkHeader ha) (by omega) (by omega), settle_of_ne (by omega)] at hloop
  obtain ⟨num, hnum, hcases⟩ := parseArrayLoop_cons_inv hleft hloop
  have hr := countQoda_range hnum
  have hkeep : wrapI32 (wrapI32 (1 + 1 - 1 + num) - 1) = num := by unfold wrapI32; omega
  rw [hkeep] at hcases
  rcases hcases with ⟨rfl, gs, rfl, hgs⟩ | ⟨hq, hloop⟩
  · exact Or.inl ⟨hnum, gs, rfl, hgs⟩
  · exact Or.inr ⟨num, hnum, hq, hloop⟩

/-- A header line is no bulk string, so it is counted. -/
theorem length_of_groups {a : List Char} {left : Int} {ps groups : List (List Char)} (hleft : left ≠ 0)
    (hloop : parseArrayLoop left 1 [] (bulkLines a ++ ps) = .ok groups)
    (hbulk : ∀ g ∈ groups, ∃ b, parse g = .ok (.bulkString b)) : byteLen a < 2147483648 := by
  obtain ⟨num, hnum, ⟨hq, gs, rfl, -⟩ | ⟨hq, -⟩⟩ := parseArrayLoop_cons_inv hleft hloop
  · have hr := countQoda_range hnum
    obtain rfl : num = 0 := by unfold wrapI32 at hq; omega
    obtain ⟨b, hb⟩ := hbulk _ List.mem_cons_self
    exact absurd hb (parse_line_ne_bulkString (noCrlf_header (by decide) _) hnum)
  · rw [countQoda_header (.inl rfl), Except.ok.injEq] at hnum
    subst hnum
    unfold headerQuota at hq
    split at hq
    · rename_i v hv
      exact (parseI32_natText_eq_ok hv).2
    · exact absurd (by decide) hq

/-- **Each argument read back as its own bulk string is one group**, so its length and its quota are right. -/
theorem framed_of_groups : ∀ (args : List (List Char)) (groups : List (List Char)), args.length < 2147483648 →
    (∀ a ∈ args, NoCrlf a) → parseArrayLoop args.length 1 [] (args.flatMap bulkLines) = .ok groups →
      groups.mapM parse = .ok (args.map .bulkString) → ∀ a ∈ args, Framed a
  | [], _, _, _, _, _ => by simp
  | a :: as, groups, hn, hfree, hloop, hmap => by
    have hall := mapM_eq_ok.1 hmap
    have hbulk : ∀ g ∈ groups, ∃ b, parse g = .ok (.bulkString b) := fun g hg => by
      obtain ⟨v, hv, hgv⟩ := exists_of_mem_left hall g hg
      obtain ⟨b, -, rfl⟩ := List.mem_map.1 hv
      exact ⟨b, hgv⟩
    have hleft0 : ((a :: as).length : Int) ≠ 0 := by simp; omega
    have hshort := length_of_groups hleft0 hloop hbulk
    rcases parseArrayLoop_payload hleft0 hshort hloop with ⟨hpay, gs, rfl, hgs⟩ | ⟨num, -, -, hloop⟩
    · rw [List.length_cons, wrapI32_of_range (by omega) (by simp at hn; omega)] at hgs
      have hgs : parseArrayLoop as.length 1 [] (as.flatMap bulkLines) = .ok gs := by
        rw [← hgs]; congr 1; omega
      have hmap' : gs.mapM parse = .ok (as.map .bulkString) := by
        cases hall with
        | cons _ htail => exact mapM_eq_ok.2 htail
      have ih := framed_of_groups as gs (Nat.lt_of_succ_lt hn) (fun x hx => hfree x (by simp [hx])) hgs hmap'
      intro x hx
      rcases List.mem_cons.1 hx with rfl | hx
      · exact ⟨hfree x (by simp), hshort, hpay⟩
      · exact ih x hx
    · -- the rest is too short for the other arguments
      have hfree' : ∀ l ∈ as.flatMap bulkLines, NoCrlf l := noCrlf_of_mem_bulkLines (fun x hx => hfree x (by simp [hx]))
      have hcount := (groups_of_bulk_count _ _ _ _ _ hfree' hloop hbulk).1
      rw [length_bulkLines, hall.length_eq, List.length_map, List.length_cons] at hcount
      omega

/-- **A request is read back, whatever follows it, exactly when its arguments are framed.** -/
theorem parse_encodeRequest_iff (args : List (List Char)) :
    (∀ rest, parse (encodeRequest args ++ rest) = .ok (.array (args.map .bulkString))) ↔
      args.length < 2147483648 ∧ ∀ a ∈ args, Framed a := by
  refine ⟨fun h => ?_, fun ⟨hn, hargs⟩ rest => parse_encodeRequest hn hargs rest⟩
  -- a line that panics ends the text: it is read unless the arguments' own lines fill every group
  have hz : countQoda ['é'] = .error .panic := countQoda_wide (by decide) []
  have h := h ['é']
  have hfree := noCrlf_of_parse_array h
  obtain ⟨lines', hs'⟩ := splitCrlf_encodeRequest_head args ['é']
  cases parse_eq_ok.1 h with
  | array hs ht _ hloop hmap =>
  obtain ⟨hhead, -⟩ := List.cons.inj (hs'.symm.trans hs)
  obtain ⟨-, rfl⟩ := List.cons.inj hhead
  obtain ⟨rfl, hn⟩ := parseI32_natText_eq_ok ht
  refine ⟨hn, ?_⟩
  obtain ⟨-, rfl⟩ := List.cons.inj ((splitCrlf_encodeRequest hfree ['é']).symm.trans hs)
  obtain ⟨-, hloop⟩ := parseArrayLoop_before_panic hz _ _ _ _ _ (by omega) (by omega) hloop
  exact framed_of_groups args _ hn hfree hloop hmap

/-- A request for the value of `"a\r\nb"` is cut inside the key, and its declared length is then out of bounds. -/
theorem parse_encodeRequest_crlf : ¬ ∀ rest, parse (encodeRequest ["GET".toList, "a\r\nb".toList] ++ rest) =
    .ok (.array [.bulkString "GET".toList, .bulkString "a\r\nb".toList]) := by
  intro h
  have hpanic : parse (encodeRequest ["GET".toList, "a\r\nb".toList] ++ []) = .error .panic := by decide +kernel
  exact absurd (hpanic.symm.trans (h [])) (by simp)

end Rusdis
