import Rusdis.Parser
/-!
# Quota — one line of the regrouping loop

`parseArrayLoop_cons` says what one line does: its quota is added, the line is taken, and the group ends where the
quota reaches zero (`settle`).  Groups that parse to bulk strings take at least two lines each
(`groups_of_bulk_count`), which bounds how many a text can hold.
-/
namespace Rusdis

open Fallible

/-! ## `countQoda` -/

theorem countQoda_nil : countQoda [] = .ok 0 := rfl

/-- The quota a header line adds, by the number after its symbol. -/
def headerQuota (symbol : Char) (numStr : List Char) : Int :=
  match parseI32 numStr with
  | .ok num  => if num < 0 then 0 else if symbol = '$' then 1 else num
  | .error _ => 0

theorem sliceTo_one_cons {c : Char} (h : c.utf8Size = 1) (s : List Char) : sliceTo 1 (c :: s) = .ok [c] := by
  have := sliceTo_byteLen_append [c] s
  rwa [Utf8.byteLen_cons, h] at this

theorem sliceTo_one_wide {c : Char} (h : c.utf8Size ≠ 1) (s : List Char) : sliceTo 1 (c :: s) = .error .panic := by
  have hpos := Char.utf8Size_pos c
  unfold sliceTo
  rw [Utf8.splitAt, if_neg (by omega)]
  rfl

theorem countQoda_header {c : Char} (hc : c = '$' ∨ c = '*') (t : List Char) :
    countQoda (c :: t) = .ok (headerQuota c t) := by
  have hsize : c.utf8Size = 1 := by rcases hc with rfl | rfl <;> rfl
  have h1 : ¬ Utf8.byteLen (c :: t) < 1 := by rw [Utf8.byteLen_cons, hsize]; omega
  unfold countQoda headerQuota
  rw [if_neg h1, sliceTo_one_cons hsize, sliceFrom_one_cons hsize]
  cases t with
  | nil => rcases hc with rfl | rfl <;> rfl
  | cons d t =>
    have h2 : ¬ Utf8.byteLen (c :: d :: t) < 2 := by
      have := Char.utf8Size_pos d
      rw [Utf8.byteLen_cons, Utf8.byteLen_cons, hsize]; omega
    rcases hc with rfl | rfl
    · simp only [ok_bind, if_true, if_neg h2]
      cases parseI32 (d :: t) <;> rfl
    · simp only [ok_bind, List.cons.injEq, Char.reduceEq, false_and, if_false, if_true, if_neg h2]
      cases parseI32 (d :: t) <;> rfl

theorem countQoda_other {c : Char} (h1 : c ≠ '$') (h2 : c ≠ '*') (hc : c.utf8Size = 1) (t : List Char) :
    countQoda (c :: t) = .ok 0 := by
  have h : ¬ Utf8.byteLen (c :: t) < 1 := by rw [Utf8.byteLen_cons, hc]; omega
  unfold countQoda
  rw [if_neg h, sliceTo_one_cons hc]
  simp [h1, h2]

/-- **A line that starts with a wider character panics.** -/
theorem countQoda_wide {c : Char} (hc : c.utf8Size ≠ 1) (t : List Char) : countQoda (c :: t) = .error .panic := by
  have h : ¬ Utf8.byteLen (c :: t) < 1 := by
    have := Char.utf8Size_pos c
    rw [Utf8.byteLen_cons]; omega
  unfold countQoda
  rw [if_neg h, sliceTo_one_wide hc]
  rfl

theorem headerQuota_range (symbol : Char) (t : List Char) :
    0 ≤ headerQuota symbol t ∧ headerQuota symbol t ≤ 2147483647 := by
  unfold headerQuota
  split
  · rename_i num h
    have := parseI32_range h
    split
    · omega
    · split <;> omega
  · omega

theorem countQoda_range {s : List Char} {n : Int} (h : countQoda s = .ok n) : 0 ≤ n ∧ n ≤ 2147483647 := by
  match s with
  | [] => cases h; omega
  | c :: t =>
    by_cases hc : c.utf8Size = 1
    · by_cases hs : c = '$' ∨ c = '*'
      · rw [countQoda_header hs] at h; cases h; exact headerQuota_range _ _
      · rw [not_or] at hs
        rw [countQoda_other hs.1 hs.2 hc] at h; cases h; omega
    · rw [countQoda_wide hc] at h; cases h

theorem headerQuota_dollar_of_nonneg {t : List Char} {n : Int} (h : parseI32 t = .ok n) (hn : 0 ≤ n) :
    headerQuota '$' t = 1 := by
  unfold headerQuota
  rw [h]
  simp only [if_neg (by omega : ¬ n < 0), if_true]

theorem headerQuota_star_of_nonneg {t : List Char} {n : Int} (h : parseI32 t = .ok n) (hn : 0 ≤ n) :
    headerQuota '*' t = n := by
  unfold headerQuota
  rw [h]
  simp only [if_neg (by omega : ¬ n < 0), Char.reduceEq, if_false]

theorem headerQuota_of_neg {symbol : Char} {t : List Char} {n : Int} (h : parseI32 t = .ok n) (hn : n < 0) :
    headerQuota symbol t = 0 := by
  unfold headerQuota
  rw [h]
  simp only [if_pos hn]

/-! ## One line of the loop -/

/-- Where a line leaves the loop: the group `tmp` ends when the quota is zero, and goes on otherwise. -/
def settle (left qoda : Int) (tmp : List Char) (ps : List (List Char)) :
    Except (Fault ParserError) (List (List Char)) :=
  if qoda = 0 then do return tmp :: (← parseArrayLoop (wrapI32 (left - 1)) 1 [] ps)
  else parseArrayLoop left qoda tmp ps

/-- **What one line does**: its quota is added, and the line settles. -/
theorem parseArrayLoop_settle {left num : Int} {p : List Char} (hleft : left ≠ 0) (hp : countQoda p = .ok num)
    (qoda : Int) (tmp : List Char) (ps : List (List Char)) :
    parseArrayLoop left qoda tmp (p :: ps) = settle left (wrapI32 (wrapI32 (qoda + num) - 1)) (tmp ++ p ++ crlf) ps := by
  rw [parseArrayLoop, if_neg hleft, hp, ok_bind, settle]
  simp [crlf]

/-- What one line does, the counter being in range. -/
theorem parseArrayLoop_cons {left qoda num : Int} {p : List Char} (hleft : left ≠ 0) (hp : countQoda p = .ok num)
    (h1 : -2147483647 ≤ qoda + num) (h2 : qoda + num ≤ 2147483647) (tmp : List Char) (ps : List (List Char)) :
    parseArrayLoop left qoda tmp (p :: ps) = settle left (qoda + num - 1) (tmp ++ p ++ crlf) ps := by
  rw [parseArrayLoop_settle hleft hp, wrapI32_of_range (by omega) h2, wrapI32_of_range (by omega) (by omega)]

theorem parseArrayLoop_zero (qoda : Int) (tmp : List Char) (ps : List (List Char)) :
    parseArrayLoop 0 qoda tmp ps = .ok [] := by
  cases ps <;> simp [parseArrayLoop]

theorem settle_zero (left : Int) (tmp : List Char) (ps : List (List Char)) :
    settle left 0 tmp ps = do return tmp :: (← parseArrayLoop (wrapI32 (left - 1)) 1 [] ps) := if_pos rfl

theorem settle_of_ne {qoda : Int} (h : qoda ≠ 0) (left : Int) (tmp : List Char) (ps : List (List Char)) :
    settle left qoda tmp ps = parseArrayLoop left qoda tmp ps := if_neg h

theorem parseArrayLoop_cons_inv {left qoda : Int} {tmp p : List Char} {ps groups : List (List Char)}
    (hleft : left ≠ 0) (h : parseArrayLoop left qoda tmp (p :: ps) = .ok groups) :
    ∃ num, countQoda p = .ok num ∧
      ((wrapI32 (wrapI32 (qoda + num) - 1) = 0 ∧ ∃ gs, groups = (tmp ++ p ++ crlf) :: gs ∧
          parseArrayLoop (wrapI32 (left - 1)) 1 [] ps = .ok gs) ∨
        (wrapI32 (wrapI32 (qoda + num) - 1) ≠ 0 ∧
          parseArrayLoop left (wrapI32 (wrapI32 (qoda + num) - 1)) (tmp ++ p ++ crlf) ps = .ok groups)) := by
  cases hnum : countQoda p with
  | error e => rw [parseArrayLoop, if_neg hleft, hnum] at h; cases h
  | ok num =>
    refine ⟨num, rfl, ?_⟩
    rw [parseArrayLoop_settle hleft hnum, settle] at h
    split at h
    · rename_i hz
      obtain ⟨gs, hgs, he⟩ := bind_eq_ok.1 h
      cases he
      exact Or.inl ⟨hz, gs, rfl, hgs⟩
    · rename_i hz
      exact Or.inr ⟨hz, h⟩

/-- **A line that panics is read unless all groups are filled before it.** -/
theorem parseArrayLoop_before_panic {z : List Char} (hz : countQoda z = .error .panic) :
    ∀ (lines : List (List Char)) (left qoda : Int) (tmp : List Char) (groups : List (List Char)),
      0 ≤ left → left ≤ 2147483647 → parseArrayLoop left qoda tmp (lines ++ [z]) = .ok groups →
        (groups.length : Int) = left ∧ parseArrayLoop left qoda tmp lines = .ok groups
  | [], left, qoda, tmp, groups, h0, h1, h => by
    by_cases hl : left = 0
    · subst hl
      rw [List.nil_append, parseArrayLoop_zero] at h
      cases h
      exact ⟨rfl, rfl⟩
    · obtain ⟨num, hnum, -⟩ := parseArrayLoop_cons_inv hl h
      rw [hz] at hnum; cases hnum
  | p :: ps, left, qoda, tmp, groups, h0, h1, h => by
    by_cases hl : left = 0
    · subst hl
      rw [parseArrayLoop_zero] at h ⊢
      cases h
      exact ⟨rfl, rfl⟩
    · obtain ⟨num, hnum, ⟨hq, gs, rfl, hgs⟩ | ⟨hq, hgs⟩⟩ := parseArrayLoop_cons_inv hl h
      · rw [wrapI32_of_range (by omega) (by omega)] at hgs
        obtain ⟨hlen, hloop⟩ := parseArrayLoop_before_panic hz ps _ _ _ _ (by omega) (by omega) hgs
        refine ⟨by rw [List.length_cons]; push_cast; omega, ?_⟩
        rw [parseArrayLoop_settle hl hnum, hq, settle_zero, wrapI32_of_range (by omega) (by omega), hloop]
        rfl
      · obtain ⟨hlen, hloop⟩ := parseArrayLoop_before_panic hz ps _ _ _ _ h0 h1 hgs
        refine ⟨hlen, ?_⟩
        rw [parseArrayLoop_settle hl hnum, settle_of_ne hq]
        exact hloop

/-! ## Bulk strings -/

theorem noCrlf_of_parse_bulkString {s b : List Char} (h : parse s = .ok (.bulkString b)) : NoCrlf b := by
  cases parse_eq_ok.1 h with
  | bulkString hs _ _ hb =>
  obtain ⟨u, rfl, -⟩ := sliceTo_eq_ok hb
  have hdata : NoCrlf (b ++ u) := Lines.free_of_mem_split '\r' '\n' s _
    (by rw [show Lines.split '\r' '\n' s = _ from hs]; simp)
  exact hdata.of_infix (List.prefix_append b u).isInfix

theorem parse_line_ne_bulkString {p b : List Char} (hp : NoCrlf p) (hq : countQoda p = .ok 0) :
    parse (p ++ crlf) ≠ .ok (.bulkString b) := by
  intro h
  have hlines : splitCrlf (p ++ crlf) = p :: splitCrlf [] := Lines.split_free_append (by decide) [] p hp
  cases parse_eq_ok.1 h with
  | bulkString hs hn h0 _ =>
  obtain ⟨rfl, -⟩ := List.cons.inj (hlines.symm.trans hs)
  rw [countQoda_header (.inl rfl), headerQuota_dollar_of_nonneg hn h0] at hq
  cases hq

/-- **Groups that are bulk strings take at least two lines each**; a group begun has taken one already. -/
theorem groups_of_bulk_count : ∀ (lines : List (List Char)) (left qoda : Int) (tmp : List Char)
    (groups : List (List Char)), (∀ l ∈ lines, NoCrlf l) → parseArrayLoop left qoda tmp lines = .ok groups →
      (∀ g ∈ groups, ∃ b, parse g = .ok (.bulkString b)) →
        2 * groups.length ≤ lines.length + 1 ∧ (tmp = [] → qoda = 1 → 2 * groups.length ≤ lines.length)
  | [], left, qoda, tmp, groups, _, h, _ => by
    cases h; simp
  | p :: ps, left, qoda, tmp, groups, hfree, h, hbulk => by
    have hps : ∀ l ∈ ps, NoCrlf l := fun l hl => hfree l (by simp [hl])
    by_cases hl : left = 0
    · subst hl
      rw [parseArrayLoop_zero] at h
      cases h
      simp
    obtain ⟨num, hnum, ⟨hq, gs, rfl, hgs⟩ | ⟨hq, hgs⟩⟩ := parseArrayLoop_cons_inv hl h
    · obtain ⟨-, ih⟩ := groups_of_bulk_count ps _ _ _ _ hps hgs (fun g hg => hbulk g (by simp [hg]))
      have ih := ih rfl rfl
      refine ⟨by rw [List.length_cons, List.length_cons]; omega, fun htmp hqoda => ?_⟩
      -- a group that ends with its first line is the line itself
      subst htmp hqoda
      obtain ⟨b, hb⟩ := hbulk _ List.mem_cons_self
      have hr := countQoda_range hnum
      have hz : num = 0 := by unfold wrapI32 at hq; omega
      subst hz
      exact absurd hb (parse_line_ne_bulkString (hfree p (by simp)) hnum)
    · obtain ⟨ih, -⟩ := groups_of_bulk_count ps _ _ _ _ hps hgs hbulk
      exact ⟨by rw [List.length_cons]; omega, fun _ _ => by rw [List.length_cons]; omega⟩

end Rusdis
