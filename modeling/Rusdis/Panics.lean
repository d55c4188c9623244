import Rusdis.Quota
/-!
# Panics — the texts `parse` panics on

Every other slice of the parser is within its text: two are not always.  `parse_bulk_string` cuts its data line at the
length its header declares, and `count_qoda` takes the first byte of every line `parse_array` looks at.  `Faulty` says
where one of them falls outside the line or inside a character, `Parses` which texts are read before it; `parse`
returns exactly on the texts that are not faulty (`parse_returns_iff`).
-/
namespace Rusdis

open Fallible

/-! ## One line -/

/-- A line whose first character has more than one byte. -/
def Wide : List Char → Prop
  | []     => False
  | c :: _ => c.utf8Size ≠ 1

/-- Byte `n` of the text is its end or the start of a character. -/
def Boundary (n : Nat) (s : List Char) : Prop := ∃ l t, s = l ++ t ∧ Utf8.byteLen l = n

/-- The quota a line adds. -/
def lineQuota : List Char → Int
  | []          => 0
  | symbol :: t => if symbol = '$' ∨ symbol = '*' then headerQuota symbol t else 0

def nextQuota (qoda : Int) (p : List Char) : Int := wrapI32 (wrapI32 (qoda + lineQuota p) - 1)

theorem countQoda_of_not_wide : ∀ (p : List Char), ¬ Wide p → countQoda p = .ok (lineQuota p)
  | [], _ => countQoda_nil
  | c :: t, h => by
    have hc : c.utf8Size = 1 := not_not.1 h
    by_cases hs : c = '$' ∨ c = '*'
    · rw [countQoda_header hs, lineQuota, if_pos hs]
    · rw [lineQuota, if_neg hs]
      rw [not_or] at hs
      exact countQoda_other hs.1 hs.2 hc t

theorem countQoda_of_wide : ∀ (p : List Char), Wide p → countQoda p = .error .panic
  | _ :: t, h => countQoda_wide h t

theorem sliceTo_of_boundary {n : Nat} {s : List Char} (h : Boundary n s) : ∃ l, sliceTo n s = .ok l := by
  obtain ⟨l, t, rfl, rfl⟩ := h
  exact ⟨l, sliceTo_byteLen_append l t⟩

theorem sliceTo_of_not_boundary {n : Nat} {s : List Char} (h : ¬ Boundary n s) : sliceTo n s = .error .panic := by
  cases hl : sliceTo n s with
  | ok l =>
    obtain ⟨t, hs, hn⟩ := sliceTo_eq_ok hl
    exact absurd ⟨l, t, hs, hn⟩ h
  | error e =>
    unfold sliceTo at hl
    cases hsplit : Utf8.splitAt n s with
    | none => rw [hsplit] at hl; cases hl; rfl
    | some p => rw [hsplit] at hl; cases hl

/-! ## The lines of an array -/

/-- The lines the loop looks at: all up to the one that fills the last group. -/
def readLines : Int → Int → List (List Char) → List (List Char)
  | _, _, [] => []
  | left, qoda, p :: ps =>
    if left = 0 then []
    else if nextQuota qoda p = 0 then p :: readLines (wrapI32 (left - 1)) 1 ps
    else p :: readLines left (nextQuota qoda p) ps

/-- The groups of these lines. -/
def cutGroups : Int → Int → List Char → List (List Char) → List (List Char)
  | _, _, _, [] => []
  | left, qoda, tmp, p :: ps =>
    if left = 0 then []
    else if nextQuota qoda p = 0 then (tmp ++ p ++ crlf) :: cutGroups (wrapI32 (left - 1)) 1 [] ps
    else cutGroups left (nextQuota qoda p) (tmp ++ p ++ crlf) ps

theorem parseArrayLoop_of_not_wide {left : Int} {p : List Char} (hleft : left ≠ 0) (hp : ¬ Wide p) (qoda : Int)
    (tmp : List Char) (ps : List (List Char)) :
    parseArrayLoop left qoda tmp (p :: ps) = settle left (nextQuota qoda p) (tmp ++ p ++ crlf) ps :=
  parseArrayLoop_settle hleft (countQoda_of_not_wide p hp) qoda tmp ps

/-- **The loop cuts the lines it looks at into groups, where none of them begins with a wide character.** -/
theorem parseArrayLoop_cut : ∀ (lines : List (List Char)) (left qoda : Int) (tmp : List Char),
    (∀ z ∈ readLines left qoda lines, ¬ Wide z) →
      parseArrayLoop left qoda tmp lines = .ok (cutGroups left qoda tmp lines)
  | [], _, _, _, _ => rfl
  | p :: ps, left, qoda, tmp, h => by
    by_cases hl : left = 0
    · rw [cutGroups, if_pos hl, hl, parseArrayLoop_zero]
    rw [readLines, if_neg hl] at h
    rw [cutGroups, if_neg hl]
    by_cases hq : nextQuota qoda p = 0
    · rw [if_pos hq, List.forall_mem_cons] at h
      have ih := parseArrayLoop_cut ps (wrapI32 (left - 1)) 1 [] h.2
      rw [parseArrayLoop_of_not_wide hl h.1, hq, settle_zero, ih, if_pos rfl]
      rfl
    · rw [if_neg hq, List.forall_mem_cons] at h
      have ih := parseArrayLoop_cut ps left (nextQuota qoda p) (tmp ++ p ++ crlf) h.2
      rw [parseArrayLoop_of_not_wide hl h.1, settle_of_ne hq, ih, if_neg hq]

/-- **The loop panics at a wide line it looks at.** -/
theorem parseArrayLoop_wide {z : List Char} (hz : Wide z) : ∀ (lines : List (List Char)) (left qoda : Int)
    (tmp : List Char), z ∈ readLines left qoda lines → parseArrayLoop left qoda tmp lines = .error .panic
  | [], _, _, _, h => by cases h
  | p :: ps, left, qoda, tmp, h => by
    by_cases hl : left = 0
    · rw [readLines, if_pos hl] at h; cases h
    rw [readLines, if_neg hl] at h
    by_cases hp : Wide p
    · rw [parseArrayLoop, if_neg hl, countQoda_of_wide p hp]; rfl
    have hne : z ≠ p := by rintro rfl; exact hp hz
    rw [parseArrayLoop_of_not_wide hl hp]
    by_cases hq : nextQuota qoda p = 0
    · rw [if_pos hq] at h
      rw [hq, settle_zero, parseArrayLoop_wide hz ps (wrapI32 (left - 1)) 1 [] (List.mem_of_ne_of_mem hne h)]
      rfl
    · rw [if_neg hq] at h
      rw [settle_of_ne hq]
      exact parseArrayLoop_wide hz ps left (nextQuota qoda p) (tmp ++ p ++ crlf) (List.mem_of_ne_of_mem hne h)

theorem arrayGroups_cut {s t : List Char} {lines : List (List Char)} {n : Int} (hs : splitCrlf s = ('*' :: t) :: lines)
    (ht : parseI32 t = .ok n) (hn : 0 ≤ n) (hlines : ∀ z ∈ readLines n 1 lines, ¬ Wide z) :
    arrayGroups s = .ok (some (cutGroups n 1 [] lines)) := by
  rw [arrayGroups_eq hs ht hn, parseArrayLoop_cut lines n 1 [] hlines, map_ok]

/-! ## Texts -/

/-- The texts that are read: every bulk string is cut at a boundary, no array looks at a wide line. -/
inductive Parses : List Char → Prop
  | simpleString {s l m : List Char} {more : List (List Char)} : splitCrlf s = ('+' :: l) :: m :: more → Parses s
  | integer {s t m : List Char} {more : List (List Char)} {n : Int} : splitCrlf s = (':' :: t) :: m :: more →
      parseI32 t = .ok n → Parses s
  | nullBulk {s t m : List Char} {more : List (List Char)} : splitCrlf s = ('$' :: t) :: m :: more →
      parseI32 t = .ok (-1) → Parses s
  | bulkString {s t data : List Char} {more : List (List Char)} {n : Int} :
      splitCrlf s = ('$' :: t) :: data :: more → parseI32 t = .ok n → 0 ≤ n → Boundary n.toNat data → Parses s
  | nullArray {s t : List Char} {lines : List (List Char)} : splitCrlf s = ('*' :: t) :: lines →
      parseI32 t = .ok (-1) → Parses s
  | array {s t : List Char} {lines : List (List Char)} {n : Int} : splitCrlf s = ('*' :: t) :: lines →
      parseI32 t = .ok n → 0 ≤ n → (∀ z ∈ readLines n 1 lines, ¬ Wide z) →
        (∀ g ∈ cutGroups n 1 [] lines, Parses g) → Parses s

/-- The texts with a fault: a bulk string cut off its boundaries, an array that looks at a wide line, or an array
whose groups are read up to one with a fault. -/
inductive Faulty : List Char → Prop
  | bulkString {s t data : List Char} {more : List (List Char)} {n : Int} :
      splitCrlf s = ('$' :: t) :: data :: more → parseI32 t = .ok n → 0 ≤ n → ¬ Boundary n.toNat data → Faulty s
  | line {s t z : List Char} {lines : List (List Char)} {n : Int} : splitCrlf s = ('*' :: t) :: lines →
      parseI32 t = .ok n → 0 ≤ n → z ∈ readLines n 1 lines → Wide z → Faulty s
  | group {s t g : List Char} {lines pre post : List (List Char)} {n : Int} : splitCrlf s = ('*' :: t) :: lines →
      parseI32 t = .ok n → 0 ≤ n → (∀ z ∈ readLines n 1 lines, ¬ Wide z) →
        cutGroups n 1 [] lines = pre ++ g :: post → (∀ p ∈ pre, Parses p) → Faulty g → Faulty s

theorem parse_of_parses {s : List Char} (h : Parses s) : ∃ v, parse s = .ok v := by
  induction h with
  | simpleString hs => exact ⟨_, parse_eq_ok.2 (.simpleString hs)⟩
  | integer hs ht => exact ⟨_, parse_eq_ok.2 (.integer hs ht)⟩
  | nullBulk hs ht => exact ⟨_, parse_eq_ok.2 (.nullBulk hs ht)⟩
  | bulkString hs ht hn hb =>
    obtain ⟨b, hb⟩ := sliceTo_of_boundary hb
    exact ⟨_, parse_eq_ok.2 (.bulkString hs ht hn hb)⟩
  | nullArray hs ht => exact ⟨_, parse_eq_ok.2 (.nullArray hs ht)⟩
  | @array s t lines n hs ht hn hlines _ ih =>
    have hgs : ∃ vs, (cutGroups n 1 [] lines).mapM parse = .ok vs := by
      cases hvs : (cutGroups n 1 [] lines).mapM parse with
      | ok vs => exact ⟨vs, rfl⟩
      | error e =>
        obtain ⟨pre, g, post, hcut, -, hg⟩ := mapM_eq_error.1 hvs
        obtain ⟨v, hv⟩ := ih g (by rw [hcut]; simp)
        rw [hg] at hv; cases hv
    obtain ⟨vs, hvs⟩ := hgs
    exact ⟨_, parse_eq_ok.2 (.array hs ht hn (parseArrayLoop_cut lines n 1 [] hlines) hvs)⟩

theorem parses_of_parse (s : List Char) (v : Value) (h : parse s = .ok v) : Parses s := by
  cases parse_eq_ok.1 h with
  | simpleString hs => exact .simpleString hs
  | integer hs ht => exact .integer hs ht
  | nullBulk hs ht => exact .nullBulk hs ht
  | bulkString hs ht hn hb =>
    obtain ⟨u, hdata, hlen⟩ := sliceTo_eq_ok hb
    exact .bulkString hs ht hn ⟨_, u, hdata, hlen⟩
  | nullArray hs ht => exact .nullArray hs ht
  | @array t lines groups n vs hs ht hn hgs hvs =>
    have hlines : ∀ z ∈ readLines n 1 lines, ¬ Wide z := by
      intro z hz hw
      rw [parseArrayLoop_wide hw lines n 1 [] hz] at hgs
      cases hgs
    obtain rfl := Except.ok.inj (hgs.symm.trans (parseArrayLoop_cut lines n 1 [] hlines))
    refine .array hs ht hn hlines fun g hg => ?_
    obtain ⟨w, -, hw⟩ := exists_of_mem_left (mapM_eq_ok.1 hvs) g hg
    have hlt := arrayGroups_length_lt (arrayGroups_cut hs ht hn hlines) hg
    exact parses_of_parse g w hw
termination_by s.length

theorem parse_of_faulty {s : List Char} (h : Faulty s) : parse s = .error .panic := by
  induction h with
  | @bulkString s t data more n hs ht hn hb =>
    obtain ⟨u, rfl⟩ := exists_cons_of_splitCrlf hs
    rw [parse_dollar, parseBulkString, hs]
    simp only [sliceFrom_one_cons (show '$'.utf8Size = 1 from rfl), ok_bind, ht, orErr_ok,
      if_neg (show ¬ n = -1 by omega), if_neg (show ¬ n < -1 by omega), sliceTo_of_not_boundary hb]
    rfl
  | line hs ht hn hz hw =>
    obtain ⟨u, rfl⟩ := exists_cons_of_splitCrlf hs
    rw [parse_star, parseArray, arrayGroups_eq hs ht hn, parseArrayLoop_wide hw _ _ _ _ hz]
    rfl
  | group hs ht hn hlines hcut hpre _ ih =>
    obtain ⟨u, rfl⟩ := exists_cons_of_splitCrlf hs
    have hgs := mapM_eq_error.2 ⟨_, _, _, hcut, fun p hp => parse_of_parses (hpre p hp), ih⟩
    rw [parse_star, parseArray, arrayGroups_cut hs ht hn hlines]
    simp only [ok_bind, hgs, error_bind]

theorem parseSimpleString_ne_panic (s : List Char) : parseSimpleString ('+' :: s) ≠ .error .panic := by
  unfold parseSimpleString
  cases h : Lines.before '\r' '\n' ('+' :: s) with
  | none => nofun
  | some line =>
    obtain ⟨l, rfl⟩ := before_cons (by decide) h
    simp only [sliceFrom_one_cons (show '+'.utf8Size = 1 from rfl), ok_bind]
    nofun

theorem parseInteger_ne_panic (s : List Char) : parseInteger (':' :: s) ≠ .error .panic := by
  unfold parseInteger
  cases h : Lines.before '\r' '\n' (':' :: s) with
  | none => nofun
  | some line =>
    obtain ⟨l, rfl⟩ := before_cons (by decide) h
    simp only [sliceFrom_one_cons (show ':'.utf8Size = 1 from rfl), ok_bind]
    cases parseI32 l <;> nofun

theorem faulty_of_parseBulkString {s : List Char} (h : parseBulkString ('$' :: s) = .error .panic) :
    Faulty ('$' :: s) := by
  obtain ⟨l, lines, hs⟩ := splitCrlf_cons (c := '$') (by decide) s
  rw [parseBulkString, hs] at h
  cases lines with
  | nil => cases h
  | cons data more =>
    simp only [sliceFrom_one_cons (show '$'.utf8Size = 1 from rfl), ok_bind] at h
    cases hn : parseI32 l with
    | error e => rw [hn] at h; cases h
    | ok n =>
      simp only [hn, orErr_ok, ok_bind] at h
      split at h
      · cases h
      split at h
      · cases h
      refine .bulkString hs hn (by omega) fun hb => ?_
      obtain ⟨b, hb⟩ := sliceTo_of_boundary hb
      rw [hb] at h
      cases h

/-- A panic of `parse_array` is at one of the lines it looks at, or in one of its groups. -/
theorem faulty_of_parseArray {s : List Char} (h : parseArray ('*' :: s) = .error .panic)
    (ih : ∀ g : List Char, g.length < s.length + 1 → parse g = .error .panic → Faulty g) : Faulty ('*' :: s) := by
  obtain ⟨l, lines, hs⟩ := splitCrlf_cons (c := '*') (by decide) s
  cases hn : parseI32 l with
  | error e =>
    rw [parseArray, arrayGroups, hs] at h
    simp only [sliceFrom_one_cons (show '*'.utf8Size = 1 from rfl), ok_bind, hn] at h
    cases h
  | ok n =>
    by_cases h0 : 0 ≤ n
    · by_cases hlines : ∀ z ∈ readLines n 1 lines, ¬ Wide z
      · have hcut := arrayGroups_cut hs hn h0 hlines
        rw [parseArray, hcut] at h
        cases hvs : (cutGroups n 1 [] lines).mapM parse with
        | ok vs => simp only [ok_bind, hvs] at h; cases h
        | error e =>
          simp only [ok_bind, hvs, error_bind] at h
          cases h
          obtain ⟨pre, g, post, hgs, hpre, hg⟩ := mapM_eq_error.1 hvs
          refine .group hs hn h0 hlines hgs (fun p hp => ?_) (ih g (arrayGroups_length_lt hcut (by rw [hgs]; simp)) hg)
          obtain ⟨v, hv⟩ := hpre p hp
          exact parses_of_parse p v hv
      · obtain ⟨z, hz⟩ := not_forall.1 hlines
        obtain ⟨hz, hw⟩ := Classical.not_imp.1 hz
        exact .line hs hn h0 hz (not_not.1 hw)
    · rw [parseArray, arrayGroups, hs] at h
      simp only [sliceFrom_one_cons (show '*'.utf8Size = 1 from rfl), ok_bind, hn, orErr_ok] at h
      split at h
      · cases h
      rw [if_pos (by omega)] at h
      cases h

theorem faulty_of_parse (s : List Char) (h : parse s = .error .panic) : Faulty s := by
  match s with
  | [] => rw [parse_nil] at h; cases h
  | c :: s =>
    by_cases h1 : c = '+'
    · subst h1; exact absurd (parse_plus s ▸ h) (parseSimpleString_ne_panic s)
    by_cases h2 : c = ':'
    · subst h2; exact absurd (parse_colon s ▸ h) (parseInteger_ne_panic s)
    by_cases h3 : c = '$'
    · subst h3; exact faulty_of_parseBulkString (parse_dollar s ▸ h)
    by_cases h4 : c = '*'
    · subst h4
      exact faulty_of_parseArray (parse_star s ▸ h) fun g hlt hg => faulty_of_parse g hg
    · rw [parse_other h1 h2 h3 h4] at h; cases h
termination_by s.length

/-- **`parse` returns, a value or an error, exactly on the texts without a fault.** -/
theorem parse_returns_iff (s : List Char) :
    ((∃ v, parse s = .ok v) ∨ ∃ e, parse s = .error (.err e)) ↔ ¬ Faulty s := by
  constructor
  · intro h hs
    rw [parse_of_faulty hs] at h
    rcases h with ⟨v, hv⟩ | ⟨e, he⟩
    · cases hv
    · cases he
  · intro hs
    cases h : parse s with
    | ok v => exact Or.inl ⟨v, rfl⟩
    | error e =>
      cases e with
      | err e => exact Or.inr ⟨e, rfl⟩
      | panic => exact absurd (faulty_of_parse s h) hs

/-- Five bytes are declared, two are there. -/
theorem parse_short_bulk : ¬ ∀ s : List Char, (∃ v, parse s = .ok v) ∨ ∃ e, parse s = .error (.err e) := by
  intro h
  have hpanic : parse "$5\r\nhi\r\n".toList = .error .panic := by decide +kernel
  rcases h "$5\r\nhi\r\n".toList with ⟨v, hv⟩ | ⟨e, he⟩
  · rw [hpanic] at hv; cases hv
  · rw [hpanic] at he; cases he

end Rusdis
