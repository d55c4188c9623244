import Rusdis.Frame
/-!
# Complete — the texts whose value is all there

`parse` does not look for the end of a frame: an array stops at the last line, a longer payload is cut, and the CRLF
after a payload is not asked for.  `Elements` counts what the lines of a text still owe, payloads set apart.  A text
whose lines last until nothing is owed (`Complete`) encodes what was parsed, unless a payload was counted as a header
(`frame_of_elements`); every text that encodes what was parsed is so (`elements_of_frame`).
-/
namespace Rusdis

open Fallible Utf8

/-! ## What the lines owe -/

/-- The lines of `owed` elements: an array header owes as many more as it declares, a payload line is as long as its
header declares and a `P`, and any other line owes nothing. -/
inductive Elements (P : List Char → Prop) : Nat → List (List Char) → Prop
  | nil : Elements P 0 []
  | line {owed : Nat} {l : List Char} {ls : List (List Char)} : countQoda l = .ok 0 → Elements P owed ls →
      Elements P (owed + 1) (l :: ls)
  | bulkString {owed : Nat} {t data : List Char} {ls : List (List Char)} : parseI32 t = .ok (byteLen data) → P data →
      Elements P owed ls → Elements P (owed + 1) (('$' :: t) :: data :: ls)
  | array {owed n : Nat} {t : List Char} {ls : List (List Char)} : parseI32 t = .ok n → Elements P (owed + n) ls →
      Elements P (owed + 1) (('*' :: t) :: ls)

/-- In an array, a payload that is not counted as a header. -/
def Uncounted (s data : List Char) : Prop := s.head? = some '*' → countQoda data = .ok 0

section
variable {P : List Char → Prop}

theorem Elements.length_le {owed : Nat} {ls : List (List Char)} (h : Elements P owed ls) : owed ≤ ls.length := by
  induction h with
  | nil => exact Nat.le_refl _
  | line _ _ ih => rw [List.length_cons]; omega
  | bulkString _ _ _ ih => rw [List.length_cons, List.length_cons]; omega
  | array _ _ ih => rw [List.length_cons]; omega

theorem Elements.append {a b : Nat} {ls ms : List (List Char)} (h : Elements P a ls) (h' : Elements P b ms) :
    Elements P (a + b) (ls ++ ms) := by
  induction h with
  | nil => rwa [Nat.zero_add]
  | line hq _ ih =>
    rw [Nat.add_right_comm]
    exact .line hq ih
  | bulkString ht hd _ ih =>
    rw [Nat.add_right_comm]
    exact .bulkString ht hd ih
  | @array owed n _ _ ht _ ih =>
    rw [Nat.add_right_comm]
    exact .array ht (by rwa [Nat.add_right_comm] at ih)

theorem Elements.mono {Q : List Char → Prop} (hPQ : ∀ data, P data → Q data) {owed : Nat} {ls : List (List Char)}
    (h : Elements P owed ls) : Elements Q owed ls := by
  induction h with
  | nil => exact .nil
  | line hq _ ih => exact .line hq ih
  | bulkString ht hd _ ih => exact .bulkString ht (hPQ _ hd) ih
  | array ht _ ih => exact .array ht ih

/-- What several owe is paid one element after the other. -/
theorem Elements.split {owed : Nat} {ls : List (List Char)} (h : Elements P owed ls) : ∀ {a b : Nat}, owed = a + b →
    ∃ ms ns, ls = ms ++ ns ∧ Elements P a ms ∧ Elements P b ns := by
  induction h with
  | nil =>
    intro a b hab
    obtain ⟨rfl, rfl⟩ : a = 0 ∧ b = 0 := by omega
    exact ⟨[], [], rfl, .nil, .nil⟩
  | @line owed l ls hq hls ih =>
    intro a b hab
    match a with
    | 0 => exact ⟨[], _, rfl, .nil, by rw [show b = owed + 1 by omega]; exact .line hq hls⟩
    | a + 1 =>
      obtain ⟨ms, ns, rfl, hms, hns⟩ := ih (a := a) (b := b) (by omega)
      exact ⟨l :: ms, ns, rfl, .line hq hms, hns⟩
  | @bulkString owed t data ls ht hd hls ih =>
    intro a b hab
    match a with
    | 0 => exact ⟨[], _, rfl, .nil, by rw [show b = owed + 1 by omega]; exact .bulkString ht hd hls⟩
    | a + 1 =>
      obtain ⟨ms, ns, rfl, hms, hns⟩ := ih (a := a) (b := b) (by omega)
      exact ⟨('$' :: t) :: data :: ms, ns, rfl, .bulkString ht hd hms, hns⟩
  | @array owed n t ls ht hls ih =>
    intro a b hab
    match a with
    | 0 => exact ⟨[], _, rfl, .nil, by rw [show b = owed + 1 by omega]; exact .array ht hls⟩
    | a + 1 =>
      obtain ⟨ms, ns, rfl, hms, hns⟩ := ih (a := a + n) (b := b) (by omega)
      exact ⟨('*' :: t) :: ms, ns, rfl, .array ht hms, hns⟩

end

/-! ## The loop takes the elements apart -/

/-- **Elements use up the quota**, one each, while no payload is counted. -/
theorem settle_elements {a : Nat} {ls : List (List Char)} (h : Elements (countQoda · = .ok 0) a ls) :
    ∀ {left : Int} {qoda : Int} (tmp : List Char) (rest : List (List Char)), left ≠ 0 → a ≤ qoda →
      qoda - a + ls.length < 2147483648 →
        settle left qoda tmp (ls ++ rest) = settle left (qoda - a) (tmp ++ Lines.joinLines '\r' '\n' ls) rest := by
  induction h with
  | nil => intro left qoda tmp rest _ _ _; simp
  | @line owed l ls hq hls ih =>
    intro left qoda tmp rest hleft hle hlt
    have hlen := hls.length_le
    rw [List.length_cons] at hlt
    push_cast at hle hlt
    rw [settle_of_ne (by omega), List.cons_append, parseArrayLoop_cons hleft hq (by omega) (by omega),
      ih _ rest hleft (by omega) (by omega)]
    simp [crlf, Int.sub_sub, Int.add_comm]
  | @bulkString owed t data ls ht hd hls ih =>
    intro left qoda tmp rest hleft hle hlt
    have hlen := hls.length_le
    rw [List.length_cons, List.length_cons] at hlt
    push_cast at hle hlt
    have hcount : countQoda ('$' :: t) = .ok 1 := by
      rw [countQoda_header (.inl rfl), headerQuota_dollar_of_nonneg ht (by omega)]
    rw [settle_of_ne (by omega), List.cons_append, List.cons_append,
      parseArrayLoop_cons hleft hcount (by omega) (by omega), settle_of_ne (by omega),
      parseArrayLoop_cons hleft hd (by omega) (by omega), ih _ rest hleft (by omega) (by omega)]
    rw [show qoda + 1 - 1 + 0 - 1 - (owed : Int) = qoda - ((owed + 1 : Nat) : Int) by push_cast; omega]
    simp [crlf]
  | @array owed n t ls ht hls ih =>
    intro left qoda tmp rest hleft hle hlt
    have hlen := hls.length_le
    rw [List.length_cons] at hlt
    push_cast at hle hlt
    have hcount : countQoda ('*' :: t) = .ok n := by
      rw [countQoda_header (.inr rfl), headerQuota_star_of_nonneg ht (by omega)]
    rw [settle_of_ne (by omega), List.cons_append, parseArrayLoop_cons hleft hcount (by omega) (by omega),
      ih _ rest hleft (by push_cast; omega) (by push_cast; omega)]
    rw [show qoda + n - 1 - ((owed + n : Nat) : Int) = qoda - ((owed + 1 : Nat) : Int) by push_cast; omega]
    simp [crlf]

/-- **The groups of a complete array are its elements**, as many as it declares. -/
theorem groups_of_elements (rest : List (List Char)) : ∀ {n : Nat} {ls : List (List Char)},
    Elements (countQoda · = .ok 0) n ls → ls.length < 2147483648 →
      ∃ es : List (List (List Char)),
        parseArrayLoop n 1 [] (ls ++ rest) = .ok (es.map (Lines.joinLines '\r' '\n')) ∧ ls = es.flatten ∧
          es.length = n ∧ ∀ e ∈ es, Elements (countQoda · = .ok 0) 1 e
  | 0, _, .nil, _ => ⟨[], parseArrayLoop_zero _ _ _, rfl, rfl, List.forall_mem_nil _⟩
  | n + 1, ls, h, hlt => by
    obtain ⟨e, ms, rfl, he, hms⟩ := h.split (a := 1) (b := n) (by omega)
    rw [List.length_append] at hlt
    obtain ⟨es, hes, rfl, rfl, hall⟩ := groups_of_elements rest hms (by omega)
    have hle := hms.length_le
    have hleft : wrapI32 (((es.length + 1 : Nat) : Int) - 1) = es.length := by
      rw [wrapI32_of_range (by omega) (by omega)]
      omega
    have hloop : settle ((es.length + 1 : Nat) : Int) 1 [] (e ++ (es.flatten ++ rest)) =
        settle ((es.length + 1 : Nat) : Int) (1 - (1 : Nat)) ([] ++ Lines.joinLines '\r' '\n' e) (es.flatten ++ rest) :=
      settle_elements he [] (es.flatten ++ rest) (by omega) (by omega) (by push_cast; omega)
    rw [settle_of_ne (by omega), show (1 : Int) - ((1 : Nat) : Int) = 0 from rfl, settle_zero, hleft, hes] at hloop
    refine ⟨e :: es, ?_, rfl, rfl, fun x hx => ?_⟩
    · rw [List.append_assoc, hloop]
      rfl
    · rcases List.mem_cons.1 hx with rfl | hx
      · exact he
      · exact hall x hx

/-! ## A complete text encodes what was parsed -/

theorem elements_one {P : List Char → Prop} {l : List Char} {ls lines rest : List (List Char)} (h : Elements P 1 ls)
    (hls : ls ++ rest = l :: lines) : (ls = [l] ∧ countQoda l = .ok 0) ∨
      (∃ t data, l = '$' :: t ∧ ls = [l, data] ∧ parseI32 t = .ok (byteLen data) ∧ P data) ∨
      ∃ (n : Nat) (t : List Char) (ms : List (List Char)), l = '*' :: t ∧ ls = l :: ms ∧ parseI32 t = .ok n ∧
        Elements P n ms := by
  cases h with
  | line hq h =>
    cases h
    obtain ⟨rfl, -⟩ := List.cons.inj hls
    exact Or.inl ⟨rfl, hq⟩
  | bulkString ht hd h =>
    cases h
    obtain ⟨rfl, -⟩ := List.cons.inj hls
    exact Or.inr (Or.inl ⟨_, _, rfl, rfl, ht, hd⟩)
  | array ht h =>
    obtain ⟨rfl, -⟩ := List.cons.inj hls
    rw [Nat.zero_add] at h
    exact Or.inr (Or.inr ⟨_, _, _, rfl, rfl, ht, h⟩)

theorem joinLines_singleton (l : List Char) : Lines.joinLines '\r' '\n' [l] = l ++ crlf := by simp [crlf]

/-- One element that is no array is a line, or a header and its payload. -/
theorem frame_of_single {v : Value} {s : List Char} {ls rest : List (List Char)} (hv : ∀ vs, v ≠ .array vs)
    (h : parse s = .ok v) (hs : splitCrlf s = ls ++ rest) (hfree : ∀ l ∈ ls, NoCrlf l)
    (hels : Elements (Uncounted s) 1 ls) : Frame ReadAs v (Lines.joinLines '\r' '\n' ls) := by
  cases parse_eq_ok.1 h with
  | @simpleString l m more hl =>
    obtain ⟨rfl, -⟩ | ⟨t, data, ht, -⟩ | ⟨n, t, ms, ht, -⟩ := elements_one hels (hs.symm.trans hl)
    · rw [joinLines_singleton]
      exact .simpleString (Lines.Free.of_infix (hfree _ List.mem_cons_self) (List.suffix_cons '+' l).isInfix)
    · cases ht
    · cases ht
  | @integer t m more n hl ht =>
    obtain ⟨rfl, -⟩ | ⟨u, data, hu, -⟩ | ⟨k, u, ms, hu, -⟩ := elements_one hels (hs.symm.trans hl)
    · have hr := parseI32_range ht
      rw [joinLines_singleton]
      refine .integer ?_
      rw [Int32.toInt_ofInt_of_le (by omega) (by omega)]
      exact ht
    · cases hu
    · cases hu
  | @nullBulk t m more hl ht =>
    obtain ⟨rfl, -⟩ | ⟨u, data, hu, -, hu', -⟩ | ⟨k, u, ms, hu, -⟩ := elements_one hels (hs.symm.trans hl)
    · rw [joinLines_singleton]
      exact .nullBulk ht
    · cases hu
      cases ht.symm.trans hu'
    · cases hu
  | @bulkString t data b more n hl ht h0 hb =>
    obtain ⟨-, hq⟩ | ⟨u, data', hu, rfl, hu', -⟩ | ⟨k, u, ms, hu, -⟩ := elements_one hels (hs.symm.trans hl)
    · rw [countQoda_header (.inl rfl), headerQuota_dollar_of_nonneg ht h0] at hq
      cases hq
    · cases hu
      obtain rfl : data' = data := (List.cons.inj (List.cons.inj (hs.symm.trans hl)).2).1
      cases ht.symm.trans hu'
      cases hb.symm.trans (sliceTo_byteLen data')
      have := Frame.bulkString (R := ReadAs) ht
      simpa [crlf] using this
    · cases hu
  | @nullArray t lines hl ht =>
    obtain ⟨rfl, -⟩ | ⟨u, data, hu, -⟩ | ⟨k, u, ms, hu, -, hu', -⟩ := elements_one hels (hs.symm.trans hl)
    · rw [joinLines_singleton]
      exact .nullArray ht
    · cases hu
    · cases hu
      cases ht.symm.trans hu'
  | array => exact absurd rfl (hv _)

/-- **The loop gives an array its elements**, as many as the header declares. -/
theorem elements_of_array {s : List Char} {vs : List Value} {ls rest : List (List Char)} (h : parse s = .ok (.array vs))
    (hs : splitCrlf s = ls ++ rest) (hlt : ls.length < 2147483648) (hels : Elements (Uncounted s) 1 ls) :
    ∃ (t : List Char) (es : List (List (List Char))), ls = ('*' :: t) :: es.flatten ∧
      parseI32 t = .ok vs.length ∧ List.Forall₂ (fun g v => parse g = .ok v) (es.map (Lines.joinLines '\r' '\n')) vs ∧
        ∀ e ∈ es, Elements (countQoda · = .ok 0) 1 e := by
  cases parse_eq_ok.1 h with
  | @array t lines groups n _ hl ht h0 hgroups hvs =>
    have hall := mapM_eq_ok.1 hvs
    obtain ⟨rfl, hq⟩ | ⟨u, data, hu, -⟩ | ⟨k, u, ms, hu, rfl, hu', hms⟩ := elements_one hels (hs.symm.trans hl)
    · rw [countQoda_header (.inr rfl), headerQuota_star_of_nonneg ht h0] at hq
      obtain rfl : n = 0 := Except.ok.inj hq
      rw [parseArrayLoop_zero] at hgroups
      cases hgroups
      cases hall
      exact ⟨t, [], rfl, ht, .nil, List.forall_mem_nil _⟩
    · cases hu
    · cases hu
      cases ht.symm.trans hu'
      obtain rfl : ms ++ rest = lines := (List.cons.inj (hs.symm.trans hl)).2
      have hhead : s.head? = some '*' := by
        obtain ⟨u, rfl⟩ := exists_cons_of_splitCrlf hl
        rfl
      rw [List.length_cons] at hlt
      obtain ⟨es, hes, rfl, rfl, heach⟩ := groups_of_elements rest (hms.mono (fun _ hd => hd hhead)) (by omega)
      cases hgroups.symm.trans hes
      have hlen := hall.length_eq
      rw [List.length_map] at hlen
      exact ⟨t, es, rfl, hlen ▸ ht, hall, heach⟩

mutual

/-- **The elements of a parsed text encode its value.** -/
theorem frame_of_elements : ∀ (v : Value) (s : List Char) {ls rest : List (List Char)}, parse s = .ok v →
    splitCrlf s = ls ++ rest → ls.length < 2147483648 → Elements (Uncounted s) 1 ls →
      Frame ReadAs v (Lines.joinLines '\r' '\n' ls)
  | v, s, ls, rest, h, hs, hlt, hels => by
    have hfree : ∀ l ∈ ls, NoCrlf l := fun l hl =>
      Lines.free_of_mem_split '\r' '\n' s l (by rw [show Lines.split '\r' '\n' s = _ from hs]; simp [hl])
    cases v with
    | array vs =>
      obtain ⟨t, es, rfl, ht, hall, heach⟩ := elements_of_array h hs hlt hels
      have hframes := frames_of_elements vs es hall (fun e he => ⟨heach e he, ?_, fun l hl => ?_⟩)
      · have := Frame.array ht hframes
        simpa [crlf] using this
      · have := (List.sublist_flatten_of_mem he).length_le
        rw [List.length_cons] at hlt
        omega
      · exact hfree l (List.mem_cons_of_mem _ (List.mem_flatten.2 ⟨e, he, hl⟩))
    | _ => exact frame_of_single nofun h hs hfree hels

theorem frames_of_elements : ∀ (vs : List Value) (es : List (List (List Char))),
    List.Forall₂ (fun g v => parse g = .ok v) (es.map (Lines.joinLines '\r' '\n')) vs →
    (∀ e ∈ es, Elements (countQoda · = .ok 0) 1 e ∧ e.length < 2147483648 ∧ ∀ l ∈ e, NoCrlf l) →
      Frames ReadAs vs (Lines.joinLines '\r' '\n' es.flatten)
  | [], [], _, _ => .nil
  | v :: vs, e :: es, .cons hv hvs, hall => by
    obtain ⟨he, hlt, hfree⟩ := hall e List.mem_cons_self
    have hs := Lines.split_joinLines_append (by decide) [] e hfree
    rw [List.append_nil] at hs
    rw [List.flatten_cons, Lines.joinLines_append]
    exact .cons (frame_of_elements v _ hv hs hlt (he.mono (fun _ hd _ => hd)))
      (frames_of_elements vs es hvs (fun x hx => hall x (List.mem_cons_of_mem _ hx)))

end

/-! ## A text that encodes what was parsed is complete -/

mutual

theorem noCrlf_of_parse : ∀ (v : Value) (s : List Char), parse s = .ok v → EveryBulk NoCrlf v
  | .bulkString b, s, h => noCrlf_of_parse_bulkString h
  | .array vs, s, h => by
    cases parse_eq_ok.1 h with
    | array _ _ _ _ hvs => exact noCrlf_of_parses vs _ (mapM_eq_ok.1 hvs)
  | .simpleString _, _, _ => trivial
  | .simpleError _, _, _ => trivial
  | .integer _, _, _ => trivial
  | .null, _, _ => trivial

theorem noCrlf_of_parses : ∀ (vs : List Value) (groups : List (List Char)),
    List.Forall₂ (fun g v => parse g = .ok v) groups vs → EveryBulks NoCrlf vs
  | [], _, _ => trivial
  | v :: vs, _, .cons hg hgs => ⟨noCrlf_of_parse v _ hg, noCrlf_of_parses vs _ hgs⟩

end

mutual

/-- The lines of a frame are those of one element. -/
theorem elements_of_frame : ∀ (v : Value) (f : List Char), Frame ReadAs v f → EveryBulk NoCrlf v → ∀ r,
    ∃ ls, Elements (fun _ => True) 1 ls ∧ splitCrlf (f ++ r) = ls ++ splitCrlf r
  | .simpleString l, _, .simpleString hl, _, r =>
    ⟨['+' :: l], .line (countQoda_plus l) .nil, splitCrlf_line (noCrlf_cons (by decide) hl) r⟩
  | .integer _, _, .integer (t := t) ht, _, r =>
    ⟨[':' :: t], .line (countQoda_colon t) .nil, splitCrlf_line (noCrlf_cons (by decide) (noCrlf_of_parseI32 ht)) r⟩
  | .null, _, .nullBulk (t := t) ht, _, r =>
    ⟨['$' :: t], .line (countQoda_null (.inl rfl) ht) .nil,
      splitCrlf_line (noCrlf_cons (by decide) (noCrlf_of_parseI32 ht)) r⟩
  | .null, _, .nullArray (t := t) ht, _, r =>
    ⟨['*' :: t], .line (countQoda_null (.inr rfl) ht) .nil,
      splitCrlf_line (noCrlf_cons (by decide) (noCrlf_of_parseI32 ht)) r⟩
  | .bulkString b, _, .bulkString (t := t) ht, hb, r => by
    refine ⟨['$' :: t, b], .bulkString ht trivial .nil, ?_⟩
    rw [show '$' :: t ++ crlf ++ b ++ crlf ++ r = ('$' :: t) ++ crlf ++ (b ++ crlf ++ r) by simp,
      splitCrlf_line (noCrlf_cons (by decide) (noCrlf_of_parseI32 ht)), splitCrlf_line hb]
    rfl
  | .array vs, _, .array (t := t) (w := body) ht hvs, hb, r => by
    obtain ⟨ls, hls, hsplit⟩ := elements_of_frames vs body hvs hb r
    refine ⟨('*' :: t) :: ls, .array ht (by rwa [Nat.zero_add]), ?_⟩
    rw [show '*' :: t ++ crlf ++ body ++ r = ('*' :: t) ++ crlf ++ (body ++ r) by simp,
      splitCrlf_line (noCrlf_cons (by decide) (noCrlf_of_parseI32 ht)), hsplit]
    rfl

theorem elements_of_frames : ∀ (vs : List Value) (body : List Char), Frames ReadAs vs body → EveryBulks NoCrlf vs →
    ∀ r, ∃ ls, Elements (fun _ => True) vs.length ls ∧ splitCrlf (body ++ r) = ls ++ splitCrlf r
  | [], _, .nil, _, _ => ⟨[], .nil, rfl⟩
  | v :: vs, _, .cons (s := f) (w := body) hv hvs, hb, r => by
    obtain ⟨ls, hls, hsplit⟩ := elements_of_frame v f hv hb.1 (body ++ r)
    obtain ⟨ms, hms, hsplit'⟩ := elements_of_frames vs body hvs hb.2 r
    refine ⟨ls ++ ms, ?_, by rw [List.append_assoc, hsplit, hsplit', List.append_assoc]⟩
    rw [List.length_cons, Nat.add_comm]
    exact hls.append hms

end

/-- A payload that is counted swallows the element after it; the text repeats that element. -/
example : parse "*2\r\n$2\r\n$5\r\n$1\r\na\r\n$1\r\na\r\n".toList =
    .ok (.array [.bulkString ['$', '5'], .bulkString ['a']]) := by decide +kernel

end Rusdis
