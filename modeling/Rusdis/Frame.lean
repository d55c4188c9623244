import Rusdis.Request
/-!
# Frame — RESP encodings of values, to any depth

`Frame R v s` says that the text `s` encodes the value `v`, `R` fixing how numbers are spelled.  The running quota
follows a frame to its end (`parseArrayLoop_frame`), so every plain value is parsed back from its encoding, whatever
follows it (`parse_frame`).
-/
namespace Rusdis

open Fallible Utf8

mutual

/-- `s` is an encoding of `v`; `R t n` says that the text `t` spells the number `n`. -/
inductive Frame (R : List Char → Int → Prop) : Value → List Char → Prop
  | simpleString {s : List Char} : NoCrlf s → Frame R (.simpleString s) ('+' :: s ++ crlf)
  | integer {t : List Char} {n : Int32} : R t n.toInt → Frame R (.integer n) (':' :: t ++ crlf)
  | nullBulk {t : List Char} : R t (-1) → Frame R .null ('$' :: t ++ crlf)
  | nullArray {t : List Char} : R t (-1) → Frame R .null ('*' :: t ++ crlf)
  | bulkString {t s : List Char} : R t (byteLen s) → Frame R (.bulkString s) ('$' :: t ++ crlf ++ s ++ crlf)
  | array {t : List Char} {vs : List Value} {w : List Char} : R t vs.length → Frames R vs w →
      Frame R (.array vs) ('*' :: t ++ crlf ++ w)

inductive Frames (R : List Char → Int → Prop) : List Value → List Char → Prop
  | nil : Frames R [] []
  | cons {v : Value} {vs : List Value} {s w : List Char} : Frame R v s → Frames R vs w →
      Frames R (v :: vs) (s ++ w)

end

def Spelled (t : List Char) (n : Int) : Prop := t = Decimal.intText n

/-- Any spelling the parser reads. -/
def ReadAs (t : List Char) (n : Int) : Prop := parseI32 t = .ok n

mutual

def lineCount : Value → Nat
  | .bulkString _ => 2
  | .array vs     => 1 + lineCounts vs
  | _             => 1

def lineCounts : List Value → Nat
  | []      => 0
  | v :: vs => lineCount v + lineCounts vs

end

/-- The parser reads what `R` calls a spelling of an `i32`. -/
def Readable (R : List Char → Int → Prop) : Prop :=
  ∀ t n, R t n → -2147483648 ≤ n → n ≤ 2147483647 → parseI32 t = .ok n

theorem readable_spelled : Readable Spelled := by
  intro t n ht h1 h2
  rw [show t = Decimal.intText n from ht]
  exact parseI32_intText h1 h2

theorem readable_readAs : Readable ReadAs := fun _ _ h _ _ => h

mutual

/-- Every bulk string inside is a `P`. -/
def EveryBulk (P : List Char → Prop) : Value → Prop
  | .bulkString s => P s
  | .array vs     => EveryBulks P vs
  | _             => True

def EveryBulks (P : List Char → Prop) : List Value → Prop
  | []      => True
  | v :: vs => EveryBulk P v ∧ EveryBulks P vs

end

/-- No payload is mistaken for anything else. -/
abbrev Plain (v : Value) : Prop := EveryBulk Framed v

abbrev Plains (vs : List Value) : Prop := EveryBulks Framed vs

theorem length_le_lineCounts : ∀ (vs : List Value), vs.length ≤ lineCounts vs
  | []      => Nat.le_refl _
  | v :: vs => by
    have := length_le_lineCounts vs
    have hv : 1 ≤ lineCount v := by cases v <;> simp [lineCount]
    rw [List.length_cons, lineCounts]; omega

theorem splitCrlf_line {l : List Char} (h : NoCrlf l) (t : List Char) :
    splitCrlf (l ++ crlf ++ t) = l :: splitCrlf t := by
  rw [List.append_assoc]
  exact Lines.split_free_append (by decide) t l h

theorem noCrlf_cons {c : Char} (hc : c ≠ '\r') {l : List Char} (h : NoCrlf l) : NoCrlf (c :: l) :=
  (Lines.free_cons _ _).2 ⟨fun he => absurd he hc, h⟩

theorem countQoda_plus (l : List Char) : countQoda ('+' :: l) = .ok 0 := countQoda_other (by decide) (by decide) rfl l

theorem countQoda_colon (l : List Char) : countQoda (':' :: l) = .ok 0 := countQoda_other (by decide) (by decide) rfl l

theorem countQoda_null {c : Char} (hc : c = '$' ∨ c = '*') {t : List Char} (h : parseI32 t = .ok (-1)) :
    countQoda (c :: t) = .ok 0 := by
  rw [countQoda_header hc, headerQuota_of_neg h (by omega)]

theorem parseArrayLoop_text_line {l : List Char} (hl : NoCrlf l) (hc : countQoda l = .ok 0) {left qoda : Int}
    (hleft : left ≠ 0) (h1 : 1 ≤ qoda) (h2 : qoda ≤ 2147483647) (tmp t : List Char) :
    parseArrayLoop left qoda tmp (splitCrlf (l ++ crlf ++ t)) =
      settle left (qoda - 1) (tmp ++ (l ++ crlf)) (splitCrlf t) := by
  rw [splitCrlf_line hl, parseArrayLoop_cons hleft hc (by omega) (by omega), List.append_assoc, Int.add_zero]

mutual

/-- **A frame uses up one of the quota**: when its last line is read, the group ends or goes on with one less owed. -/
theorem parseArrayLoop_frame {R : List Char → Int → Prop} (hR : Readable R) : ∀ (v : Value)
    (s : List Char), Frame R v s → Plain v → ∀ (left qoda : Int) (tmp t : List Char), left ≠ 0 → 1 ≤ qoda → qoda - 1 + lineCount v < 1073741824 →
      parseArrayLoop left qoda tmp (splitCrlf (s ++ t)) = settle left (qoda - 1) (tmp ++ s) (splitCrlf t)
  | .simpleString s, _, .simpleString hs, _, left, qoda, tmp, t, hleft, h1, h2 => by
    simp only [lineCount] at h2
    exact parseArrayLoop_text_line (noCrlf_cons (by decide) hs) (countQoda_plus s) hleft h1 (by omega) tmp t
  | .integer n, _, .integer hn, _, left, qoda, tmp, t, hleft, h1, h2 => by
    simp only [lineCount] at h2
    have hread := hR _ _ hn (by have := n.le_toInt; omega) (by have := n.toInt_lt; omega)
    exact parseArrayLoop_text_line (noCrlf_cons (by decide) (noCrlf_of_parseI32 hread)) (countQoda_colon _) hleft h1
      (by omega) tmp t
  | .null, _, .nullBulk hn, _, left, qoda, tmp, t, hleft, h1, h2 => by
    simp only [lineCount] at h2
    have hread := hR _ _ hn (by omega) (by omega)
    exact parseArrayLoop_text_line (noCrlf_cons (by decide) (noCrlf_of_parseI32 hread))
      (countQoda_null (Or.inl rfl) hread) hleft h1 (by omega) tmp t
  | .null, _, .nullArray hn, _, left, qoda, tmp, t, hleft, h1, h2 => by
    simp only [lineCount] at h2
    have hread := hR _ _ hn (by omega) (by omega)
    exact parseArrayLoop_text_line (noCrlf_cons (by decide) (noCrlf_of_parseI32 hread))
      (countQoda_null (Or.inr rfl) hread) hleft h1 (by omega) tmp t
  | .bulkString b, _, .bulkString (t := u) hu, hb, left, qoda, tmp, t, hleft, h1, h2 => by
    simp only [EveryBulk, lineCount] at hb h2
    have hread := hR _ _ hu (by omega) (by have := hb.length; omega)
    have hcount : countQoda ('$' :: u) = .ok 1 := by
      rw [countQoda_header (.inl rfl), headerQuota_dollar_of_nonneg hread (by omega)]
    rw [show '$' :: u ++ crlf ++ b ++ crlf ++ t = ('$' :: u) ++ crlf ++ (b ++ crlf ++ t) by simp,
      splitCrlf_line (noCrlf_cons (by decide) (noCrlf_of_parseI32 hread)),
      parseArrayLoop_cons hleft hcount (by omega) (by omega), settle_of_ne (by omega),
      show qoda + 1 - 1 = qoda by omega, parseArrayLoop_text_line hb.noCrlf hb.quota hleft (by omega) (by omega)]
    simp
  | .array vs, _, .array (t := u) (w := body) hu hvs, hplain, left, qoda, tmp, t, hleft, h1, h2 => by
    simp only [EveryBulk, lineCount] at hplain h2
    have hlen := length_le_lineCounts vs
    have hread := hR _ _ hu (by omega) (by omega)
    have hcount : countQoda ('*' :: u) = .ok vs.length := by
      rw [countQoda_header (.inr rfl), headerQuota_star_of_nonneg hread (by omega)]
    rw [show '*' :: u ++ crlf ++ body ++ t = ('*' :: u) ++ crlf ++ (body ++ t) by simp,
      splitCrlf_line (noCrlf_cons (by decide) (noCrlf_of_parseI32 hread)),
      parseArrayLoop_cons hleft hcount (by omega) (by omega),
      parseArrayLoop_frames hR vs body hvs hplain left _ _ t hleft (by omega) (by omega),
      show qoda + vs.length - 1 - vs.length = qoda - 1 by omega]
    simp

theorem parseArrayLoop_frames {R : List Char → Int → Prop} (hR : Readable R) : ∀ (vs : List Value)
    (body : List Char), Frames R vs body → Plains vs → ∀ (left qoda : Int) (tmp t : List Char), left ≠ 0 → vs.length ≤ qoda →
      qoda - vs.length + lineCounts vs < 1073741824 →
        settle left qoda tmp (splitCrlf (body ++ t)) = settle left (qoda - vs.length) (tmp ++ body) (splitCrlf t)
  | [], _, .nil, _, left, qoda, tmp, t, _, _, _ => by simp
  | v :: vs, _, .cons (s := s) (w := body) hv hvs, hplain, left, qoda, tmp, t, hleft, h1, h2 => by
    simp only [EveryBulks, lineCounts, List.length_cons] at hplain h1 h2
    have hlen := length_le_lineCounts vs
    push_cast at h1 h2
    rw [settle_of_ne (by omega), List.append_assoc,
      parseArrayLoop_frame hR v s hv hplain.1 left qoda tmp _ hleft (by omega) (by omega),
      parseArrayLoop_frames hR vs body hvs hplain.2 left _ _ t hleft (by omega) (by omega)]
    rw [List.length_cons, List.append_assoc]
    congr 1
    push_cast; omega

end

/-- **Frames one after the other are one group each.** -/
theorem groups_of_frames {R : List Char → Int → Prop} (hR : Readable R) (rest : List Char) :
    ∀ (vs : List Value) (body : List Char), Frames R vs body → Plains vs → lineCounts vs < 1073741824 →
      ∃ groups, parseArrayLoop vs.length 1 [] (splitCrlf (body ++ rest)) = .ok groups ∧ groups.flatten = body ∧
        List.Forall₂ (fun g v => Frame R v g) groups vs
  | [], _, .nil, _, _ => ⟨[], parseArrayLoop_zero _ _ _, rfl, .nil⟩
  | v :: vs, _, .cons (s := s) (w := body) hv hvs, hplain, hlines => by
    simp only [EveryBulks, lineCounts] at hplain hlines
    have hlen := length_le_lineCounts vs
    obtain ⟨groups, hgroups, hbody, hall⟩ := groups_of_frames hR rest vs body hvs hplain.2 (by omega)
    have hleft : wrapI32 (((v :: vs).length : Int) - 1) = vs.length := by
      rw [List.length_cons]; unfold wrapI32; omega
    refine ⟨s :: groups, ?_, by rw [List.flatten_cons, hbody], .cons hv hall⟩
    rw [List.append_assoc, parseArrayLoop_frame hR v s hv hplain.1 _ 1 [] _ (by simp; omega) (by omega) (by omega),
      show (1 : Int) - 1 = 0 from rfl, settle_zero, hleft, hgroups]
    rfl

mutual

/-- **A plain value is parsed back from its frame**, whatever follows. -/
theorem parse_frame {R : List Char → Int → Prop} (hR : Readable R) : ∀ (v : Value) (s : List Char), Frame R v s →
    Plain v → lineCount v < 1073741824 → ∀ rest, parse (s ++ rest) = .ok v
  | .simpleString s, _, .simpleString hs, _, _, rest => by
    obtain ⟨m, more, hm⟩ := List.exists_cons_of_ne_nil (Lines.split_ne_nil '\r' '\n' rest)
    have hsplit := splitCrlf_line (noCrlf_cons (c := '+') (by decide) hs) rest
    exact parse_eq_ok.2 (.simpleString (hsplit.trans (congrArg _ hm)))
  | .integer n, _, .integer (t := t) hn, _, _, rest => by
    have hread := hR _ _ hn (by have := n.le_toInt; omega) (by have := n.toInt_lt; omega)
    obtain ⟨m, more, hm⟩ := List.exists_cons_of_ne_nil (Lines.split_ne_nil '\r' '\n' rest)
    have hsplit := splitCrlf_line (noCrlf_cons (c := ':') (by decide) (noCrlf_of_parseI32 hread)) rest
    have hparse := parse_eq_ok.2 (.integer (hsplit.trans (congrArg _ hm)) hread)
    rwa [Int32.ofInt_toInt] at hparse
  | .null, _, .nullBulk (t := t) hn, _, _, rest => by
    have hread := hR _ _ hn (by omega) (by omega)
    obtain ⟨m, more, hm⟩ := List.exists_cons_of_ne_nil (Lines.split_ne_nil '\r' '\n' rest)
    have hsplit := splitCrlf_line (noCrlf_cons (c := '$') (by decide) (noCrlf_of_parseI32 hread)) rest
    exact parse_eq_ok.2 (.nullBulk (hsplit.trans (congrArg _ hm)) hread)
  | .null, _, .nullArray (t := t) hn, _, _, rest => by
    have hread := hR _ _ hn (by omega) (by omega)
    have hsplit := splitCrlf_line (noCrlf_cons (c := '*') (by decide) (noCrlf_of_parseI32 hread)) rest
    exact parse_eq_ok.2 (.nullArray hsplit hread)
  | .bulkString b, _, .bulkString (t := t) hu, hb, _, rest => by
    simp only [EveryBulk] at hb
    have hread := hR _ _ hu (by omega) (by have := hb.length; omega)
    have hsplit := splitCrlf_line (noCrlf_cons (c := '$') (by decide) (noCrlf_of_parseI32 hread)) (b ++ crlf ++ rest)
    rw [splitCrlf_line hb.noCrlf] at hsplit
    rw [show '$' :: t ++ crlf ++ b ++ crlf ++ rest = ('$' :: t) ++ crlf ++ (b ++ crlf ++ rest) by simp]
    exact parse_eq_ok.2 (.bulkString hsplit hread (by omega) (sliceTo_byteLen b))
  | .array vs, _, .array (t := t) (w := body) hu hvs, hplain, hlines, rest => by
    simp only [EveryBulk, lineCount] at hplain hlines
    have hlen := length_le_lineCounts vs
    have hread := hR _ _ hu (by omega) (by omega)
    have hsplit := splitCrlf_line (noCrlf_cons (c := '*') (by decide) (noCrlf_of_parseI32 hread)) (body ++ rest)
    obtain ⟨groups, hgroups, -, hall⟩ := groups_of_frames hR rest vs body hvs hplain (by omega)
    have hmap := mapM_eq_ok.2 (parse_frames hR vs groups hall hplain (by omega))
    rw [show '*' :: t ++ crlf ++ body ++ rest = ('*' :: t) ++ crlf ++ (body ++ rest) by simp]
    exact parse_eq_ok.2 (.array hsplit hread (by omega) hgroups hmap)

theorem parse_frames {R : List Char → Int → Prop} (hR : Readable R) : ∀ (vs : List Value) (groups : List (List Char)),
    List.Forall₂ (fun g v => Frame R v g) groups vs → Plains vs → lineCounts vs < 1073741824 →
      List.Forall₂ (fun g v => parse g = .ok v) groups vs
  | [], _, .nil, _, _ => .nil
  | v :: vs, g :: gs, .cons hv hvs, hplain, hlines => by
    simp only [EveryBulks, lineCounts] at hplain hlines
    have hparse := parse_frame hR v g hv hplain.1 (by omega) []
    rw [List.append_nil] at hparse
    exact .cons hparse (parse_frames hR vs gs hvs hplain.2 (by omega))

end

/-- **Every plain value is parsed back from its encoding**: byte lengths and element counts in decimal, null either
way, anything after it. -/
theorem parse_encoding {v : Value} {s : List Char} (h : Frame Spelled v s) (hv : Plain v)
    (hlines : lineCount v < 1073741824) (rest : List Char) : parse (s ++ rest) = .ok v :=
  parse_frame readable_spelled v s h hv hlines rest

/-- An empty array, and a null and an empty text in an array of their own. -/
theorem parse_encoding_nested : parse ("*2\r\n*0\r\n*2\r\n$-1\r\n$0\r\n\r\n".toList ++ "rest".toList) =
    .ok (.array [.array [], .array [.null, .bulkString []]]) := by
  have hempty : Frame Spelled (.array []) "*0\r\n".toList := .array (t := ['0']) rfl .nil
  have hnull : Frame Spelled .null "$-1\r\n".toList := .nullBulk (t := ['-', '1']) rfl
  have htext : Frame Spelled (.bulkString []) "$0\r\n\r\n".toList := .bulkString (t := ['0']) rfl
  have hpair : Frame Spelled (.array [.null, .bulkString []]) "*2\r\n$-1\r\n$0\r\n\r\n".toList :=
    .array (t := ['2']) rfl (.cons hnull (.cons htext .nil))
  have hplain : Plain (.array [.array [], .array [.null, .bulkString []]]) := by
    simp only [Plain, EveryBulk, EveryBulks, and_true, true_and]
    exact ⟨by decide, by decide, rfl⟩
  have hwhole : Frame Spelled (.array [.array [], .array [.null, .bulkString []]])
      "*2\r\n*0\r\n*2\r\n$-1\r\n$0\r\n\r\n".toList := .array (t := ['2']) rfl (.cons hempty (.cons hpair .nil))
  exact parse_encoding hwhole hplain (by decide) _

end Rusdis
