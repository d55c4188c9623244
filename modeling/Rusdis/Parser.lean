import Rusdis.Value
/-!
# Parser — `parse` and its parts

`parse_array` cuts the text at every CRLF and regroups the lines with a running quota (`arrayGroups`,
`parseArrayLoop`, `countQoda`); every group is parsed again.  A group is shorter than the text it was cut from
(`arrayGroups_length_lt`), so the recursion ends.
-/
namespace Rusdis

open Fallible

def parseSimpleString (s : List Char) : Except (Fault ParserError) Value :=
  match Lines.before '\r' '\n' s with
  | none      => .error (.err (.invalidProtocol "No CRLF"))
  | some line => do return .simpleString (← sliceFrom 1 line)

def parseInteger (s : List Char) : Except (Fault ParserError) Value :=
  match Lines.before '\r' '\n' s with
  | none      => .error (.err (.invalidProtocol "No CRLF"))
  | some line => do
    let numStr ← sliceFrom 1 line
    let num ← orErr .parseIntError (parseI32 numStr)
    return .integer (Int32.ofInt num)

def parseBulkString (s : List Char) : Except (Fault ParserError) Value :=
  match splitCrlf s with
  | first :: data :: _ => do
    let lengthStr ← sliceFrom 1 first
    let length ← orErr .parseIntError (parseI32 lengthStr)
    if length = -1 then return .null
    else if length < -1 then throw (.err (.invalidProtocol "Invalid Bulk String length"))
    else return .bulkString (← sliceTo length.toNat data)
  | _ => .error (.err (.invalidProtocol "Invalid Bulk String format"))

def countQoda (s : List Char) : Except (Fault ParserError) Int :=
  if Utf8.byteLen s < 1 then .ok 0
  else do
    let symbol ← sliceTo 1 s
    if symbol = ['$'] then
      if Utf8.byteLen s < 2 then return 0
      else
        let numStr ← sliceFrom 1 s
        match parseI32 numStr with
        | .ok num  => return if num < 0 then 0 else 1
        | .error _ => return 0
    else if symbol = ['*'] then
      if Utf8.byteLen s < 2 then return 0
      else
        let numStr ← sliceFrom 1 s
        match parseI32 numStr with
        | .ok num  => return if num < 0 then 0 else num
        | .error _ => return 0
    else return 0

/-- The line loop of `parse_array`: `left` groups are still to be filled, `tmp` is the group begun. -/
def parseArrayLoop : Int → Int → List Char → List (List Char) → Except (Fault ParserError) (List (List Char))
  | _, _, _, [] => .ok []
  | left, qoda, tmp, p :: ps =>
    if left = 0 then .ok []
    else do
      let num ← countQoda p
      let qoda := wrapI32 (wrapI32 (qoda + num) - 1)
      let tmp := tmp ++ p ++ crlf
      if qoda = 0 then
        if tmp = [] then parseArrayLoop left 1 tmp ps
        else
          let protocolVec ← parseArrayLoop (wrapI32 (left - 1)) 1 [] ps
          return tmp :: protocolVec
      else parseArrayLoop left qoda tmp ps

/-- `parse_array` up to the groups it parses; none for the null array. -/
def arrayGroups (protocol : List Char) : Except (Fault ParserError) (Option (List (List Char))) :=
  match splitCrlf protocol with
  | [] => .error (.err (.invalidProtocol "Invalid Array format"))
  | first :: lines => do
    let lengthStr ← sliceFrom 1 first
    let left ← orErr .parseIntError (parseI32 lengthStr)
    if left = -1 then return none
    else if left < -1 then throw (.err (.invalidProtocol "Invalid Array length"))
    else
      let protocolVec ← parseArrayLoop left 1 [] lines
      return some protocolVec

/-! ## The groups are cut from the text -/

/-- **The groups are consecutive lines**, each ended, from the first line on. -/
theorem parseArrayLoop_flatten : ∀ (lines : List (List Char)) (left qoda : Int) (tmp : List Char)
    (groups : List (List Char)), parseArrayLoop left qoda tmp lines = .ok groups →
      groups.flatten <+: tmp ++ Lines.joinLines '\r' '\n' lines
  | [], left, qoda, tmp, groups, h => by
    cases h; simp
  | p :: ps, left, qoda, tmp, groups, h => by
    have hjoin : tmp ++ Lines.joinLines '\r' '\n' (p :: ps) = tmp ++ p ++ crlf ++ Lines.joinLines '\r' '\n' ps := by
      simp [crlf]
    rw [hjoin]
    unfold parseArrayLoop at h
    split at h
    · cases h; simp
    · obtain ⟨num, -, h⟩ := bind_eq_ok.1 h
      simp only at h
      split at h
      · split at h
        · exact parseArrayLoop_flatten ps _ _ _ _ h
        · obtain ⟨gs, hgs, he⟩ := bind_eq_ok.1 h
          cases he
          have ih := parseArrayLoop_flatten ps _ _ _ _ hgs
          rw [List.flatten_cons]
          exact (List.prefix_append_right_inj _).2 ih
      · exact parseArrayLoop_flatten ps _ _ _ _ h

theorem arrayGroups_eq_some {protocol : List Char} {groups : List (List Char)}
    (h : arrayGroups protocol = .ok (some groups)) : ∃ c lengthStr lines left,
      splitCrlf protocol = (c :: lengthStr) :: lines ∧ parseI32 lengthStr = .ok left ∧ 0 ≤ left ∧
        parseArrayLoop left 1 [] lines = .ok groups := by
  unfold arrayGroups at h
  split at h
  · cases h
  rename_i first lines hsplit
  obtain ⟨lengthStr, hslice, h1⟩ := bind_eq_ok.1 h
  obtain ⟨left, hleft, h2⟩ := bind_eq_ok.1 h1
  obtain ⟨c, rfl, -⟩ := sliceFrom_one_eq_ok hslice
  split at h2
  · cases h2
  split at h2
  · cases h2
  obtain ⟨gs, hgs, he⟩ := bind_eq_ok.1 h2
  cases he
  exact ⟨c, lengthStr, lines, left, hsplit, orErr_eq_ok.1 hleft, by omega, hgs⟩

theorem joinLines_tail_length {s first : List Char} {lines : List (List Char)} (h : splitCrlf s = first :: lines) :
    (Lines.joinLines '\r' '\n' lines).length + first.length = s.length := by
  have hj := congrArg List.length (Lines.joinLines_split '\r' '\n' s)
  rw [show Lines.split '\r' '\n' s = first :: lines from h, Lines.joinLines_cons] at hj
  simp only [List.length_append, List.length_cons, List.length_nil] at hj
  omega

/-- **Every group is shorter than the text.** -/
theorem arrayGroups_length_lt {protocol : List Char} {groups : List (List Char)}
    (h : arrayGroups protocol = .ok (some groups)) {p : List Char} (hp : p ∈ groups) :
    p.length < protocol.length := by
  obtain ⟨c, lengthStr, lines, left, hsplit, -, -, hgs⟩ := arrayGroups_eq_some h
  have hpre := (parseArrayLoop_flatten _ _ _ _ _ hgs).length_le
  have hlen := joinLines_tail_length hsplit
  have hmem := (List.sublist_flatten_of_mem hp).length_le
  simp only [List.nil_append, List.length_cons] at hpre hlen
  omega

/-- `parse`; its arm for `*` is `parse_array` (`parseArray`), written out for the recursion. -/
def parse (protocol : List Char) : Except (Fault ParserError) Value :=
  match protocol.head? with
  | none => .error (.err (.invalidProtocol "No leading symbol"))
  | some symbol =>
    if symbol = '+' then parseSimpleString protocol
    else if symbol = ':' then parseInteger protocol
    else if symbol = '$' then parseBulkString protocol
    else if symbol = '*' then
      match h : arrayGroups protocol with
      | .error e          => .error e
      | .ok none          => .ok .null
      | .ok (some groups) => do
        let resVec ← groups.attach.mapM (fun p =>
          have := arrayGroups_length_lt h p.2
          parse p.1)
        return .array resVec
    else .error (.err (.invalidProtocol "Invalid symbol"))
termination_by protocol.length

def parseArray (protocol : List Char) : Except (Fault ParserError) Value := do
  match ← arrayGroups protocol with
  | none        => return .null
  | some groups => return .array (← groups.mapM parse)

@[simp] theorem parse_nil : parse [] = .error (.err (.invalidProtocol "No leading symbol")) := by
  rw [parse]; rfl

theorem parse_plus (s : List Char) : parse ('+' :: s) = parseSimpleString ('+' :: s) := by
  rw [parse, List.head?_cons]
  exact if_pos rfl

theorem parse_colon (s : List Char) : parse (':' :: s) = parseInteger (':' :: s) := by
  rw [parse, List.head?_cons]
  exact (if_neg (by decide)).trans (if_pos rfl)

theorem parse_dollar (s : List Char) : parse ('$' :: s) = parseBulkString ('$' :: s) := by
  rw [parse, List.head?_cons]
  exact (if_neg (by decide)).trans ((if_neg (by decide)).trans (if_pos rfl))

theorem parse_star (s : List Char) : parse ('*' :: s) = parseArray ('*' :: s) := by
  rw [parse, List.head?_cons, parseArray]
  simp only [Char.reduceEq, if_false, if_true]
  split
  · rename_i e h; rw [h]; rfl
  · rename_i h; rw [h]; rfl
  · rename_i groups h
    rw [h, mapM_attach]; rfl

theorem parse_other {c : Char} (h1 : c ≠ '+') (h2 : c ≠ ':') (h3 : c ≠ '$') (h4 : c ≠ '*') (s : List Char) :
    parse (c :: s) = .error (.err (.invalidProtocol "Invalid symbol")) := by
  rw [parse, List.head?_cons]
  simp only [h1, h2, h3, h4, if_false]

example : parse "*2\r\n*1\r\n:2\r\n$3\r\nhey\r\n".toList =
    .ok (.array [.array [.integer 2], .bulkString ['h', 'e', 'y']]) := by decide +kernel

/-! ## What `parse` accepts -/

theorem exists_cons_of_splitCrlf {c : Char} {s l : List Char} {lines : List (List Char)}
    (h : splitCrlf s = (c :: l) :: lines) : ∃ t, s = c :: t := by
  obtain ⟨u, hu⟩ := Lines.head_split_isPrefix '\r' '\n' s (c :: l) (by
    rw [show Lines.split '\r' '\n' s = (c :: l) :: lines from h]; rfl)
  exact ⟨l ++ u, hu.symm⟩

theorem splitCrlf_cons {c : Char} (hc : c ≠ '\r') (s : List Char) :
    ∃ l lines, splitCrlf (c :: s) = (c :: l) :: lines := by
  cases s with
  | nil => exact ⟨[], [], rfl⟩
  | cons d t =>
    obtain ⟨l, lines, hl⟩ := List.exists_cons_of_ne_nil (Lines.split_ne_nil '\r' '\n' (d :: t))
    refine ⟨l, lines, ?_⟩
    rw [splitCrlf, Lines.split_cons_cons, if_neg (fun h => hc h.1), hl]
    rfl

theorem before_cons {c : Char} (hc : c ≠ '\r') {s line : List Char} (h : Lines.before '\r' '\n' (c :: s) = some line) :
    ∃ l, line = c :: l := by
  obtain ⟨m, more, hs⟩ := (Lines.before_eq_some _ _).1 h
  obtain ⟨l, lines, hl⟩ := splitCrlf_cons hc s
  exact ⟨l, (List.cons.inj (hs.symm.trans hl)).1⟩

/-- One call of `parse` that returns `v`: the lines it reads, and the numbers in them. -/
inductive Parsed (s : List Char) : Value → Prop
  | simpleString {l m : List Char} {more : List (List Char)} : splitCrlf s = ('+' :: l) :: m :: more →
      Parsed s (.simpleString l)
  | integer {t m : List Char} {more : List (List Char)} {n : Int} : splitCrlf s = (':' :: t) :: m :: more →
      parseI32 t = .ok n → Parsed s (.integer (Int32.ofInt n))
  | nullBulk {t m : List Char} {more : List (List Char)} : splitCrlf s = ('$' :: t) :: m :: more →
      parseI32 t = .ok (-1) → Parsed s .null
  | bulkString {t data b : List Char} {more : List (List Char)} {n : Int} :
      splitCrlf s = ('$' :: t) :: data :: more → parseI32 t = .ok n → 0 ≤ n → sliceTo n.toNat data = .ok b →
        Parsed s (.bulkString b)
  | nullArray {t : List Char} {lines : List (List Char)} : splitCrlf s = ('*' :: t) :: lines →
      parseI32 t = .ok (-1) → Parsed s .null
  | array {t : List Char} {lines groups : List (List Char)} {n : Int} {vs : List Value} :
      splitCrlf s = ('*' :: t) :: lines → parseI32 t = .ok n → 0 ≤ n →
        parseArrayLoop n 1 [] lines = .ok groups → groups.mapM parse = .ok vs → Parsed s (.array vs)

theorem arrayGroups_eq {s t : List Char} {lines : List (List Char)} {n : Int}
    (hs : splitCrlf s = ('*' :: t) :: lines) (ht : parseI32 t = .ok n) (hn : 0 ≤ n) :
    arrayGroups s = some <$> parseArrayLoop n 1 [] lines := by
  rw [arrayGroups, hs]
  simp only [sliceFrom_one_cons (show '*'.utf8Size = 1 from rfl), ok_bind, ht, orErr_ok,
    if_neg (show ¬ n = -1 by omega), if_neg (show ¬ n < -1 by omega)]
  cases parseArrayLoop n 1 [] lines <;> rfl

theorem parsed_of_parseBulkString {s l : List Char} {lines : List (List Char)} {v : Value}
    (hs : splitCrlf s = ('$' :: l) :: lines) (h : parseBulkString s = .ok v) : Parsed s v := by
  rw [parseBulkString, hs] at h
  cases lines with
  | nil => cases h
  | cons data more =>
    simp only [sliceFrom_one_cons (show '$'.utf8Size = 1 from rfl), ok_bind] at h
    obtain ⟨n, hn, h⟩ := bind_eq_ok.1 h
    rw [orErr_eq_ok] at hn
    split at h
    · rename_i hm
      cases h
      exact .nullBulk hs (hm ▸ hn)
    split at h
    · cases h
    · obtain ⟨b, hb, he⟩ := bind_eq_ok.1 h
      cases he
      exact .bulkString hs hn (by omega) hb

theorem parsed_of_parseArray {s l : List Char} {lines : List (List Char)} {v : Value}
    (hs : splitCrlf s = ('*' :: l) :: lines) (h : parseArray s = .ok v) : Parsed s v := by
  obtain ⟨o, ho, h⟩ := bind_eq_ok.1 h
  cases o with
  | none =>
    cases h
    rw [arrayGroups, hs] at ho
    simp only [sliceFrom_one_cons (show '*'.utf8Size = 1 from rfl), ok_bind] at ho
    obtain ⟨n, hn, ho⟩ := bind_eq_ok.1 ho
    rw [orErr_eq_ok] at hn
    split at ho
    · rename_i hm
      exact .nullArray hs (hm ▸ hn)
    split at ho
    · cases ho
    · obtain ⟨gs, -, he⟩ := bind_eq_ok.1 ho
      cases he
  | some groups =>
    obtain ⟨vs, hvs, he⟩ := bind_eq_ok.1 h
    cases he
    obtain ⟨c, t, lines', n, hs', hn, h0, hgs⟩ := arrayGroups_eq_some ho
    rw [hs, List.cons.injEq, List.cons.injEq] at hs'
    obtain ⟨⟨-, rfl⟩, rfl⟩ := hs'
    exact .array hs hn h0 hgs hvs

theorem parsed_of_parse {s : List Char} {v : Value} (h : parse s = .ok v) : Parsed s v := by
  match s with
  | [] => rw [parse_nil] at h; cases h
  | c :: s =>
    by_cases h1 : c = '+'
    · subst h1
      rw [parse_plus, parseSimpleString] at h
      split at h
      · cases h
      rename_i line hbefore
      obtain ⟨l, hl, he⟩ := bind_eq_ok.1 h
      cases he
      obtain ⟨m, more, hs⟩ := (Lines.before_eq_some _ _).1 hbefore
      obtain ⟨l', lines, hs'⟩ := splitCrlf_cons (c := '+') (by decide) s
      obtain ⟨rfl, -⟩ := List.cons.inj (hs.symm.trans hs')
      rw [sliceFrom_one_cons rfl] at hl
      cases hl
      exact .simpleString hs
    by_cases h2 : c = ':'
    · subst h2
      rw [parse_colon, parseInteger] at h
      split at h
      · cases h
      rename_i line hbefore
      obtain ⟨t, ht, h⟩ := bind_eq_ok.1 h
      obtain ⟨n, hn, he⟩ := bind_eq_ok.1 h
      cases he
      obtain ⟨m, more, hs⟩ := (Lines.before_eq_some _ _).1 hbefore
      obtain ⟨l', lines, hs'⟩ := splitCrlf_cons (c := ':') (by decide) s
      obtain ⟨rfl, -⟩ := List.cons.inj (hs.symm.trans hs')
      rw [sliceFrom_one_cons rfl] at ht
      cases ht
      exact .integer hs (orErr_eq_ok.1 hn)
    by_cases h3 : c = '$'
    · subst h3
      obtain ⟨l, lines, hs⟩ := splitCrlf_cons (c := '$') (by decide) s
      exact parsed_of_parseBulkString hs (parse_dollar s ▸ h)
    by_cases h4 : c = '*'
    · subst h4
      obtain ⟨l, lines, hs⟩ := splitCrlf_cons (c := '*') (by decide) s
      exact parsed_of_parseArray hs (parse_star s ▸ h)
    · rw [parse_other h1 h2 h3 h4] at h; cases h

theorem parse_of_parsed {s : List Char} {v : Value} (h : Parsed s v) : parse s = .ok v := by
  cases h with
  | simpleString hs =>
    obtain ⟨t, rfl⟩ := exists_cons_of_splitCrlf hs
    rw [parse_plus, parseSimpleString, (Lines.before_eq_some _ _).2 ⟨_, _, hs⟩]
    simp only [sliceFrom_one_cons (show '+'.utf8Size = 1 from rfl), ok_bind]
    rfl
  | integer hs hn =>
    obtain ⟨t, rfl⟩ := exists_cons_of_splitCrlf hs
    rw [parse_colon, parseInteger, (Lines.before_eq_some _ _).2 ⟨_, _, hs⟩]
    simp only [sliceFrom_one_cons (show ':'.utf8Size = 1 from rfl), ok_bind, hn, orErr_ok]
    rfl
  | nullBulk hs hn =>
    obtain ⟨t, rfl⟩ := exists_cons_of_splitCrlf hs
    rw [parse_dollar, parseBulkString, hs]
    simp only [sliceFrom_one_cons (show '$'.utf8Size = 1 from rfl), ok_bind, hn, orErr_ok, if_true]
    rfl
  | bulkString hs hn h0 hb =>
    obtain ⟨t, rfl⟩ := exists_cons_of_splitCrlf hs
    rename_i n
    rw [parse_dollar, parseBulkString, hs]
    simp only [sliceFrom_one_cons (show '$'.utf8Size = 1 from rfl), ok_bind, hn, orErr_ok,
      if_neg (show ¬ n = -1 by omega), if_neg (show ¬ n < -1 by omega), hb]
    rfl
  | nullArray hs hn =>
    obtain ⟨t, rfl⟩ := exists_cons_of_splitCrlf hs
    rw [parse_star, parseArray, arrayGroups, hs]
    simp only [sliceFrom_one_cons (show '*'.utf8Size = 1 from rfl), ok_bind, hn, orErr_ok, if_true]
    rfl
  | array hs hn h0 hgs hvs =>
    obtain ⟨t, rfl⟩ := exists_cons_of_splitCrlf hs
    rw [parse_star, parseArray, arrayGroups_eq hs hn h0, hgs, map_ok, ok_bind]
    simp only [hvs]
    rfl

/-- **`parse` returns exactly the values that can be read.** -/
theorem parse_eq_ok {s : List Char} {v : Value} : parse s = .ok v ↔ Parsed s v := ⟨parsed_of_parse, parse_of_parsed⟩

end Rusdis
