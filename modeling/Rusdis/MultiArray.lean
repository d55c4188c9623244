import Rusdis.Marks
import Rusdis.Resp
/-!
# MultiArray — the replica's view of the replication stream

`parse_multi_array` cuts a read before every star with a digit after it, the first one apart, and parses the pieces.
A stream of broadcast `SET`s is read back exactly when no key and no value holds such a star and every frame is read
back alone (`replicated_iff`).
-/
namespace Rusdis

open Fallible Utf8
open Decimal (natText)

/-- The loop of `parse_multi_array`: `cur` is `char_vec[pre..idx]`, and the list begins at `idx`. -/
def parseMultiArrayLoop : Bool → List Char → List Char → Except (Fault ParserError) (List Value)
  | _, _, [] => .ok []
  | _, cur, [c] => do
    let v ← parse (cur ++ [c])
    if c = '*' then throw .panic -- `char_vec[idx + 1]` is out of bounds
    else return [v]
  | first, cur, c :: d :: t =>
    if c = '*' ∧ isNumeric d = true then
      if first then parseMultiArrayLoop false (cur ++ [c]) (d :: t)
      else do
        let v ← parse cur
        return v :: (← parseMultiArrayLoop false [c] (d :: t))
    else parseMultiArrayLoop first (cur ++ [c]) (d :: t)

def parseMultiArray (protocol : List Char) : Except (Fault ParserError) (List Value) :=
  parseMultiArrayLoop true [] protocol

/-! ## The pieces -/

def starred (c d : Char) : Bool := decide (c = '*') && isNumeric d

theorem starred_eq_true {c d : Char} : starred c d = true ↔ c = '*' ∧ isNumeric d = true := by simp [starred]

theorem starred_of_ne {c : Char} (h : c ≠ '*') (d : Char) : starred c d = false := by simp [starred, h]

theorem parseMultiArrayLoop_cut : ∀ (s cur : List Char), s ≠ [] → s.getLast? ≠ some '*' →
    parseMultiArrayLoop false cur s = (Marks.cut starred cur s).mapM parse
  | [], _, h, _ => absurd rfl h
  | [c], cur, _, h => by
    have hc : c ≠ '*' := by
      rintro rfl; exact h rfl
    rw [parseMultiArrayLoop, Marks.cut]
    simp only [if_neg hc, List.mapM_cons, List.mapM_nil, pure_bind]
  | c :: d :: t, cur, _, h => by
    have hlast : (d :: t).getLast? ≠ some '*' := by simpa using h
    rw [parseMultiArrayLoop, Marks.cut]
    by_cases hs : starred c d = true
    · rw [if_pos (starred_eq_true.1 hs), if_neg (by simp), if_pos hs,
        parseMultiArrayLoop_cut (d :: t) [c] (by simp) hlast, List.mapM_cons]
    · rw [if_neg (fun hc => hs (starred_eq_true.2 hc)), if_neg hs,
        parseMultiArrayLoop_cut (d :: t) (cur ++ [c]) (by simp) hlast]

theorem parseMultiArray_cut {d : Char} {t : List Char} (hd : isNumeric d = true)
    (hlast : (d :: t).getLast? ≠ some '*') :
    parseMultiArray ('*' :: d :: t) = (Marks.cut starred ['*'] (d :: t)).mapM parse := by
  rw [parseMultiArray, parseMultiArrayLoop, if_pos ⟨rfl, hd⟩, if_pos rfl, List.nil_append]
  exact parseMultiArrayLoop_cut (d :: t) ['*'] (by simp) hlast

/-! ## The frame of a `SET` -/

def frameTail (words : List (List Char)) : List Char := natText words.length ++ crlf ++ words.flatMap encodeBulk

theorem encodeRequest_tail (words : List (List Char)) : encodeRequest words = '*' :: frameTail words := by
  simp [encodeRequest, frameTail]

theorem getLast?_flatMap_encodeBulk : ∀ (words : List (List Char)), words ≠ [] →
    (words.flatMap encodeBulk).getLast? = some '\n'
  | [], h => absurd rfl h
  | [a], _ => by
    rw [List.flatMap_cons, List.flatMap_nil, List.append_nil, encodeBulk, List.getLast?_append]
    rfl
  | a :: b :: words, _ => by
    have ih := getLast?_flatMap_encodeBulk (b :: words) (by simp)
    rw [List.flatMap_cons, List.getLast?_append, ih]
    rfl

theorem getLast?_frameTail {words : List (List Char)} (h : words ≠ []) : (frameTail words).getLast? = some '\n' := by
  rw [frameTail, List.getLast?_append, getLast?_flatMap_encodeBulk words h]
  rfl

theorem block_frameTail {words : List (List Char)} (h : words ≠ []) : Marks.Block starred '*' (frameTail words) := by
  obtain ⟨d, ds, hd⟩ := List.exists_cons_of_ne_nil (Decimal.natText_ne_nil words.length)
  refine ⟨⟨d, ds ++ (crlf ++ words.flatMap encodeBulk), by simp [frameTail, hd], starred_eq_true.2 ⟨rfl, ?_⟩⟩,
    fun x hx => ?_⟩
  · exact isNumeric_of_isDigit (Decimal.isDigit_of_mem_natText (by rw [hd]; exact List.mem_cons_self))
  · rw [getLast?_frameTail h] at hx
    cases hx
    rfl

theorem starred_natText {n : Nat} {c : Char} (h : c ∈ natText n) (d : Char) : starred c d = false := by
  apply starred_of_ne
  rintro rfl
  exact Decimal.notMem_natText (by decide) n h

theorem starred_crlf {c : Char} (h : c ∈ crlf) (d : Char) : starred c d = false := by
  apply starred_of_ne
  rintro rfl
  revert h; decide

theorem count_encodeBulk (a t : List Char) :
    Marks.count starred (encodeBulk a ++ t) = Marks.count starred a + Marks.count starred t := by
  have hhead : ∀ c ∈ '$' :: natText (byteLen a) ++ crlf, ∀ d, starred c d = false := by
    intro c hc d
    simp only [List.cons_append, List.mem_cons, List.mem_append] at hc
    rcases hc with rfl | hc | hc
    · rfl
    · exact starred_natText hc d
    · exact starred_crlf hc d
  have hend : ∀ x ∈ a.getLast?, starred x '\r' = false := by
    intro x _
    simp only [starred, Bool.and_eq_false_iff]
    exact Or.inr (by decide)
  have htail : Marks.count starred ('\r' :: ('\n' :: t)) = Marks.count starred t :=
    Marks.count_append_plain starred t crlf (fun c hc d => starred_crlf hc d)
  rw [encodeBulk, show '$' :: natText (byteLen a) ++ crlf ++ a ++ crlf ++ t =
    ('$' :: natText (byteLen a) ++ crlf) ++ (a ++ '\r' :: ('\n' :: t)) by simp [crlf],
    Marks.count_append_plain starred _ _ hhead, Marks.count_append starred a '\r' _ hend, htail]

theorem count_frameTail (words : List (List Char)) :
    Marks.count starred (frameTail words) = Marks.count starred (words.flatMap encodeBulk) := by
  rw [frameTail]
  apply Marks.count_append_plain
  intro c hc d
  rcases List.mem_append.1 hc with hc | hc
  · exact starred_natText hc d
  · exact starred_crlf hc d

theorem count_of_free {a : List Char} (h : '*' ∉ a) : Marks.count starred a = 0 := by
  have := Marks.count_append_plain starred [] a (fun c hc d => starred_of_ne (fun he => h (he ▸ hc)) d)
  rwa [List.append_nil] at this

/-- **The marks inside a `SET`'s frame are those of its key and its value.** -/
theorem count_setWords (key value : List Char) (px : Option UInt64) :
    Marks.count starred (frameTail (setWords key value px)) = Marks.count starred key + Marks.count starred value := by
  have hpx : Marks.count starred ((pxWords px).flatMap encodeBulk) = 0 := by
    cases px with
    | none => rfl
    | some millis =>
      rw [pxWords, List.flatMap_cons, List.flatMap_cons, List.flatMap_nil, count_encodeBulk, count_encodeBulk,
        count_of_free (Decimal.notMem_natText (by decide) _), count_of_free (by decide)]
      rfl
  rw [count_frameTail, setWords, List.flatMap_cons, List.flatMap_cons, List.flatMap_cons, count_encodeBulk,
    count_encodeBulk, count_encodeBulk, hpx, count_of_free (by decide)]
  omega

/-! ## The whole stream -/

/-- A `SET` the master can have executed: some request was parsed to it. -/
def Obtainable (c : Command) : Prop :=
  IsSet c ∧ ∃ s xs, parse s = .ok (.array xs) ∧ parseCommand xs = .ok c

/-- The replica decodes the stream of `cs` to arrays that are `cs` again. -/
def Replicated (cs : List Command) : Prop :=
  ∃ xss : List (List Value), parseMultiArray (cs.flatMap generateResp) = .ok (xss.map .array) ∧
    xss.mapM parseCommand = .ok cs

/-- No star before a digit in the key or the value, and both counted as payloads. -/
def Survives : Command → Prop
  | .set key value px =>
    Marks.count starred key = 0 ∧ Marks.count starred value = 0 ∧ Counted key value px
  | _ => False

theorem Obtainable.payload {c : Command} (h : Obtainable c) :
    ∃ key value px, c = .set key value px ∧ Payload key ∧ Payload value := by
  obtain ⟨⟨key, value, px, rfl⟩, s, xs, hparse, hset⟩ := h
  obtain ⟨cmd, vs, rfl, -⟩ := parseCommand_set_inv hset
  exact ⟨key, value, px, rfl, payload_of_mem hparse (by simp), payload_of_mem hparse (by simp)⟩

def tailOf : Command → List Char
  | .set key value px => frameTail (setWords key value px)
  | _                 => []

theorem generateResp_tail {c : Command} (h : Obtainable c) : generateResp c = '*' :: tailOf c := by
  obtain ⟨key, value, px, rfl, -, -⟩ := h.payload
  rw [generateResp_set, encodeRequest_tail, tailOf]

theorem block_tail {c : Command} (h : Obtainable c) : Marks.Block starred '*' (tailOf c) := by
  obtain ⟨key, value, px, rfl, -, -⟩ := h.payload
  exact block_frameTail (by simp [setWords])

theorem getLast?_tail {c : Command} (h : Obtainable c) : (tailOf c).getLast? = some '\n' := by
  obtain ⟨key, value, px, rfl, -, -⟩ := h.payload
  exact getLast?_frameTail (by simp [setWords])

theorem getLast?_tails : ∀ (cs : List Command) (c : Command), (∀ x ∈ c :: cs, Obtainable x) →
    (tailOf c ++ (cs.map tailOf).flatMap ('*' :: ·)).getLast? = some '\n'
  | [], c, h => by
    rw [List.map_nil, List.flatMap_nil, List.append_nil]
    exact getLast?_tail (h c (by simp))
  | d :: cs, c, h => by
    have ih := getLast?_tails cs d (fun x hx => h x (List.mem_cons_of_mem _ hx))
    rw [List.map_cons, List.flatMap_cons, List.cons_append, List.getLast?_append, List.getLast?_cons, ih]
    rfl

theorem flatMap_generateResp : ∀ (cs : List Command), (∀ c ∈ cs, Obtainable c) →
    cs.flatMap generateResp = (cs.map tailOf).flatMap ('*' :: ·)
  | [], _ => rfl
  | c :: cs, h => by
    rw [List.flatMap_cons, List.map_cons, List.flatMap_cons, generateResp_tail (h c (by simp)),
      flatMap_generateResp cs (fun x hx => h x (by simp [hx]))]

theorem parseMultiArray_stream {c : Command} {cs : List Command} (h : ∀ x ∈ c :: cs, Obtainable x) :
    parseMultiArray ((c :: cs).flatMap generateResp) =
      (Marks.cut starred ['*'] (tailOf c ++ (cs.map tailOf).flatMap ('*' :: ·))).mapM parse := by
  have hlast := getLast?_tails cs c h
  obtain ⟨d, u, hd, hp⟩ := (block_tail (h c (by simp))).append starred ((cs.map tailOf).flatMap ('*' :: ·))
  rw [flatMap_generateResp _ h, List.map_cons, List.flatMap_cons, List.cons_append]
  rw [hd] at hlast ⊢
  exact parseMultiArray_cut (starred_eq_true.1 hp).2 (by rw [hlast]; simp)

theorem survives_iff {c : Command} (h : Obtainable c) : Survives c ↔ Marks.count starred (tailOf c) = 0 ∧
    ∃ xs, parse (generateResp c) = .ok (.array xs) ∧ parseCommand xs = .ok c := by
  obtain ⟨key, value, px, rfl, hkey, hvalue⟩ := h.payload
  rw [decode_generateResp_iff hkey hvalue, tailOf, count_setWords, Nat.add_eq_zero_iff, Survives, and_assoc]

theorem parseMultiArray_frames {c : Command} {cs : List Command} (h : ∀ x ∈ c :: cs, Obtainable x)
    (hzero : ∀ x ∈ c :: cs, Marks.count starred (tailOf x) = 0) :
    parseMultiArray ((c :: cs).flatMap generateResp) = ((c :: cs).map generateResp).mapM parse := by
  have hpieces : ((c :: cs).map tailOf).map ('*' :: ·) = (c :: cs).map generateResp := by
    rw [List.map_map]
    exact List.map_congr_left (fun x hx => (generateResp_tail (h x hx)).symm)
  rw [parseMultiArray_stream h, Marks.cut_blocks, ← hpieces]
  · rfl
  · exact List.forall_mem_map.2 (fun x hx => block_tail (h x hx))
  · intro u (hu : u ∈ (c :: cs).map tailOf)
    obtain ⟨x, hx, rfl⟩ := List.mem_map.1 hu
    exact hzero x hx

/-- As many pieces as commands leave no mark inside a frame. -/
theorem count_tail_of_length {c : Command} {cs : List Command} {vs : List Value} (h : ∀ x ∈ c :: cs, Obtainable x)
    (hvs : parseMultiArray ((c :: cs).flatMap generateResp) = .ok vs) (hlen : vs.length = (c :: cs).length) :
    ∀ x ∈ c :: cs, Marks.count starred (tailOf x) = 0 := by
  rw [parseMultiArray_stream h] at hvs
  have hpieces := (mapM_eq_ok.1 hvs).length_eq
  rw [Marks.length_cut, hlen, List.length_cons] at hpieces
  have hblocks : ∀ u ∈ tailOf c :: cs.map tailOf, Marks.Block starred '*' u :=
    List.forall_mem_map.2 (fun x (hx : x ∈ c :: cs) => block_tail (h x hx))
  have hzero := (Marks.count_blocks starred (cs.map tailOf) (tailOf c) hblocks).2 (by rw [List.length_map]; omega)
  exact fun x hx => hzero (tailOf x) (List.mem_map_of_mem (f := tailOf) hx)

theorem replicated_of_survives {cs : List Command} (hne : cs ≠ []) (h : ∀ c ∈ cs, Obtainable c)
    (hs : ∀ c ∈ cs, Survives c) : Replicated cs := by
  obtain ⟨c, cs, rfl⟩ := List.exists_cons_of_ne_nil hne
  have hdecode : ∀ x ∈ c :: cs, ∃ xs, parse (generateResp x) = .ok (.array xs) ∧ parseCommand xs = .ok x :=
    fun x hx => ((survives_iff (h x hx)).1 (hs x hx)).2
  choose! words hwords using hdecode
  refine ⟨(c :: cs).map words, ?_, ?_⟩
  · rw [parseMultiArray_frames h (fun x hx => ((survives_iff (h x hx)).1 (hs x hx)).1), List.map_map]
    exact mapM_map_ok (c :: cs) (fun x hx => (hwords x hx).1)
  · have := mapM_map_ok (c :: cs) (h := id) (fun x hx => (hwords x hx).2)
    rwa [List.map_id] at this

/-- **The replica decodes exactly the `SET`s that survive their frames.** -/
theorem replicated_iff {cs : List Command} (hne : cs ≠ []) (h : ∀ c ∈ cs, Obtainable c) :
    Replicated cs ↔ ∀ c ∈ cs, Survives c := by
  refine ⟨?_, replicated_of_survives hne h⟩
  obtain ⟨c, cs, rfl⟩ := List.exists_cons_of_ne_nil hne
  rintro ⟨xss, hstream, hset⟩
  have hset := mapM_eq_ok.1 hset
  have hzero := count_tail_of_length h hstream (by rw [List.length_map, hset.length_eq])
  rw [parseMultiArray_frames h hzero, mapM_eq_ok, List.forall₂_map_left_iff, List.forall₂_map_right_iff] at hstream
  exact fun x hx => (survives_iff (h x hx)).2 ⟨hzero x hx, exists_of_mem_both hstream hset x hx⟩

/-- A value that ends with its frame may even look like a header. -/
theorem replicated_two : Replicated [.set ['k'] "v*".toList (some 5), .set "k2".toList "$7".toList none] := by
  refine (replicated_iff (by simp) ?_).2 ?_
  · intro c hc
    rcases List.mem_pair.1 hc with rfl | rfl
    · exact ⟨⟨_, _, _, rfl⟩, "*5\r\n$3\r\nset\r\n$1\r\nk\r\n$2\r\nv*\r\n$2\r\npx\r\n$1\r\n5\r\n".toList,
        _, by decide +kernel, parseCommand_setWords ['k'] "v*".toList (some 5)⟩
    · exact ⟨⟨_, _, _, rfl⟩, "*3\r\n$3\r\nset\r\n$2\r\nk2\r\n$2\r\n$7\r\n".toList,
        _, by decide +kernel, parseCommand_setWords "k2".toList "$7".toList none⟩
  · intro c hc
    rcases List.mem_pair.1 hc with rfl | rfl
    · exact ⟨rfl, rfl, rfl, Or.inl rfl⟩
    · exact ⟨rfl, rfl, rfl, Or.inr ⟨rfl, rfl⟩⟩

/-- The star in the key `"a*1"` is taken for the next command. -/
theorem replicated_star_key : ¬ ∀ cs, cs ≠ [] → (∀ c ∈ cs, Obtainable c) → Replicated cs := by
  intro h
  have hobtain : Obtainable (.set "a*1".toList ['v'] none) :=
    ⟨⟨_, _, _, rfl⟩, "*3\r\n$3\r\nset\r\n$3\r\na*1\r\n$1\r\nv\r\n".toList, _, by decide +kernel,
      parseCommand_setWords "a*1".toList ['v'] none⟩
  obtain ⟨xss, hstream, -⟩ := h [.set "a*1".toList ['v'] none] (by simp) (by simpa using hobtain)
  have hpanic : parseMultiArray ([Command.set "a*1".toList ['v'] none].flatMap generateResp) = .error .panic := by
    decide +kernel
  rw [hpanic] at hstream
  cases hstream

end Rusdis
