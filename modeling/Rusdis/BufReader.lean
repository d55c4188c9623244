import Mathlib.Data.List.Basic
/-!
# BufReader: reads through a buffer

A segment is what one read of a socket gives, whatever its size.  A buffered reader takes a segment whole, serves what
it is asked for and keeps the rest: `Reads r bytes r'` says that what it took is what it gave and what it still holds,
and that it took no segment after it had enough.  So nothing is left in the buffer exactly when what was read ends where
a segment does (`Reads.eq_iff`).
-/

structure BufReader (α : Type) where
  buffer : List α
  socket : List (List α)

namespace BufReader

variable {α : Type}

section
variable [DecidableEq α]

/-- What is buffered up to the delimiter, else all of it and what the next segments bring. -/
def readUntil (delim : α) (buffer : List α) : List (List α) → List α × BufReader α
  | [] =>
    if delim ∈ buffer then
      (buffer.take (buffer.idxOf delim + 1), ⟨buffer.drop (buffer.idxOf delim + 1), []⟩)
    else (buffer, ⟨[], []⟩)
  | segment :: socket =>
    if delim ∈ buffer then
      (buffer.take (buffer.idxOf delim + 1), ⟨buffer.drop (buffer.idxOf delim + 1), segment :: socket⟩)
    else
      let (bytes, r) := readUntil delim segment socket
      (buffer ++ bytes, r)

end

/-- The next `n`; none when the stream ends before. -/
def readExact (n : Nat) (buffer : List α) : List (List α) → Option (List α × BufReader α)
  | [] => if n ≤ buffer.length then some (buffer.take n, ⟨buffer.drop n, []⟩) else none
  | segment :: socket =>
    if n ≤ buffer.length then some (buffer.take n, ⟨buffer.drop n, segment :: socket⟩)
    else do
      let (bytes, r) ← readExact (n - buffer.length) segment socket
      return (buffer ++ bytes, r)

/-- From `r` to `r'` the reader has served `bytes`. -/
def Reads (r : BufReader α) (bytes : List α) (r' : BufReader α) : Prop :=
  ∃ taken, r.socket = taken ++ r'.socket ∧ r.buffer ++ taken.flatten = bytes ++ r'.buffer ∧
    ∀ early last, taken = early ++ [last] → (r.buffer ++ early.flatten).length < bytes.length

theorem Reads.trans {r r' r'' : BufReader α} {bytes bytes' : List α} (h : Reads r bytes r')
    (h' : Reads r' bytes' r'') : Reads r (bytes ++ bytes') r'' := by
  obtain ⟨taken, hsocket, hbytes, hlazy⟩ := h
  obtain ⟨taken', hsocket', hbytes', hlazy'⟩ := h'
  refine ⟨taken ++ taken', ?_, ?_, fun early last hcut => ?_⟩
  · rw [hsocket, hsocket', List.append_assoc]
  · rw [List.flatten_append, ← List.append_assoc, hbytes, List.append_assoc, hbytes', List.append_assoc]
  · have hlen := congrArg List.length hbytes
    rcases List.eq_nil_or_concat' taken' with rfl | ⟨early', last', rfl⟩
    · rw [List.append_nil] at hcut
      have := hlazy early last hcut
      exact Nat.lt_of_lt_of_le this (by simp)
    · rw [← List.append_assoc] at hcut
      obtain ⟨rfl, -⟩ := List.append_inj' hcut rfl
      have := hlazy' early' last' rfl
      simp only [List.flatten_append, List.length_append] at this hlen ⊢
      omega

/-- What is served is cut off the stream. -/
theorem Reads.rest {r r' : BufReader α} {bytes rest : List α} (h : Reads r bytes r')
    (hr : r.buffer ++ r.socket.flatten = bytes ++ rest) : r'.buffer ++ r'.socket.flatten = rest := by
  obtain ⟨taken, hsocket, hbytes, -⟩ := h
  rw [hsocket, List.flatten_append, ← List.append_assoc, hbytes, List.append_assoc] at hr
  exact List.append_cancel_left hr

/-- What is buffered is served without the socket. -/
theorem reads_buffered (bytes rest : List α) (socket : List (List α)) :
    Reads ⟨bytes ++ rest, socket⟩ bytes ⟨rest, socket⟩ :=
  ⟨[], rfl, by simp, fun early last hcut => by simp at hcut⟩

/-- The next segment is taken when more is asked for than is buffered. -/
theorem Reads.fill {segment bytes : List α} {socket : List (List α)} {r : BufReader α}
    (h : Reads ⟨segment, socket⟩ bytes r) (hne : bytes ≠ []) (buffer : List α) :
    Reads ⟨buffer, segment :: socket⟩ (buffer ++ bytes) r := by
  obtain ⟨taken, hsocket, hbytes, hlazy⟩ := h
  refine ⟨segment :: taken, ?_, ?_, fun early last hcut => ?_⟩
  · exact congrArg (segment :: ·) hsocket
  · rw [List.append_assoc, ← hbytes, List.flatten_cons]
  · have hpos := List.length_pos_of_ne_nil hne
    cases early with
    | nil => simp only [List.flatten_nil, List.append_nil, List.length_append]; omega
    | cons first early =>
      rw [List.cons_append, List.cons.injEq] at hcut
      obtain ⟨rfl, hcut⟩ := hcut
      have := hlazy early last hcut
      simp only [List.flatten_cons, List.length_append] at this ⊢
      omega

section
variable [DecidableEq α]

theorem readUntil_of_mem {delim : α} {buffer l t : List α} {socket : List (List α)} (hmem : delim ∈ buffer)
    (hl : delim ∉ l) (h : buffer ++ socket.flatten = l ++ delim :: t) :
    buffer.take (buffer.idxOf delim + 1) = l ++ [delim] := by
  have hidx : buffer.idxOf delim = l.length := by
    have hfirst : (buffer ++ socket.flatten).idxOf delim = buffer.idxOf delim := List.idxOf_append_of_mem hmem
    rw [← hfirst, h, List.idxOf_append_of_notMem hl, List.idxOf_cons_self, Nat.add_zero]
  have hlt := List.idxOf_lt_length_of_mem hmem
  have htake : (buffer ++ socket.flatten).take (l.length + 1) = buffer.take (l.length + 1) :=
    List.take_append_of_le_length (by omega)
  rw [hidx, ← htake, h, List.append_cons, List.take_left' (by simp)]

omit [DecidableEq α] in
theorem exists_of_notMem {delim : α} {buffer rest l t : List α} (hmem : delim ∉ buffer)
    (h : buffer ++ rest = l ++ delim :: t) : ∃ m, l = buffer ++ m ∧ rest = m ++ delim :: t := by
  rcases List.append_eq_append_iff.1 h with ⟨m, hl, hm⟩ | ⟨m, rfl, hm⟩
  · exact ⟨m, hl, hm⟩
  · cases m with
    | nil => exact ⟨[], by simp, hm.symm⟩
    | cons c m =>
      obtain ⟨rfl, -⟩ := List.cons.inj hm
      exact absurd (by simp) hmem

/-- **A line is read up to its delimiter**, wherever the segments are cut. -/
theorem readUntil_reads {delim : α} : ∀ (socket : List (List α)) (buffer l t : List α), delim ∉ l →
    buffer ++ socket.flatten = l ++ delim :: t → ∃ r, readUntil delim buffer socket = (l ++ [delim], r) ∧
      Reads ⟨buffer, socket⟩ (l ++ [delim]) r
  | socket, buffer, l, t, hl, h => by
    by_cases hmem : delim ∈ buffer
    · have htake := readUntil_of_mem hmem hl h
      have hreads := reads_buffered (buffer.take (buffer.idxOf delim + 1)) (buffer.drop (buffer.idxOf delim + 1)) socket
      rw [List.take_append_drop, htake] at hreads
      cases socket with
      | nil => exact ⟨_, by rw [readUntil, if_pos hmem, htake], hreads⟩
      | cons segment socket => exact ⟨_, by rw [readUntil, if_pos hmem, htake], hreads⟩
    · obtain ⟨m, rfl, hm⟩ := exists_of_notMem hmem h
      cases socket with
      | nil => exact absurd (congrArg List.length hm) (by simp)
      | cons segment socket =>
        rw [List.mem_append, not_or] at hl
        obtain ⟨r, hr, hreads⟩ := readUntil_reads socket segment m t hl.2 hm
        refine ⟨r, ?_, ?_⟩
        · rw [readUntil, if_neg hmem, hr, List.append_assoc]
        · rw [List.append_assoc]
          exact hreads.fill (by simp) buffer

end

/-- **The next `n` are read whole**, where the stream has as many. -/
theorem readExact_reads : ∀ (socket : List (List α)) (n : Nat) (buffer bytes rest : List α), bytes.length = n →
    buffer ++ socket.flatten = bytes ++ rest → ∃ r, readExact n buffer socket = some (bytes, r) ∧
      Reads ⟨buffer, socket⟩ bytes r
  | socket, n, buffer, bytes, rest, hn, h => by
    by_cases hle : n ≤ buffer.length
    · have htake : buffer.take n = bytes := by
        have hfirst : (buffer ++ socket.flatten).take n = buffer.take n := List.take_append_of_le_length hle
        rw [← hfirst, h, List.take_left' hn]
      have hreads := reads_buffered (buffer.take n) (buffer.drop n) socket
      rw [List.take_append_drop, htake] at hreads
      cases socket with
      | nil => exact ⟨_, by rw [readExact, if_pos hle, htake], hreads⟩
      | cons segment socket => exact ⟨_, by rw [readExact, if_pos hle, htake], hreads⟩
    · obtain ⟨m, rfl⟩ : ∃ m, bytes = buffer ++ m := by
        rcases List.append_eq_append_iff.1 h with ⟨m, hm, -⟩ | ⟨m, rfl, -⟩
        · exact ⟨m, hm⟩
        · rw [List.length_append] at hle; omega
      rw [List.append_assoc, List.append_cancel_left_eq] at h
      rw [List.length_append] at hn
      cases socket with
      | nil =>
        have := congrArg List.length h
        simp only [List.flatten_nil, List.length_nil, List.length_append] at this
        omega
      | cons segment socket =>
        obtain ⟨r, hr, hreads⟩ := readExact_reads socket (n - buffer.length) segment m rest (by omega) h
        refine ⟨r, ?_, hreads.fill (List.ne_nil_of_length_pos (by omega)) buffer⟩
        rw [readExact, if_neg hle, hr]
        rfl

/-! ## The stream behind the segments -/

/-- All that is still to be read. -/
def stream (r : BufReader α) : List α := r.buffer ++ r.socket.flatten

section
variable [DecidableEq α]

/-- The first line with its delimiter, else all there is, and what is left. -/
def cutLine (delim : α) (bytes : List α) : List α × List α := bytes.splitAt (bytes.idxOf delim + 1)

/-- **A read up to a delimiter cuts the first line off the stream**, whether it ends or not. -/
theorem readUntil_stream (delim : α) : ∀ (socket : List (List α)) (buffer : List α),
    ((readUntil delim buffer socket).1, (readUntil delim buffer socket).2.stream) =
      cutLine delim (buffer ++ socket.flatten)
  | socket, buffer => by
    by_cases hmem : delim ∈ buffer
    · have hidx : (buffer ++ socket.flatten).idxOf delim = buffer.idxOf delim := List.idxOf_append_of_mem hmem
      have hlt := List.idxOf_lt_length_of_mem hmem
      rw [cutLine, List.splitAt_eq, hidx, List.take_append_of_le_length (by omega),
        List.drop_append_of_le_length (by omega)]
      cases socket <;> rw [readUntil, if_pos hmem] <;> rfl
    · cases socket with
      | nil =>
        rw [cutLine, List.splitAt_eq, List.flatten_nil, List.append_nil, List.idxOf_of_notMem hmem,
          List.take_of_length_le (by omega), List.drop_eq_nil_of_le (by omega), readUntil, if_neg hmem]
        rfl
      | cons segment socket =>
        have ih := readUntil_stream delim socket segment
        rw [cutLine, List.splitAt_eq] at ih ⊢
        obtain ⟨hline, hrest⟩ := Prod.mk.inj ih
        rw [readUntil, if_neg hmem, List.flatten_cons, List.idxOf_append_of_notMem hmem, Nat.add_assoc,
          List.take_length_add_append, List.drop_length_add_append, ← hline, ← hrest]

end

/-- **The next `n` are cut off the stream**, or it ends before. -/
theorem readExact_stream : ∀ (socket : List (List α)) (n : Nat) (buffer : List α),
    (readExact n buffer socket).map (fun p => (p.1, p.2.stream)) =
      if n ≤ (buffer ++ socket.flatten).length then some ((buffer ++ socket.flatten).splitAt n) else none
  | socket, n, buffer => by
    by_cases hle : n ≤ buffer.length
    · rw [if_pos (by rw [List.length_append]; omega), List.splitAt_eq, List.take_append_of_le_length hle,
        List.drop_append_of_le_length hle]
      cases socket <;> rw [readExact, if_pos hle] <;> rfl
    · cases socket with
      | nil =>
        rw [readExact, if_neg hle, if_neg (by simpa using hle)]
        rfl
      | cons segment socket =>
        have ih := readExact_stream socket (n - buffer.length) segment
        have hn : n = buffer.length + (n - buffer.length) := by omega
        rw [readExact, if_neg hle, List.flatten_cons]
        by_cases hall : n - buffer.length ≤ (segment ++ socket.flatten).length
        · rw [if_pos hall] at ih
          obtain ⟨⟨bytes, r⟩, hread, heq⟩ := Option.map_eq_some_iff.1 ih
          rw [List.splitAt_eq] at heq
          obtain ⟨hbytes, hrest⟩ := Prod.mk.inj heq
          rw [if_pos (by rw [List.length_append]; omega), hread, List.splitAt_eq, hn, List.take_length_add_append,
            List.drop_length_add_append, ← hbytes, ← hrest]
          rfl
        · rw [if_neg hall] at ih
          rw [if_neg (by rw [List.length_append]; omega), Option.map_eq_none_iff.1 ih]
          rfl

/-! ## What a dropped reader loses -/

theorem eq_nil_of_flatten : ∀ {ls : List (List α)}, [] ∉ ls → ls.flatten = [] → ls = []
  | [], _, _ => rfl
  | l :: ls, hne, h => by
    obtain ⟨rfl, -⟩ := List.append_eq_nil_iff.1 (List.flatten_cons.symm.trans h)
    exact absurd List.mem_cons_self hne

/-- **Nothing is left in the buffer exactly when what was read ends where a segment does**; then the socket holds the
segments after it. -/
theorem Reads.eq_iff {segments post : List (List α)} {bytes : List α} {r : BufReader α}
    (h : Reads ⟨[], segments⟩ bytes r) (hne : [] ∉ segments) :
    r = ⟨[], post⟩ ↔ ∃ pre, segments = pre ++ post ∧ pre.flatten = bytes := by
  obtain ⟨taken, hsocket, hbytes, hlazy⟩ := h
  simp only [List.nil_append] at hsocket hbytes hlazy
  constructor
  · rintro rfl
    exact ⟨taken, hsocket, by rw [hbytes, List.append_nil]⟩
  · rintro ⟨pre, hpre, rfl⟩
    rcases List.append_eq_append_iff.1 (hpre.symm.trans hsocket) with ⟨m, rfl, hm⟩ | ⟨m, rfl, hm⟩
    · rcases List.eq_nil_or_concat' m with rfl | ⟨m', last, rfl⟩
      · rw [List.append_nil] at hbytes
        rw [hm, ← List.append_right_eq_self.1 hbytes.symm]
        rfl
      · -- a segment after the end would have been taken with enough read before it
        have := hlazy (pre ++ m') last (by simp)
        rw [List.flatten_append, List.length_append] at this
        omega
    · rw [List.flatten_append, List.append_assoc] at hbytes
      obtain ⟨hm', hbuffer⟩ := List.append_eq_nil_iff.1 (List.append_right_eq_self.1 hbytes.symm)
      obtain rfl := eq_nil_of_flatten (fun hmem => hne (by rw [hsocket, hm]; simp [hmem])) hm'
      rw [List.nil_append] at hm
      rw [← hm, ← hbuffer]

end BufReader
