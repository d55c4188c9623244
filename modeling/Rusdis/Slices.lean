import Rusdis.MultiArray
/-!
# Slices — what `parse_multi_array` hands to `parse`

`scanLoop` is the loop of `parse_multi_array` with the slices it parses, and says how it ended: an index past the last
character is told from a panic of `parse`.  The slices are the text, piece by piece; only a star that ends the text is
looked past, and only when every piece is read (`slices_exact_iff`).
-/
namespace Rusdis

open Fallible

/-- How the scan ends: the values, an error or a panic of `parse`, or an index at or past the length of `char_vec`. -/
inductive Scan where
  | done (vs : List Value)
  | failed (e : ParserError)
  | parsePanic
  | outOfBounds

namespace Scan

/-- What the caller sees. -/
def result : Scan → Except (Fault ParserError) (List Value)
  | done vs     => .ok vs
  | failed e    => .error (.err e)
  | parsePanic  => .error .panic
  | outOfBounds => .error .panic

/-- The value of a slice before those to come. -/
def cons (v : Value) : Scan → Scan
  | done vs => done (v :: vs)
  | scan    => scan

theorem result_cons (v : Value) (scan : Scan) : (scan.cons v).result = do return v :: (← scan.result) := by
  cases scan <;> rfl

theorem cons_eq_outOfBounds {v : Value} {scan : Scan} : scan.cons v = .outOfBounds ↔ scan = .outOfBounds := by
  cases scan <;> simp [cons]

end Scan

/-- `parseMultiArrayLoop` with the slices it parses. -/
def scanLoop : Bool → List Char → List Char → List (List Char) × Scan
  | _, _, [] => ([], .done [])
  | _, cur, [c] =>
    match parse (cur ++ [c]) with
    | .error (.err e) => ([cur ++ [c]], .failed e)
    | .error .panic   => ([cur ++ [c]], .parsePanic)
    | .ok v           => ([cur ++ [c]], if c = '*' then .outOfBounds else .done [v])
  | first, cur, c :: d :: t =>
    if c = '*' ∧ isNumeric d = true then
      if first then scanLoop false (cur ++ [c]) (d :: t)
      else
        match parse cur with
        | .error (.err e) => ([cur], .failed e)
        | .error .panic   => ([cur], .parsePanic)
        | .ok v           =>
          let (slices, scan) := scanLoop false [c] (d :: t)
          (cur :: slices, scan.cons v)
    else scanLoop first (cur ++ [c]) (d :: t)

def scan (protocol : List Char) : List (List Char) × Scan := scanLoop true [] protocol

/-- **The scan is the loop.** -/
theorem scanLoop_result : ∀ (s : List Char) (first : Bool) (cur : List Char),
    (scanLoop first cur s).2.result = parseMultiArrayLoop first cur s
  | [], _, _ => rfl
  | [c], _, cur => by
    rw [scanLoop, parseMultiArrayLoop]
    cases parse (cur ++ [c]) with
    | ok v =>
      dsimp only
      split <;> rfl
    | error e => cases e <;> rfl
  | c :: d :: t, first, cur => by
    rw [scanLoop, parseMultiArrayLoop]
    split
    · split
      · exact scanLoop_result (d :: t) false (cur ++ [c])
      · cases parse cur with
        | ok v =>
          dsimp only
          rw [Scan.result_cons, scanLoop_result (d :: t) false [c]]
          rfl
        | error e => cases e <;> rfl
    · exact scanLoop_result (d :: t) first (cur ++ [c])

theorem scan_result (s : List Char) : (scan s).2.result = parseMultiArray s := scanLoop_result s true []

/-! ## The pieces of a text -/

/-- What the loop has to parse, `cur` being begun: the pieces before every star with a digit after it, where the first
such star cuts only after another. -/
def piecesFrom (first : Bool) (cur s : List Char) : List (List Char) :=
  if first then Marks.glue (Marks.cut starred cur s) else Marks.cut starred cur s

/-- A text cut before every star with a digit after it, the first one apart. -/
def pieces (s : List Char) : List (List Char) := piecesFrom true [] s

example : pieces "*1\r\n:7\r\n*1\r\n:8".toList = ["*1\r\n:7\r\n".toList, "*1\r\n:8".toList] := by decide +kernel

theorem scanLoop_flatten : ∀ (s : List Char) (first : Bool) (cur : List Char) (vs : List Value), s ≠ [] →
    (scanLoop first cur s).2 = .done vs → (scanLoop first cur s).1.flatten = cur ++ s
  | [], _, _, _, h, _ => absurd rfl h
  | [c], first, cur, vs, _, hvs => by
    rw [scanLoop] at hvs ⊢
    cases hparse : parse (cur ++ [c]) with
    | ok v => simp
    | error e => cases e <;> (rw [hparse] at hvs; cases hvs)
  | c :: d :: t, first, cur, vs, _, hvs => by
    rw [scanLoop] at hvs ⊢
    split at hvs
    · rename_i hc
      rw [if_pos hc]
      split at hvs
      · rename_i hfirst
        rw [if_pos hfirst, scanLoop_flatten (d :: t) _ _ vs (by simp) hvs]
        simp
      · rename_i hfirst
        rw [if_neg hfirst]
        cases hparse : parse cur with
        | ok v =>
          rw [hparse] at hvs
          dsimp only at hvs ⊢
          cases hrest : (scanLoop false [c] (d :: t)).2 with
          | done ws =>
            rw [List.flatten_cons, scanLoop_flatten (d :: t) false [c] ws (by simp) hrest]
            rfl
          | _ => rw [hrest] at hvs; cases hvs
        | error e => cases e <;> (rw [hparse] at hvs; cases hvs)
    · rename_i hc
      rw [if_neg hc, scanLoop_flatten (d :: t) _ _ vs (by simp) hvs]
      simp

theorem piecesFrom_singleton (first : Bool) (cur : List Char) (c : Char) : piecesFrom first cur [c] = [cur ++ [c]] := by
  cases first <;> rfl

theorem piecesFrom_of_not_starred {c d : Char} (h : ¬ starred c d = true) (first : Bool) (cur t : List Char) :
    piecesFrom first cur (c :: d :: t) = piecesFrom first (cur ++ [c]) (d :: t) := by
  rw [piecesFrom, piecesFrom, Marks.cut, if_neg h]

theorem piecesFrom_starred {c d : Char} (h : starred c d = true) (cur t : List Char) :
    piecesFrom true cur (c :: d :: t) = piecesFrom false (cur ++ [c]) (d :: t) ∧
      piecesFrom false cur (c :: d :: t) = cur :: piecesFrom false [c] (d :: t) := by
  have hcut : Marks.cut starred cur (c :: d :: t) = cur :: Marks.cut starred [c] (d :: t) := by
    rw [Marks.cut, if_pos h]
  refine ⟨?_, hcut⟩
  rw [piecesFrom, if_pos rfl, hcut, Marks.glue_cut]
  rfl

/-- **The loop looks past the text exactly when it ends in a star and every piece is read.** -/
theorem scanLoop_outOfBounds_iff : ∀ (s : List Char) (first : Bool) (cur : List Char),
    (scanLoop first cur s).2 = .outOfBounds ↔
      s.getLast? = some '*' ∧ ∀ piece ∈ piecesFrom first cur s, ∃ v, parse piece = .ok v
  | [], _, _ => by simp [scanLoop]
  | [c], first, cur => by
    rw [scanLoop, piecesFrom_singleton]
    cases hparse : parse (cur ++ [c]) with
    | ok v =>
      by_cases hc : c = '*'
      · subst hc
        simp [hparse]
      · simp [hc]
    | error e => cases e <;> simp [hparse]
  | c :: d :: t, first, cur => by
    have hlast : (c :: d :: t).getLast? = (d :: t).getLast? := List.getLast?_cons_cons
    rw [scanLoop, hlast]
    by_cases hs : starred c d = true
    · rw [if_pos (starred_eq_true.1 hs)]
      cases first with
      | true =>
        rw [if_pos rfl, (piecesFrom_starred hs cur t).1]
        exact scanLoop_outOfBounds_iff (d :: t) false (cur ++ [c])
      | false =>
        rw [if_neg (by simp), (piecesFrom_starred hs cur t).2, List.forall_mem_cons]
        cases hparse : parse cur with
        | ok v =>
          simp only [Scan.cons_eq_outOfBounds, scanLoop_outOfBounds_iff (d :: t) false [c]]
          simp
        | error e => cases e <;> simp
    · rw [if_neg (fun hc => hs (starred_eq_true.2 hc)), piecesFrom_of_not_starred hs]
      exact scanLoop_outOfBounds_iff (d :: t) first (cur ++ [c])

theorem scan_flatten {s : List Char} {vs : List Value} (h : (scan s).2 = .done vs) : (scan s).1.flatten = s := by
  by_cases hs : s = []
  · rw [hs]
    rfl
  · exact scanLoop_flatten s true [] vs hs h

theorem scan_eq_done {s : List Char} {vs : List Value} (h : parseMultiArray s = .ok vs) : (scan s).2 = .done vs := by
  rw [← scan_result] at h
  cases hscan : (scan s).2 with
  | done ws =>
    rw [hscan] at h
    cases h
    rfl
  | _ => rw [hscan] at h; cases h

/-- **The scan stays within the text and loses nothing of it** exactly when the text does not end in a star or some
piece of it is not read. -/
theorem slices_exact_iff (s : List Char) :
    ((scan s).2 ≠ .outOfBounds ∧ ∀ vs, parseMultiArray s = .ok vs → (scan s).1.flatten = s) ↔
      s.getLast? ≠ some '*' ∨ ∃ piece ∈ pieces s, ∀ v, parse piece ≠ .ok v := by
  have hout : (scan s).2 = .outOfBounds ↔ s.getLast? = some '*' ∧ ∀ piece ∈ pieces s, ∃ v, parse piece = .ok v :=
    scanLoop_outOfBounds_iff s true []
  have hflat : ∀ vs, parseMultiArray s = .ok vs → (scan s).1.flatten = s := fun vs hvs =>
    scan_flatten (scan_eq_done hvs)
  rw [and_iff_left hflat, ne_eq, hout, not_and_or]
  push Not
  rfl

/-- A read that ends inside the next command, after its star. -/
theorem slices_star_end : ¬ ∀ s, (∀ slice ∈ (scan s).1, parse slice ≠ .error .panic) →
    (scan s).2 ≠ .outOfBounds ∧ ∀ vs, parseMultiArray s = .ok vs → (scan s).1.flatten = s := by
  intro h
  have hreturns : ∀ slice ∈ (scan "+OK\r\n*".toList).1, parse slice ≠ .error .panic := by decide +kernel
  have hout : (scan "+OK\r\n*".toList).2 = .outOfBounds := by
    rw [scan, scanLoop_outOfBounds_iff]
    refine ⟨by decide, fun piece hpiece => ⟨.simpleString "OK".toList, ?_⟩⟩
    have hpieces : piecesFrom true [] "+OK\r\n*".toList = ["+OK\r\n*".toList] := by decide +kernel
    rw [hpieces, List.mem_singleton] at hpiece
    rw [hpiece]
    decide +kernel
  exact (h "+OK\r\n*".toList hreturns).1 hout

end Rusdis
