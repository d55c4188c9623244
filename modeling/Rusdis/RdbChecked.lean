import Rusdis.Fallible
import Rusdis.Rdb
/-!
# RdbChecked — the readers of an RDB file with every number in range

Every shift and every sum of the readers is checked against 64 bits, the lengths of a `usize` and the timestamps of a
`u64`, and an expiry against the seconds a `SystemTime` holds.  What is declared is at most eight bytes, so nothing
leaves its range: the checked readers are the readers, and never panic (`mirrors_checkedPair`).
-/
namespace Rusdis

open Scanner
open Decimal (natText)

abbrev CheckedIter (α : Type) := Scanner UInt8 (Fault RDBFileParserError) α

/-- A shift that loses no bit, which is more than a build with overflow checks asks of it. -/
def shl64 (n k : Nat) : Option Nat := if k < 64 ∧ n * 2 ^ k < 2 ^ 64 then some (n * 2 ^ k) else none

def add64 (a b : Nat) : Option Nat := if a + b < 2 ^ 64 then some (a + b) else none

/-- `UNIX_EPOCH` and a duration, whose seconds have to fit an `i64`. -/
def epochPlus (nanos : Nat) : Option SystemTime :=
  if nanos / 1000000000 ≤ 9223372036854775807 then some (nanos : SystemTime) else none

/-- A panic where an operation overflows. -/
def inRange {α : Type} : Option α → CheckedIter α
  | some a => pure a
  | none   => throw .panic

/-- `res += tmp << (i * 8)` over `k` more bytes. -/
def littleLoop (e : RDBFileParserError) : Nat → Nat → Nat → CheckedIter Nat
  | 0,     _, res => pure res
  | k + 1, i, res => do
    let tmp ← next (.err e)
    let tmp ← inRange (shl64 tmp.toNat (i * 8))
    let res ← inRange (add64 res tmp)
    littleLoop e k (i + 1) res

/-- `res <<= 8` and `res += tmp` over `k` more bytes. -/
def bigLoop (e : RDBFileParserError) : Nat → Nat → CheckedIter Nat
  | 0,     res => pure res
  | k + 1, res => do
    let tmp ← next (.err e)
    let res ← inRange (shl64 res 8)
    let res ← inRange (add64 res tmp.toNat)
    bigLoop e k res

def checkedLength : CheckedIter Nat := do
  let firstByte ← next (.err lengthFailed)
  let nextSixBits := firstByte &&& 0x3F
  if firstByte &&& 0xC0 = 0xC0 then
    if nextSixBits = 0 then do return (← next (.err lengthFailed)).toNat
    else if nextSixBits = 1 then littleLoop lengthFailed 2 0 0
    else if nextSixBits = 2 then littleLoop lengthFailed 4 0 0
    else throw (.err ⟨"LZF not covered"⟩)
  else if firstByte &&& 0xC0 = 0x80 then bigLoop lengthFailed 4 0
  else if firstByte &&& 0xC0 = 0x40 then do
    let furtherByte ← next (.err lengthFailed)
    let high ← inRange (shl64 nextSixBits.toNat 8)
    inRange (add64 high furtherByte.toNat)
  else if firstByte &&& 0xC0 = 0 then return nextSixBits.toNat
  else throw (.err lengthFailed)

def checkedString : CheckedIter (List Char) := do
  let firstByte ← peek (.err ⟨"Decode string failed"⟩)
  if firstByte &&& 0xC0 = 0xC0 then do return natText (← checkedLength)
  else do
    let length ← checkedLength
    return (← times (next (.err ⟨"Decode string failed"⟩)) length).map byteChar

def checkedData : CheckedIter (List Char × ValueType) := do
  let dataType ← next (.err ⟨"No data to parse"⟩)
  if dataType = 0x00 then do
    let key ← checkedString
    let value ← checkedString
    return (key, .string value)
  else throw (.err ⟨"Not supported data type"⟩)

def checkedPair : CheckedIter (List Char × ValueType × Option SystemTime) := do
  let flag ← peek (.err invalidFormat)
  if flag = 0xfd then do
    skip
    let seconds ← littleLoop invalidTimestamp 4 0 0
    let (key, value) ← checkedData
    return (key, value, some (← inRange (epochPlus (seconds * 1000000000))))
  else if flag = 0xfc then do
    skip
    let mills ← littleLoop invalidTimestamp 8 0 0
    let (key, value) ← checkedData
    return (key, value, some (← inRange (epochPlus (mills * 1000000))))
  else do
    let (key, value) ← checkedData
    return (key, value, none)

def checkedAuxField : CheckedIter (List Char × List Char) := do
  let key ← checkedString
  let value ← checkedString
  return (key, value)

/-! ## The loops over bytes -/

theorem shl64_of_lt {n k : Nat} (hk : k < 64) (h : n * 2 ^ k < 2 ^ 64) : shl64 n k = some (n * 2 ^ k) := if_pos ⟨hk, h⟩

theorem add64_of_lt {a b : Nat} (h : a + b < 2 ^ 64) : add64 a b = some (a + b) := if_pos h

theorem inRange_some {α : Type} (a : α) : inRange (some a) = (pure a : CheckedIter α) := rfl

theorem pow_byte (i : Nat) : 2 ^ (i * 8) = 256 ^ i := by
  rw [Nat.mul_comm, Nat.pow_mul]

theorem next_cons {e : RDBFileParserError} {γ : Type} (f : UInt8 → CheckedIter γ) (b : UInt8) (s : List UInt8) :
    (next (.err e) >>= f) (b :: s) = f b s := rfl

/-- Eight bytes are 64 bits, so no shift and no sum of the loop overflows. -/
theorem littleLoop_eq (e : RDBFileParserError) : ∀ (k i res : Nat), i + k ≤ 8 → res < 256 ^ i → ∀ (s : List UInt8),
    littleLoop e k i res s = (times (next e) k s).mapError .err >>= fun r => .ok (res + 256 ^ i * little r.1, r.2)
  | 0, i, res, _, _, s => by
    show Except.ok (res, s) = Except.ok (res + 256 ^ i * little [], s)
    simp [little]
  | k + 1, i, res, hi, hres, [] => rfl
  | k + 1, i, res, hi, hres, b :: s => by
    have hb := b.toNat_lt
    have hpow : 256 ^ (i + 1) ≤ 256 ^ 8 := Nat.pow_le_pow_right (by decide) (by omega)
    have hterm : b.toNat * 256 ^ i ≤ 255 * 256 ^ i := Nat.mul_le_mul_right _ (by omega)
    have hsum : res + b.toNat * 256 ^ i < 256 ^ (i + 1) := by rw [Nat.pow_succ]; omega
    rw [littleLoop, next_cons, shl64_of_lt (by omega) (by rw [pow_byte]; omega), inRange_some, pure_bind, pow_byte,
      add64_of_lt (by omega), inRange_some, pure_bind, littleLoop_eq e k (i + 1) _ (by omega) hsum s]
    have htimes : times (next e) (k + 1) (b :: s) = times (next e) k s >>= fun r => .ok (b :: r.1, r.2) := rfl
    rw [htimes]
    cases times (next e) k s with
    | error e => rfl
    | ok r =>
      have hlittle : little (b :: r.1) = b.toNat + 256 * little r.1 := by
        rw [little, List.map_cons, Nat.ofDigits_cons]; rfl
      show Except.ok (_, r.2) = Except.ok (_, r.2)
      rw [hlittle, Nat.pow_succ]
      congr 2
      ring

theorem bigLoop_eq (e : RDBFileParserError) : ∀ (k i res : Nat), i + k ≤ 8 → res < 256 ^ i → ∀ (s : List UInt8),
    bigLoop e k res s =
      (times (next e) k s).mapError .err >>= fun r => .ok (r.1.foldl (fun n b => n * 256 + b.toNat) res, r.2)
  | 0, _, _, _, _, _ => rfl
  | k + 1, i, res, hi, hres, [] => rfl
  | k + 1, i, res, hi, hres, b :: s => by
    have hb := b.toNat_lt
    have hpow : 256 ^ (i + 1) ≤ 256 ^ 8 := Nat.pow_le_pow_right (by decide) (by omega)
    have hsum : res * 256 + b.toNat < 256 ^ (i + 1) := by rw [Nat.pow_succ]; omega
    have hmax : res * 256 + b.toNat < 2 ^ 64 := Nat.lt_of_lt_of_le hsum hpow
    have hshl : shl64 res 8 = some (res * 256) :=
      shl64_of_lt (by decide) (Nat.lt_of_le_of_lt (Nat.le_add_right _ _) hmax)
    rw [bigLoop, next_cons, hshl, inRange_some, pure_bind, add64_of_lt hmax, inRange_some, pure_bind,
      bigLoop_eq e k (i + 1) _ (by omega) hsum s]
    have htimes : times (next e) (k + 1) (b :: s) = times (next e) k s >>= fun r => .ok (b :: r.1, r.2) := rfl
    rw [htimes]
    cases times (next e) k s <;> rfl

/-! ## The checked readers are the readers -/

theorem mirrors_bigLoop (e : RDBFileParserError) :
    Mirrors .err (bigLoop e 4 0) (times (next e) 4 >>= fun bs => pure (big bs)) := by
  intro s
  rw [bigLoop_eq e 4 0 0 (by decide) (by decide)]
  change _ = (times (next e) 4 s >>= fun r => Except.ok (big r.1, r.2)).mapError Fault.err
  cases times (next e) 4 s <;> rfl

/-- Up to eight bytes read as a number, which has as many. -/
theorem mirrors_little {α : Type} (e : RDBFileParserError) {k : Nat} (hk : k ≤ 8) {f : Nat → CheckedIter α}
    {g : Nat → Iter α} (h : ∀ n, n < 256 ^ k → Mirrors .err (f n) (g n)) :
    Mirrors .err (littleLoop e k 0 0 >>= f) (times (next e) k >>= fun bs => g (little bs)) := by
  intro s
  change (littleLoop e k 0 0 s >>= fun r => f r.1 r.2) =
    (times (next e) k s >>= fun r => g (little r.1) r.2).mapError .err
  rw [littleLoop_eq e k 0 0 (by omega) (by decide)]
  cases hs : times (next e) k s with
  | error e => rfl
  | ok r =>
    obtain ⟨u, -, -, hlen⟩ := takes_times_next e k s r.1 r.2 hs
    have hlt := little_lt r.1
    rw [hlen] at hlt
    show f (0 + 256 ^ 0 * little r.1) r.2 = _
    rw [Nat.pow_zero, Nat.one_mul, Nat.zero_add]
    exact h (little r.1) hlt r.2

theorem mirrors_littleLoop (e : RDBFileParserError) {k : Nat} (hk : k ≤ 8) :
    Mirrors .err (littleLoop e k 0 0) (times (next e) k >>= fun bs => pure (little bs)) := by
  have := mirrors_little e hk (f := pure) (g := pure) (fun n _ => mirrors_pure n)
  rwa [bind_pure] at this

theorem mirrors_checkedLength : Mirrors .err checkedLength decodeLength := by
  refine (mirrors_next _).bind fun firstByte => mirrors_ite (mirrors_ite ?_ (mirrors_ite ?_ (mirrors_ite ?_ ?_)))
    (mirrors_ite ?_ (mirrors_ite ?_ (mirrors_ite ?_ ?_)))
  · exact (mirrors_next _).bind fun b => mirrors_pure _
  · exact mirrors_littleLoop lengthFailed (by decide)
  · exact mirrors_littleLoop lengthFailed (by decide)
  · exact mirrors_throw _
  · exact mirrors_bigLoop lengthFailed
  · refine (mirrors_next _).bind fun furtherByte => ?_
    have hsix := (firstByte &&& 0x3F).toNat_lt
    have hfurther := furtherByte.toNat_lt
    rw [shl64_of_lt (by decide) (by omega), inRange_some, pure_bind, add64_of_lt (by omega), inRange_some]
    exact mirrors_pure _
  · exact mirrors_pure _
  · exact mirrors_throw _

theorem mirrors_checkedString : Mirrors .err checkedString decodeString := by
  refine (mirrors_peek _).bind fun _ => mirrors_ite ?_ ?_
  · exact mirrors_checkedLength.bind fun n => mirrors_pure _
  · exact mirrors_checkedLength.bind fun n => ((mirrors_next _).times n).bind fun bs => mirrors_pure _

theorem mirrors_checkedData : Mirrors .err checkedData parseData :=
  (mirrors_next _).bind fun _ => mirrors_ite
    (mirrors_checkedString.bind fun _ => mirrors_checkedString.bind fun _ => mirrors_pure _) (mirrors_throw _)

theorem mirrors_checkedAuxField : Mirrors .err checkedAuxField readAuxField :=
  mirrors_checkedString.bind fun _ => mirrors_checkedString.bind fun _ => mirrors_pure _

theorem epochPlus_of_le {nanos : Nat} (h : nanos / 1000000000 ≤ 9223372036854775807) :
    epochPlus nanos = some (nanos : SystemTime) := if_pos h

/-- A pair after its timestamp in `unit` nanoseconds, which no timestamp of its bytes takes past the last second. -/
theorem mirrors_stamped {k : Nat} (hk : k ≤ 8) (unit : Nat)
    (hunit : ∀ n < 256 ^ k, n * unit / 1000000000 ≤ 9223372036854775807) :
    Mirrors .err (do
      let n ← littleLoop invalidTimestamp k 0 0
      let (key, value) ← checkedData
      return (key, value, some (← inRange (epochPlus (n * unit))))) (do
      let bs ← times (next invalidTimestamp) k
      let (key, value) ← parseData
      return (key, value, some ((little bs : SystemTime) * unit))) := by
  apply mirrors_little invalidTimestamp hk
    (g := fun n => do
      let (key, value) ← parseData
      return (key, value, some ((n : SystemTime) * unit)))
  intro n hn
  refine mirrors_checkedData.bind fun pair => ?_
  rw [epochPlus_of_le (hunit n hn), inRange_some, Nat.cast_mul]
  exact mirrors_pure _

/-- **A pair is read as with numbers of any size**: what four or eight bytes declare is a time. -/
theorem mirrors_checkedPair : Mirrors .err checkedPair parsePair := by
  refine (mirrors_peek _).bind fun _ => mirrors_ite ?_ (mirrors_ite ?_ ?_)
  · exact mirrors_skip.bind fun _ => mirrors_stamped (k := 4) (by decide) 1000000000 (fun n hn => by omega)
  · exact mirrors_skip.bind fun _ => mirrors_stamped (k := 8) (by decide) 1000000 (fun n hn => by omega)
  · exact mirrors_checkedData.bind fun pair => mirrors_pure _

end Rusdis
