import Rusdis.Decimal
import Rusdis.Fallible
import Rusdis.Lines
import Rusdis.Utf8
/-!
# Value — what the request parser returns and how it fails

A `String` of the source is a `List Char`; its length and its slices are counted in bytes (`Utf8`).  The arithmetic
of `i32` wraps, as in the release profile the repository builds with.
-/
namespace Rusdis

open Decimal (IntErrorKind readInt)

/-- `ParserError`; no modelled function builds its `IO` variant. -/
inductive ParserError where
  | invalidProtocol (msg : String)
  | parseIntError (e : IntErrorKind)
  deriving DecidableEq, Repr

inductive Value where
  | simpleString (s : List Char)
  | simpleError (s : List Char)
  | integer (n : Int32)
  | bulkString (s : List Char)
  | array (vs : List Value)
  | null
  deriving Repr

mutual

def Value.decEq : (v w : Value) → Decidable (v = w)
  | .simpleString s, .simpleString t => decidable_of_iff (s = t) (by simp)
  | .simpleError s,  .simpleError t  => decidable_of_iff (s = t) (by simp)
  | .integer m,      .integer n      => decidable_of_iff (m = n) (by simp)
  | .bulkString s,   .bulkString t   => decidable_of_iff (s = t) (by simp)
  | .array vs,       .array ws       =>
    match Value.decEqList vs ws with
    | isTrue h  => isTrue (congrArg _ h)
    | isFalse h => isFalse (fun e => h (Value.array.inj e))
  | .null,           .null           => isTrue rfl
  | .simpleString _, .simpleError _ | .simpleString _, .integer _ | .simpleString _, .bulkString _
  | .simpleString _, .array _ | .simpleString _, .null
  | .simpleError _, .simpleString _ | .simpleError _, .integer _ | .simpleError _, .bulkString _
  | .simpleError _, .array _ | .simpleError _, .null
  | .integer _, .simpleString _ | .integer _, .simpleError _ | .integer _, .bulkString _
  | .integer _, .array _ | .integer _, .null
  | .bulkString _, .simpleString _ | .bulkString _, .simpleError _ | .bulkString _, .integer _
  | .bulkString _, .array _ | .bulkString _, .null
  | .array _, .simpleString _ | .array _, .simpleError _ | .array _, .integer _
  | .array _, .bulkString _ | .array _, .null
  | .null, .simpleString _ | .null, .simpleError _ | .null, .integer _
  | .null, .bulkString _ | .null, .array _ => isFalse nofun

def Value.decEqList : (vs ws : List Value) → Decidable (vs = ws)
  | [],      []      => isTrue rfl
  | v :: vs, w :: ws =>
    match Value.decEq v w, Value.decEqList vs ws with
    | isTrue h,  isTrue h'  => isTrue (by rw [h, h'])
    | isFalse h, _          => isFalse (fun e => h (List.cons.inj e).1)
    | _,         isFalse h' => isFalse (fun e => h' (List.cons.inj e).2)
  | [], _ :: _ | _ :: _, [] => isFalse nofun

end

instance : DecidableEq Value := Value.decEq

/-! ## The standard library calls of the parser -/

def crlf : List Char := ['\r', '\n']

def splitCrlf (s : List Char) : List (List Char) := Lines.split '\r' '\n' s

abbrev NoCrlf (s : List Char) : Prop := Lines.Free '\r' '\n' s

def sliceFrom (n : Nat) (s : List Char) : Except (Fault ParserError) (List Char) :=
  Fallible.orPanic ((Utf8.splitAt n s).map Prod.snd)

def sliceTo (n : Nat) (s : List Char) : Except (Fault ParserError) (List Char) :=
  Fallible.orPanic ((Utf8.splitAt n s).map Prod.fst)

def parseI32 (s : List Char) : Except IntErrorKind Int := readInt true (-2147483648) 2147483647 s

/-- A number as an `i32` keeps it after an overflowing `+` or `-`. -/
def wrapI32 (n : Int) : Int := (n + 2147483648) % 4294967296 - 2147483648

theorem wrapI32_of_range {n : Int} (h1 : -2147483648 ≤ n) (h2 : n ≤ 2147483647) : wrapI32 n = n := by
  unfold wrapI32; omega

theorem parseI32_range {s : List Char} {n : Int} (h : parseI32 s = .ok n) : -2147483648 ≤ n ∧ n ≤ 2147483647 :=
  Decimal.readInt_range (by decide) (by decide) h

theorem parseI32_natText {n : Nat} (h : n < 2147483648) : parseI32 (Decimal.natText n) = .ok n :=
  Decimal.readInt_natText (by decide) (by omega)

theorem parseI32_intText {n : Int} (h1 : -2147483648 ≤ n) (h2 : n ≤ 2147483647) :
    parseI32 (Decimal.intText n) = .ok n :=
  Decimal.readInt_intText h1 h2 (by decide) (by decide)

theorem parseI32_natText_eq_ok {n : Nat} {v : Int} (h : parseI32 (Decimal.natText n) = .ok v) :
    v = n ∧ n < 2147483648 := by
  have := (Decimal.readInt_natText_eq_ok (by decide) (by decide) n v).1 h
  omega

theorem noCrlf_of_parseI32 {t : List Char} {n : Int} (h : parseI32 t = .ok n) : NoCrlf t :=
  Lines.free_of_notMem _ _ (fun hr => by
    rcases Decimal.readInt_chars (by decide) (by decide) h _ hr with h | h | h <;> revert h <;> decide)

/-! ## Slices -/

theorem utf8Size_of_toNat_lt {c : Char} (h : c.toNat < 128) : c.utf8Size = 1 := (Utf8.utf8Size_eq_one_iff c).2 h

theorem sliceFrom_one_cons {c : Char} (h : c.utf8Size = 1) (s : List Char) : sliceFrom 1 (c :: s) = .ok s := by
  have hs := Utf8.splitAt_append s [c]
  rw [Utf8.byteLen_cons, h] at hs
  unfold sliceFrom
  rw [show Utf8.splitAt 1 (c :: s) = some ([c], s) from hs]
  rfl

theorem sliceFrom_one_eq_ok {s t : List Char} (h : sliceFrom 1 s = .ok t) : ∃ c, s = c :: t ∧ c.utf8Size = 1 := by
  unfold sliceFrom at h
  obtain ⟨⟨l, t'⟩, hs, ht⟩ := Option.map_eq_some_iff.1 (Fallible.orPanic_eq_ok.1 h)
  obtain ⟨rfl, hl⟩ := (Utf8.splitAt_eq_some _ _ _ _).1 hs
  have hlen := Utf8.length_le_byteLen l
  match l, hl, hlen with
  | [],      hl, _    => simp at hl
  | [c],     hl, _    => exact ⟨c, by simpa using ht, by simpa using hl⟩
  | _ :: _ :: _, hl, hlen => simp only [List.length_cons] at hlen; omega

theorem sliceTo_byteLen_append (l t : List Char) : sliceTo (Utf8.byteLen l) (l ++ t) = .ok l := by
  unfold sliceTo; rw [Utf8.splitAt_append]; rfl

theorem sliceTo_byteLen (l : List Char) : sliceTo (Utf8.byteLen l) l = .ok l := by
  simpa using sliceTo_byteLen_append l []

theorem sliceTo_eq_ok {n : Nat} {s l : List Char} (h : sliceTo n s = .ok l) :
    ∃ t, s = l ++ t ∧ Utf8.byteLen l = n := by
  unfold sliceTo at h
  obtain ⟨⟨l', t⟩, hs, rfl⟩ := Option.map_eq_some_iff.1 (Fallible.orPanic_eq_ok.1 h)
  exact ⟨t, (Utf8.splitAt_eq_some _ _ _ _).1 hs⟩

end Rusdis
