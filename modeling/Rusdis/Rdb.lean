import Rusdis.Data
import Rusdis.Scanner
/-!
# Rdb — `read_rdb` and its parts

The bytes of an RDB file are taken from the front.  Each database block is shorter than what it is read from, so the
loops over the auxiliary fields and over the databases end.
-/
namespace Rusdis

open Scanner Utf8
open Decimal (natText)

structure RDBFileParserError where
  msg : String
  deriving DecidableEq, Repr

inductive ValueType where
  | string (s : List Char)
  deriving DecidableEq, Repr

structure Dataset where
  pairs : List (List Char × ValueType × Option SystemTime)
  deriving DecidableEq, Repr

structure RDBFile where
  rdbVersion : List Char
  auxFields : List (List Char × List Char)
  datasets : List Dataset
  deriving DecidableEq, Repr

abbrev Iter (α : Type) := Scanner UInt8 RDBFileParserError α

def lengthFailed : RDBFileParserError := ⟨"Decode length failed"⟩

def decodeLength : Iter Nat := do
  let firstByte ← next lengthFailed
  let nextSixBits := firstByte &&& 0x3F
  if firstByte &&& 0xC0 = 0xC0 then
    if nextSixBits = 0 then do return (← next lengthFailed).toNat
    else if nextSixBits = 1 then do return little (← times (next lengthFailed) 2)
    else if nextSixBits = 2 then do return little (← times (next lengthFailed) 4)
    else throw ⟨"LZF not covered"⟩
  else if firstByte &&& 0xC0 = 0x80 then do return big (← times (next lengthFailed) 4)
  else if firstByte &&& 0xC0 = 0x40 then do
    let furtherByte ← next lengthFailed
    return nextSixBits.toNat * 256 + furtherByte.toNat
  else if firstByte &&& 0xC0 = 0 then return nextSixBits.toNat
  else throw lengthFailed

/-- A byte `as char`. -/
def byteChar (b : UInt8) : Char := Char.ofNat b.toNat

/-- A string: the decimal text of an integer form, else its bytes, each as a character. -/
def decodeString : Iter (List Char) := do
  let firstByte ← peek ⟨"Decode string failed"⟩
  if firstByte &&& 0xC0 = 0xC0 then do return natText (← decodeLength)
  else do
    let length ← decodeLength
    return (← times (next ⟨"Decode string failed"⟩) length).map byteChar

def parseData : Iter (List Char × ValueType) := do
  let dataType ← next ⟨"No data to parse"⟩
  if dataType = 0x00 then do
    let key ← decodeString
    let value ← decodeString
    return (key, .string value)
  else throw ⟨"Not supported data type"⟩

def invalidTimestamp : RDBFileParserError := ⟨"Invalid Timestamp format"⟩

def invalidFormat : RDBFileParserError := ⟨"Invalid RDB file format"⟩

/-- One pair: its expiry in seconds, in milliseconds, or none. -/
def parsePair : Iter (List Char × ValueType × Option SystemTime) := do
  let flag ← peek invalidFormat
  if flag = 0xfd then do
    skip
    let seconds ← times (next invalidTimestamp) 4
    let (key, value) ← parseData
    return (key, value, some (little seconds * 1000000000))
  else if flag = 0xfc then do
    skip
    let mills ← times (next invalidTimestamp) 8
    let (key, value) ← parseData
    return (key, value, some (little mills * 1000000))
  else do
    let (key, value) ← parseData
    return (key, value, none)

/-- A database after its flag; neither its index nor the flag after it is looked at. -/
def readDatabase : Iter Dataset := do
  let _dbIndex ← decodeLength
  skip
  let normalTableSize ← decodeLength
  let expiryTableSize ← decodeLength
  return ⟨← times parsePair (max normalTableSize expiryTableSize)⟩

/-- An auxiliary field after its flag. -/
def readAuxField : Iter (List Char × List Char) := do
  let key ← decodeString
  let value ← decodeString
  return (key, value)

theorem costs_decodeLength : Costs 1 decodeLength := by
  have hfew : ∀ n, Costs 0 (times (next lengthFailed : Iter UInt8) n) := fun n =>
    ((costs_next _).times n).mono (by omega)
  have hone : Costs 0 (next lengthFailed : Iter UInt8) := (costs_next _).mono (by omega)
  refine (costs_next lengthFailed).bind (l := 0) (fun _ => costs_ite (costs_ite ?_ (costs_ite ?_ (costs_ite ?_ ?_)))
    (costs_ite ?_ (costs_ite ?_ (costs_ite ?_ ?_))))
  · exact hone.bind_pure
  · exact (hfew 2).bind_pure
  · exact (hfew 4).bind_pure
  · exact costs_throw _ _
  · exact (hfew 4).bind_pure
  · exact hone.bind_pure
  · exact costs_pure _
  · exact costs_throw _ _

theorem costs_decodeString : Costs 1 decodeString := by
  refine (costs_peek _).bind (l := 1) (fun _ => costs_ite costs_decodeLength.bind_pure ?_)
  exact costs_decodeLength.bind (l := 0) (fun n => (((costs_next _).times n).bind_pure).mono (by omega))

theorem costs_readAuxField : Costs 2 readAuxField :=
  costs_decodeString.bind (fun _ => costs_decodeString.bind_pure)

theorem costs_parseData : Costs 3 parseData :=
  (costs_next _).bind (fun _ => costs_ite (costs_decodeString.bind (fun _ => costs_decodeString.bind_pure))
    (costs_throw _ _))

theorem costs_parsePair : Costs 3 parsePair := by
  have hstamp : ∀ n, Costs 0 (times (next invalidTimestamp : Iter UInt8) n) := fun n =>
    ((costs_next _).times n).mono (by omega)
  refine (costs_peek _).bind (l := 3) (fun _ => costs_ite ?_ (costs_ite ?_ ?_))
  · exact costs_skip.bind (l := 3) (fun _ => (hstamp 4).bind (l := 3) (fun _ => costs_parseData.bind_pure))
  · exact costs_skip.bind (l := 3) (fun _ => (hstamp 8).bind (l := 3) (fun _ => costs_parseData.bind_pure))
  · exact costs_parseData.bind_pure

theorem costs_readDatabase : Costs 3 readDatabase := by
  refine costs_decodeLength.bind (l := 2) (fun _ => costs_skip.bind (l := 2) (fun _ => costs_decodeLength.bind (l := 1)
    (fun _ => costs_decodeLength.bind (l := 0) (fun _ => ?_))))
  exact ((costs_parsePair.times _).bind_pure).mono (by omega)

theorem shortens_readAuxField : Shortens readAuxField := costs_readAuxField.shortens

theorem shortens_readDatabase : Shortens readDatabase := costs_readDatabase.shortens

/-- `Phase::Database`: the datasets up to the end flag. -/
def readDatabases (iter : List UInt8) : Except RDBFileParserError (List Dataset) :=
  match iter with
  | [] => .error invalidFormat
  | flag :: rest =>
    if flag = 0xfe then
      match h : readDatabase rest with
      | .error e         => .error e
      | .ok (dataset, s) =>
        have := shortens_readDatabase rest dataset s h
        do return dataset :: (← readDatabases s)
    else if flag = 0xff then .ok []
    else .error invalidFormat
termination_by iter.length
decreasing_by rw [List.length_cons]; omega

theorem readDatabases_fe (iter : List UInt8) : readDatabases (0xfe :: iter) =
    readDatabase iter >>= fun r => do return r.1 :: (← readDatabases r.2) := by
  rw [readDatabases, if_pos rfl]
  split
  · rename_i he
    rw [he]
    rfl
  · rename_i he
    dsimp only
    rw [he]
    rfl

theorem readDatabases_flag {iter s : List UInt8} {dataset : Dataset} (h : readDatabase iter = .ok (dataset, s)) :
    readDatabases (0xfe :: iter) = (do return dataset :: (← readDatabases s)) := by
  rw [readDatabases_fe, h]
  rfl

/-- `Phase::Metadata`: the auxiliary fields, then the databases. -/
def readMetadata (iter : List UInt8) :
    Except RDBFileParserError (List (List Char × List Char) × List Dataset) :=
  match iter with
  | [] => .error invalidFormat
  | flag :: rest =>
    if flag = 0xfa then
      match h : readAuxField rest with
      | .error e       => .error e
      | .ok (field, s) =>
        have := shortens_readAuxField rest field s h
        do
          let (auxFields, datasets) ← readMetadata s
          return (field :: auxFields, datasets)
    else if flag = 0xfe then do return ([], ← readDatabases (flag :: rest))
    else if flag = 0xff then .ok ([], [])
    else .error invalidFormat
termination_by iter.length
decreasing_by rw [List.length_cons]; omega

theorem readMetadata_fa (iter : List UInt8) : readMetadata (0xfa :: iter) =
    readAuxField iter >>= fun r => do
      let (auxFields, datasets) ← readMetadata r.2
      return (r.1 :: auxFields, datasets) := by
  rw [readMetadata, if_pos rfl]
  split
  · rename_i he
    rw [he]
    rfl
  · rename_i he
    dsimp only
    rw [he]
    rfl

theorem readMetadata_flag {iter s : List UInt8} {field : List Char × List Char}
    (h : readAuxField iter = .ok (field, s)) : readMetadata (0xfa :: iter) = (do
      let (auxFields, datasets) ← readMetadata s
      return (field :: auxFields, datasets)) := by
  rw [readMetadata_fa, h]
  rfl

/-- The auxiliary fields end where the databases begin. -/
theorem readMetadata_of_readDatabases {flag : UInt8} {iter : List UInt8} {datasets : List Dataset} (hflag : flag ≠ 0xfa)
    (h : readDatabases (flag :: iter) = .ok datasets) : readMetadata (flag :: iter) = .ok ([], datasets) := by
  rw [readMetadata, if_neg hflag]
  by_cases hfe : flag = 0xfe
  · rw [if_pos hfe, h]
    rfl
  · rw [readDatabases, if_neg hfe] at h
    rw [if_neg hfe]
    by_cases hff : flag = 0xff
    · rw [if_pos hff] at h ⊢
      cases h
      rfl
    · rw [if_neg hff] at h
      cases h

/-- `Phase::Header`: the magic string and the version. -/
def readHeader : Iter (List Char) := do
  let magic ← times (next ⟨"Wrong Magic String"⟩) 5
  if decodeLossy magic ≠ "REDIS".toList then throw ⟨"Wrong Magic String"⟩
  else do return decodeLossy (← times (next ⟨"Invalid RDB Version"⟩) 4)

def readRdb (iter : List UInt8) : Except RDBFileParserError RDBFile := do
  let (rdbVersion, iter) ← readHeader iter
  let (auxFields, datasets) ← readMetadata iter
  return ⟨rdbVersion, auxFields, datasets⟩

end Rusdis
