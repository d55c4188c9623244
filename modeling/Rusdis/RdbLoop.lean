import Rusdis.RdbChecked
/-!
# RdbLoop — `read_rdb` as a loop over its phases

`phaseLoop` runs the phases one turn at a time, with the numbers checked, and counts the turns and the entries its
tables begin.  A turn that only changes the phase reads nothing, and there are four of them at most; every other turn
and every entry is paid for by bytes.  So the loop ends within its turns, whatever the file declares, and returns what
`readRdb` does (`phaseLoop_ends`).
-/
namespace Rusdis

open Scanner

inductive RdbPhase where
  | header
  | metadata
  | database
  | checkSum
  deriving DecidableEq, Repr

/-- The variables of `read_rdb`. -/
structure RdbState where
  phase      : RdbPhase
  iter       : List UInt8
  rdbVersion : List Char
  auxFields  : List (List Char × List Char)
  datasets   : List Dataset

def RdbState.start (iter : List UInt8) : RdbState := ⟨.header, iter, [], [], []⟩

/-- What a turn comes to: another turn, or the file. -/
inductive Turned where
  | again (s : RdbState)
  | finished (file : RDBFile)

/-- A database up to its entries: how many there are. -/
def checkedSizes : CheckedIter Nat := do
  let _dbIndex ← checkedLength
  skip
  let normalTableSize ← checkedLength
  let expiryTableSize ← checkedLength
  return max normalTableSize expiryTableSize

/-- The table loop: the entries it begins, and the pairs. -/
def tableLoop : Nat → List UInt8 → Nat ×
    Except (Fault RDBFileParserError) (List (List Char × ValueType × Option SystemTime) × List UInt8)
  | 0,     iter => (0, .ok ([], iter))
  | n + 1, iter =>
    match checkedPair iter with
    | .error e         => (1, .error e)
    | .ok (pair, iter) =>
      let (entries, result) := tableLoop n iter
      (entries + 1, do
        let (pairs, iter) ← result
        return (pair :: pairs, iter))

/-- A reader that adds nothing up, its errors as errors. -/
def unchecked {α : Type} (p : Iter α) : CheckedIter α := fun s => (p s).mapError .err

/-- One turn of the loop: the entries it begins, and what it comes to. -/
def phaseTurn (s : RdbState) : Nat × Except (Fault RDBFileParserError) Turned :=
  match s.phase with
  | .header => (0, do
    let (rdbVersion, iter) ← unchecked readHeader s.iter
    return .again { s with phase := .metadata, iter, rdbVersion })
  | .metadata =>
    match s.iter with
    | []           => (0, .error (.err invalidFormat))
    | flag :: rest =>
      if flag = 0xfa then (0, do
        let (field, iter) ← checkedAuxField rest
        return .again { s with iter, auxFields := s.auxFields ++ [field] })
      else if flag = 0xfe then (0, .ok (.again { s with phase := .database }))
      else if flag = 0xff then (0, .ok (.again { s with phase := .checkSum }))
      else (0, .error (.err invalidFormat))
  | .database =>
    match s.iter with
    | []           => (0, .error (.err invalidFormat))
    | flag :: rest =>
      if flag = 0xfe then
        match checkedSizes rest with
        | .error e         => (0, .error e)
        | .ok (size, iter) =>
          let (entries, result) := tableLoop size iter
          (entries, do
            let (pairs, iter) ← result
            return .again { s with iter, datasets := s.datasets ++ [⟨pairs⟩] })
      else if flag = 0xff then (0, .ok (.again { s with phase := .checkSum }))
      else (0, .error (.err invalidFormat))
  | .checkSum => (0, .ok (.finished ⟨s.rdbVersion, s.auxFields, s.datasets⟩))

theorem phaseTurn_header (iter : List UInt8) : phaseTurn (.start iter) = (0, unchecked readHeader iter >>= fun r =>
    .ok (.again ⟨.metadata, r.2, r.1, [], []⟩)) := rfl

section
variable (rdbVersion : List Char) (auxFields : List (List Char × List Char)) (datasets : List Dataset)

theorem phaseTurn_fa (iter : List UInt8) : phaseTurn ⟨.metadata, 0xfa :: iter, rdbVersion, auxFields, datasets⟩ =
    (0, checkedAuxField iter >>= fun r =>
      .ok (.again ⟨.metadata, r.2, rdbVersion, auxFields ++ [r.1], datasets⟩)) := rfl

theorem phaseTurn_metadata_other {flag : UInt8} (hfa : flag ≠ 0xfa) (hfe : flag ≠ 0xfe) (hff : flag ≠ 0xff)
    (iter : List UInt8) : phaseTurn ⟨.metadata, flag :: iter, rdbVersion, auxFields, datasets⟩ =
      (0, .error (.err invalidFormat)) := by
  show (if flag = 0xfa then _ else if flag = 0xfe then _ else if flag = 0xff then _ else _) = _
  rw [if_neg hfa, if_neg hfe, if_neg hff]

theorem phaseTurn_database_other {flag : UInt8} (hfe : flag ≠ 0xfe) (hff : flag ≠ 0xff) (iter : List UInt8) :
    phaseTurn ⟨.database, flag :: iter, rdbVersion, auxFields, datasets⟩ = (0, .error (.err invalidFormat)) := by
  show (if flag = 0xfe then _ else if flag = 0xff then _ else _) = _
  rw [if_neg hfe, if_neg hff]

theorem phaseTurn_fe_error {iter : List UInt8} {e : Fault RDBFileParserError} (h : checkedSizes iter = .error e) :
    phaseTurn ⟨.database, 0xfe :: iter, rdbVersion, auxFields, datasets⟩ = (0, .error e) := by
  show (match checkedSizes iter with
    | .error e         => _
    | .ok (size, iter) => _) = _
  rw [h]

theorem phaseTurn_fe {iter rest : List UInt8} {size : Nat} (h : checkedSizes iter = .ok (size, rest)) :
    phaseTurn ⟨.database, 0xfe :: iter, rdbVersion, auxFields, datasets⟩ =
      ((tableLoop size rest).1, (tableLoop size rest).2 >>= fun r =>
        .ok (.again ⟨.database, r.2, rdbVersion, auxFields, datasets ++ [⟨r.1⟩]⟩)) := by
  show (match checkedSizes iter with
    | .error e         => _
    | .ok (size, iter) => _) = _
  rw [h]
  rfl

end

/-- A run of the loop; it has no outcome where its turns ran out. -/
structure LoopRun where
  turns   : Nat
  entries : Nat
  outcome : Option (Except (Fault RDBFileParserError) RDBFile)

/-- The loop for `fuel` turns at most. -/
def phaseLoop : Nat → RdbState → LoopRun
  | 0,        _ => ⟨0, 0, none⟩
  | fuel + 1, s =>
    let (entries, turned) := phaseTurn s
    match turned with
    | .error e              => ⟨1, entries, some (.error e)⟩
    | .ok (.finished file)  => ⟨1, entries, some (.ok file)⟩
    | .ok (.again s)        =>
      let run := phaseLoop fuel s
      ⟨run.turns + 1, entries + run.entries, run.outcome⟩

/-! ## The entries of a table -/

theorem times_succ {α : Type} (p : Iter α) (n : Nat) (s : List UInt8) :
    times p (n + 1) s = p s >>= fun r => times p n r.2 >>= fun q => .ok (r.1 :: q.1, q.2) := rfl

/-- **Every entry is paid for by three bytes**, but one the loop fails in. -/
theorem tableLoop_spec : ∀ (n : Nat) (iter : List UInt8),
    (tableLoop n iter).2 = (times parsePair n iter).mapError .err ∧ 3 * (tableLoop n iter).1 ≤ iter.length + 3 ∧
      ∀ r, times parsePair n iter = .ok r → 3 * (tableLoop n iter).1 + r.2.length ≤ iter.length
  | 0, iter => by
    refine ⟨rfl, Nat.zero_le _, fun r hr => ?_⟩
    cases hr
    exact Nat.le_of_eq (Nat.zero_add _)
  | n + 1, iter => by
    rw [tableLoop, times_succ, mirrors_checkedPair iter]
    cases hpair : parsePair iter with
    | error e => exact ⟨rfl, by show 3 * 1 ≤ _; omega, fun r hr => by cases hr⟩
    | ok p =>
      obtain ⟨hresult, hentries, hread⟩ := tableLoop_spec n p.2
      have hcost := costs_parsePair iter p.1 p.2 hpair
      rw [Fallible.ok_bind]
      refine ⟨?_, ?_, fun r hr => ?_⟩
      · show ((tableLoop n p.2).2 >>= fun q => pure (p.1 :: q.1, q.2)) = _
        rw [hresult]
        cases times parsePair n p.2 <;> rfl
      · show 3 * ((tableLoop n p.2).1 + 1) ≤ _
        omega
      · show 3 * ((tableLoop n p.2).1 + 1) + _ ≤ _
        obtain ⟨q, hq, he⟩ := Fallible.bind_eq_ok.1 hr
        cases he
        have := hread q hq
        simp only
        omega

/-- A database up to its entries, its numbers of any size. -/
def readSizes : Iter Nat := do
  let _dbIndex ← decodeLength
  skip
  let normalTableSize ← decodeLength
  let expiryTableSize ← decodeLength
  return max normalTableSize expiryTableSize

theorem mirrors_checkedSizes : Mirrors .err checkedSizes readSizes :=
  mirrors_checkedLength.bind fun _ => mirrors_skip.bind fun _ => mirrors_checkedLength.bind fun _ =>
    mirrors_checkedLength.bind fun _ => mirrors_pure _

theorem costs_readSizes : Costs 3 readSizes :=
  costs_decodeLength.bind (l := 2) (fun _ => costs_skip.bind (l := 2) (fun _ => costs_decodeLength.bind (l := 1)
    (fun _ => costs_decodeLength.bind_pure)))

theorem readDatabase_eq (s : List UInt8) : readDatabase s =
    readSizes s >>= fun r => times parsePair r.1 r.2 >>= fun q => .ok (⟨q.1⟩, q.2) := by
  have h : readDatabase = readSizes >>= fun n => times parsePair n >>= fun pairs => pure ⟨pairs⟩ := by
    simp only [readDatabase, readSizes, bind_assoc, pure_bind]
  rw [h]
  rfl

/-! ## The run from a state -/

/-- With turns enough the loop ends as `r` says, in no more than `slack` turns more than there are bytes, and its
tables begin no more entries than one for every three bytes. -/
def Ends (slack : Nat) (s : RdbState) (r : Except RDBFileParserError RDBFile) : Prop :=
  ∀ fuel, s.iter.length + slack ≤ fuel → (phaseLoop fuel s).turns ≤ s.iter.length + slack ∧
    3 * (phaseLoop fuel s).entries ≤ s.iter.length ∧ (phaseLoop fuel s).outcome = some (r.mapError .err)

/-- The last turn. -/
theorem ends_last {s : RdbState} {r : Except RDBFileParserError RDBFile} {entries slack : Nat}
    (h : ∀ fuel, phaseLoop (fuel + 1) s = ⟨1, entries, some (r.mapError .err)⟩) (hentries : 3 * entries ≤ s.iter.length)
    (hslack : 1 ≤ slack) : Ends slack s r := by
  intro fuel hfuel
  cases fuel with
  | zero => omega
  | succ fuel =>
    rw [h]
    exact ⟨by show 1 ≤ _; omega, hentries, rfl⟩

theorem ends_error {s : RdbState} {e : RDBFileParserError} {entries slack : Nat}
    (h : phaseTurn s = (entries, .error (.err e))) (hentries : 3 * entries ≤ s.iter.length) (hslack : 1 ≤ slack) :
    Ends slack s (.error e) :=
  ends_last (fun fuel => by rw [phaseLoop, h]; rfl) hentries hslack

theorem ends_finished {s : RdbState} {file : RDBFile} {slack : Nat} (h : phaseTurn s = (0, .ok (.finished file)))
    (hslack : 1 ≤ slack) : Ends slack s (.ok file) :=
  ends_last (fun fuel => by rw [phaseLoop, h]; rfl) (Nat.zero_le _) hslack

/-- **A turn is paid for** by bytes, or by the slack its phase had and the next has not. -/
theorem ends_again {s t : RdbState} {r : Except RDBFileParserError RDBFile} {entries slack slack' : Nat}
    (h : phaseTurn s = (entries, .ok (.again t))) (hentries : 3 * entries + t.iter.length ≤ s.iter.length)
    (hslack : t.iter.length + slack' + 1 ≤ s.iter.length + slack) (ht : Ends slack' t r) : Ends slack s r := by
  intro fuel hfuel
  cases fuel with
  | zero => omega
  | succ fuel =>
    obtain ⟨hturns, hrest, houtcome⟩ := ht fuel (by omega)
    rw [phaseLoop, h]
    exact ⟨by show (phaseLoop fuel t).turns + 1 ≤ _; omega, by show 3 * (_ + (phaseLoop fuel t).entries) ≤ _; omega,
      houtcome⟩

section
variable (rdbVersion : List Char)

theorem ends_checkSum (iter : List UInt8) (auxFields : List (List Char × List Char)) (datasets : List Dataset) :
    Ends 1 ⟨.checkSum, iter, rdbVersion, auxFields, datasets⟩ (.ok ⟨rdbVersion, auxFields, datasets⟩) :=
  ends_finished rfl (Nat.le_refl _)

/-- **From a database on**: each takes four bytes and three for every entry, the phase after it one turn. -/
theorem ends_database (auxFields : List (List Char × List Char)) : ∀ (iter : List UInt8) (datasets : List Dataset),
    Ends 2 ⟨.database, iter, rdbVersion, auxFields, datasets⟩
      ((fun more => ⟨rdbVersion, auxFields, datasets ++ more⟩) <$> readDatabases iter)
  | [], datasets => by
    rw [readDatabases]
    exact ends_error rfl (Nat.le_refl _) (by decide)
  | flag :: rest, datasets => by
    by_cases hfe : flag = 0xfe
    · subst hfe
      rw [readDatabases_fe, readDatabase_eq]
      have hsizes := mirrors_checkedSizes rest
      cases hread : readSizes rest with
      | error e =>
        rw [hread] at hsizes
        exact ends_error (phaseTurn_fe_error rdbVersion auxFields datasets hsizes) (Nat.zero_le _) (by decide)
      | ok r =>
        rw [hread] at hsizes
        have hcost := costs_readSizes rest r.1 r.2 hread
        have hturn := phaseTurn_fe rdbVersion auxFields datasets hsizes
        obtain ⟨hresult, hentries, htable⟩ := tableLoop_spec r.1 r.2
        rw [Fallible.ok_bind]
        cases hpairs : times parsePair r.1 r.2 with
        | error e =>
          rw [hresult, hpairs] at hturn
          refine ends_error hturn ?_ (by decide)
          show _ ≤ rest.length + 1
          omega
        | ok q =>
          rw [hresult, hpairs] at hturn
          have hq := htable q hpairs
          have ih := ends_database auxFields q.2 (datasets ++ [⟨q.1⟩])
          have hmore : (fun more => (⟨rdbVersion, auxFields, datasets ++ more⟩ : RDBFile)) <$>
              (do return ⟨q.1⟩ :: (← readDatabases q.2)) =
                (fun more => ⟨rdbVersion, auxFields, datasets ++ [⟨q.1⟩] ++ more⟩) <$> readDatabases q.2 := by
            cases readDatabases q.2 with
            | error e => rfl
            | ok more => simp
          rw [Fallible.ok_bind, Fallible.ok_bind, hmore]
          refine ends_again hturn ?_ ?_ ih
          · show 3 * _ + q.2.length ≤ rest.length + 1
            omega
          · show q.2.length + 2 + 1 ≤ rest.length + 1 + 2
            omega
    by_cases hff : flag = 0xff
    · subst hff
      rw [readDatabases, if_neg (by decide), if_pos rfl, Fallible.map_ok, List.append_nil]
      exact ends_again (t := ⟨.checkSum, 0xff :: rest, rdbVersion, auxFields, datasets⟩) rfl (by simp) (Nat.le_refl _)
        (ends_checkSum rdbVersion (0xff :: rest) auxFields datasets)
    · rw [readDatabases, if_neg hfe, if_neg hff]
      exact ends_error (phaseTurn_database_other rdbVersion auxFields datasets hfe hff rest) (Nat.zero_le _) (by decide)
termination_by iter => iter.length
decreasing_by rw [List.length_cons]; omega

/-- **From the metadata on**: a field takes three bytes. -/
theorem ends_metadata : ∀ (iter : List UInt8) (auxFields : List (List Char × List Char)),
    Ends 3 ⟨.metadata, iter, rdbVersion, auxFields, []⟩
      ((fun r => ⟨rdbVersion, auxFields ++ r.1, r.2⟩) <$> readMetadata iter)
  | [], auxFields => by
    rw [readMetadata]
    exact ends_error rfl (Nat.le_refl _) (by decide)
  | flag :: rest, auxFields => by
    by_cases hfa : flag = 0xfa
    · subst hfa
      have hturn := phaseTurn_fa rdbVersion auxFields [] rest
      rw [mirrors_checkedAuxField rest] at hturn
      cases hread : readAuxField rest with
      | error e =>
        rw [hread] at hturn
        rw [readMetadata_fa, hread]
        exact ends_error hturn (Nat.zero_le _) (by decide)
      | ok r =>
        rw [hread] at hturn
        have hcost := costs_readAuxField rest r.1 r.2 hread
        have ih := ends_metadata r.2 (auxFields ++ [r.1])
        have hmore : (fun q => (⟨rdbVersion, auxFields ++ q.1, q.2⟩ : RDBFile)) <$> readMetadata (0xfa :: rest) =
            (fun q => ⟨rdbVersion, auxFields ++ [r.1] ++ q.1, q.2⟩) <$> readMetadata r.2 := by
          rw [readMetadata_fa, hread, Fallible.ok_bind]
          cases readMetadata r.2 with
          | error e => rfl
          | ok q => simp
        rw [hmore]
        refine ends_again hturn ?_ ?_ ih
        · show 3 * 0 + r.2.length ≤ rest.length + 1
          omega
        · show r.2.length + 3 + 1 ≤ rest.length + 1 + 3
          omega
    by_cases hfe : flag = 0xfe
    · subst hfe
      have hmore : (fun r => (⟨rdbVersion, auxFields ++ r.1, r.2⟩ : RDBFile)) <$> readMetadata (0xfe :: rest) =
          (fun more => ⟨rdbVersion, auxFields, [] ++ more⟩) <$> readDatabases (0xfe :: rest) := by
        rw [readMetadata, if_neg (by decide), if_pos rfl]
        cases readDatabases (0xfe :: rest) with
        | error e => rfl
        | ok more => simp
      rw [hmore]
      exact ends_again (t := ⟨.database, 0xfe :: rest, rdbVersion, auxFields, []⟩) rfl (by simp) (Nat.le_refl _)
        (ends_database rdbVersion auxFields (0xfe :: rest) [])
    by_cases hff : flag = 0xff
    · subst hff
      rw [readMetadata, if_neg (by decide), if_neg (by decide), if_pos rfl, Fallible.map_ok, List.append_nil]
      exact ends_again (t := ⟨.checkSum, 0xff :: rest, rdbVersion, auxFields, []⟩) rfl (by simp) (by simp)
        (ends_checkSum rdbVersion (0xff :: rest) auxFields [])
    · rw [readMetadata, if_neg hfa, if_neg hfe, if_neg hff]
      exact ends_error (phaseTurn_metadata_other rdbVersion auxFields [] hfa hfe hff rest) (Nat.zero_le _) (by decide)
termination_by iter => iter.length
decreasing_by rw [List.length_cons]; omega

end

theorem costs_readHeader : Costs 9 readHeader := by
  refine (((costs_next _).times 5).bind (l := 4) (fun _ => costs_ite (costs_throw _ _) ?_)).mono (by decide)
  exact ((costs_next _).times 4).bind_pure

theorem ends_start (iter : List UInt8) : Ends 4 (.start iter) (readRdb iter) := by
  have hturn := phaseTurn_header iter
  unfold unchecked at hturn
  cases hread : readHeader iter with
  | error e =>
    rw [hread] at hturn
    rw [readRdb, hread]
    exact ends_error hturn (Nat.zero_le _) (by decide)
  | ok r =>
    rw [hread] at hturn
    obtain ⟨rdbVersion, rest⟩ := r
    have hcost := costs_readHeader iter rdbVersion rest hread
    have hmore : readRdb iter = (fun q => ⟨rdbVersion, [] ++ q.1, q.2⟩) <$> readMetadata rest := by
      rw [readRdb, hread, Fallible.ok_bind]
      dsimp only
      cases readMetadata rest <;> rfl
    rw [hmore]
    refine ends_again hturn ?_ ?_ (ends_metadata rdbVersion rest [])
    · show 3 * 0 + rest.length ≤ iter.length
      omega
    · show rest.length + 3 + 1 ≤ iter.length + 4
      omega

/-- **`read_rdb` ends safely on every byte list.** It takes at most four turns more than there are bytes, begins no
more entries than there are bytes, overflows nowhere, and returns what `readRdb` does: a file or an error. -/
theorem phaseLoop_ends (iter : List UInt8) {fuel : Nat} (hfuel : iter.length + 4 ≤ fuel) :
    (phaseLoop fuel (.start iter)).turns ≤ iter.length + 4 ∧ (phaseLoop fuel (.start iter)).entries ≤ iter.length ∧
      ((∃ file, (phaseLoop fuel (.start iter)).outcome = some (.ok file) ∧ readRdb iter = .ok file) ∨
        ∃ e, (phaseLoop fuel (.start iter)).outcome = some (.error (.err e)) ∧ readRdb iter = .error e) := by
  obtain ⟨hturns, hentries, houtcome⟩ := ends_start iter fuel hfuel
  have hlen : (RdbState.start iter).iter.length = iter.length := rfl
  refine ⟨hturns, by omega, ?_⟩
  rw [houtcome]
  cases readRdb iter with
  | ok file => exact Or.inl ⟨file, rfl, rfl⟩
  | error e => exact Or.inr ⟨e, rfl, rfl⟩

/-- A database that declares 2^32 - 1 entries and holds one. -/
theorem phaseLoop_ends_declared :
    let iter : List UInt8 := Utf8.encode "REDIS0011".toList ++
      [0xfe, 0, 0xfb, 0xc2, 0xff, 0xff, 0xff, 0xff, 0, 0x00, 1, 107, 1, 118, 0xff]
    (phaseLoop 28 (.start iter)).turns ≤ iter.length + 4 ∧ (phaseLoop 28 (.start iter)).entries ≤ iter.length ∧
      ((∃ file, (phaseLoop 28 (.start iter)).outcome = some (.ok file) ∧ readRdb iter = .ok file) ∨
        ∃ e, (phaseLoop 28 (.start iter)).outcome = some (.error (.err e)) ∧ readRdb iter = .error e) :=
  phaseLoop_ends _ (by decide)

end Rusdis
