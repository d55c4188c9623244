import Rusdis.Command
/-!
# Options — the options of a `SET` as a grammar

The values after the key and the value of a `SET` are cut from the left into items: a `PX` with the value after it,
or one other value.  `parse_set_command` applies the items in turn (`setOptions_eq_foldlM`), so a `SET` is read exactly
when every item is right, and the last `PX` counts (`parseSetCommand_grammar`).
-/
namespace Rusdis

open Fallible

/-- The text of an option name, in any case. -/
def IsPx : Value → Prop
  | .bulkString s => toUppercase s = "PX".toList
  | _             => False

instance : DecidablePred IsPx := fun v => by
  cases v <;> unfold IsPx <;> infer_instance

inductive Item where
  | px (name x : Value)
  | lacking (name : Value)
  | other (v : Value)

namespace Item

/-- The values an item was cut from. -/
def values : Item → List Value
  | px name x    => [name, x]
  | lacking name => [name]
  | other v      => [v]

/-- The value a `PX` takes. -/
def operand : Item → Option Value
  | px _ x => some x
  | _      => none

/-- What the loop does with one item. -/
def apply (px : Option UInt64) : Item → Except RusdisError (Option UInt64)
  | .px _ (.bulkString milSecStr) => do return some (← orParseInt (parseU64 milSecStr))
  | .px _ _                       => .error notBulkString
  | lacking _                     => .error (.commandParserError "No millisecond value after PX")
  | other (.bulkString _)         => .ok px
  | other _                       => .error notBulkString

end Item

/-- The left-to-right cut. -/
def items : List Value → List Item
  | []      => []
  | v :: vs =>
    if IsPx v then
      match vs with
      | []      => [.lacking v]
      | x :: vs => .px v x :: items vs
    else .other v :: items vs

/-- The milliseconds a value is read as. -/
def millis : Value → Option UInt64
  | .bulkString s => (parseU64 s).toOption
  | _             => none

/-- Every `PX` has its value, so what follows starts an item of its own. -/
def Closed (vs : List Value) : Prop := ∀ name, .lacking name ∉ items vs

def operands (vs : List Value) : List Value := (items vs).filterMap Item.operand

theorem items_px {name : Value} (h : IsPx name) (x : Value) (vs : List Value) :
    items (name :: x :: vs) = .px name x :: items vs := by
  rw [items, if_pos h]

theorem items_other {v : Value} (h : ¬ IsPx v) (vs : List Value) : items (v :: vs) = .other v :: items vs := by
  rw [items.eq_def]
  exact if_neg h

theorem closed_px {name : Value} (h : IsPx name) (x : Value) (vs : List Value) :
    Closed (name :: x :: vs) ↔ Closed vs := by
  simp [Closed, items_px h]

theorem closed_other {v : Value} (h : ¬ IsPx v) (vs : List Value) : Closed (v :: vs) ↔ Closed vs := by
  simp [Closed, items_other h]

theorem not_closed_lacking {name : Value} (h : IsPx name) : ¬ Closed [name] := by
  simp [Closed, items, h]

theorem operands_px {name : Value} (h : IsPx name) (x : Value) (vs : List Value) :
    operands (name :: x :: vs) = x :: operands vs := by
  rw [operands, items_px h]; rfl

theorem operands_other {v : Value} (h : ¬ IsPx v) (vs : List Value) : operands (v :: vs) = operands vs := by
  rw [operands, items_other h]; rfl

/-- **The cut loses nothing.** -/
theorem values_items (vs : List Value) : (items vs).flatMap Item.values = vs := by
  induction vs using items.induct with
  | case1 => rfl
  | case2 v h => simp [items, h, Item.values]
  | case3 v h x vs ih => rw [items_px h, List.flatMap_cons, ih]; rfl
  | case4 v vs h ih => rw [items_other h, List.flatMap_cons, ih]; rfl

theorem items_append (pre post : List Value) (h : Closed pre) : items (pre ++ post) = items pre ++ items post := by
  induction pre using items.induct with
  | case1 => rfl
  | case2 v hv => exact absurd h (not_closed_lacking hv)
  | case3 v hv x vs ih =>
    rw [List.cons_append, List.cons_append, items_px hv, items_px hv, ih ((closed_px hv x vs).1 h)]
    rfl
  | case4 v vs hv ih =>
    rw [List.cons_append, items_other hv, items_other hv, ih ((closed_other hv vs).1 h)]
    rfl

/-! ## The loop applies the items -/

theorem setOptions_px (s : List Char) (h : toUppercase s = "PX".toList) (x : Value) (vs : List Value)
    (px : Option UInt64) : setOptions px (.bulkString s :: x :: vs) =
      (Item.px (.bulkString s) x).apply px >>= fun px => setOptions px vs := by
  rw [setOptions.eq_def]
  simp only [h, if_true]
  cases x with
  | bulkString milSecStr =>
    simp only [Item.apply]
    cases orParseInt (parseU64 milSecStr) <;> rfl
  | _ => rfl

theorem setOptions_other {v : Value} (h : ¬ IsPx v) (vs : List Value) (px : Option UInt64) :
    setOptions px (v :: vs) = (Item.other v).apply px >>= fun px => setOptions px vs := by
  cases v with
  | bulkString s =>
    rw [setOptions.eq_def]
    exact if_neg h
  | _ => rfl

/-- **The loop applies the items in turn.** -/
theorem setOptions_eq_foldlM (vs : List Value) : ∀ (px : Option UInt64),
    setOptions px vs = (items vs).foldlM Item.apply px := by
  induction vs using items.induct with
  | case1 => intro px; rfl
  | case2 v hv =>
    intro px
    cases v with
    | bulkString s =>
      rw [items, if_pos hv, setOptions, if_pos (show toUppercase s = _ from hv)]
      rfl
    | _ => exact absurd hv id
  | case3 v hv x vs ih =>
    intro px
    cases v with
    | bulkString s =>
      rw [items_px hv, setOptions_px s hv, List.foldlM_cons]
      simp only [ih]
    | _ => exact absurd hv id
  | case4 v vs hv ih =>
    intro px
    rw [items_other hv, setOptions_other hv, List.foldlM_cons]
    simp only [ih]

/-! ## What the loop accepts -/

/-- The loop goes on after the item. -/
def Item.Accepted : Item → Prop
  | px _ x    => ∃ n, millis x = some n
  | lacking _ => False
  | other v   => IsBulk v

theorem Item.apply_eq_ok {px px' : Option UInt64} {i : Item} :
    i.apply px = .ok px' ↔ i.Accepted ∧ px' = i.operand.elim px millis := by
  cases i with
  | px name x =>
    cases x with
    | bulkString s =>
      simp only [apply, Accepted, operand, millis, Option.elim]
      cases parseU64 s with
      | ok n => simp [orParseInt, Except.toOption, eq_comm]
      | error e => simp [orParseInt, Except.toOption]
    | _ => simp [apply, Accepted, millis]
  | lacking name => simp [apply, Accepted]
  | other v =>
    cases v with
    | bulkString s => simp [apply, Accepted, operand, IsBulk, eq_comm]
    | _ => simp [apply, Accepted, IsBulk]

theorem foldlM_apply_eq_ok : ∀ (its : List Item) (px px' : Option UInt64), its.foldlM Item.apply px = .ok px' ↔
    (∀ i ∈ its, i.Accepted) ∧ px' = (its.filterMap Item.operand).getLast?.elim px millis
  | [], px, px' => by simp [eq_comm]
  | i :: its, px, px' => by
    rw [List.foldlM_cons, bind_eq_ok]
    simp only [Item.apply_eq_ok, foldlM_apply_eq_ok its, List.forall_mem_cons]
    -- a later `PX` decides, else the item's own value, else what was there before
    have hlast : ((i :: its).filterMap Item.operand).getLast?.elim px millis =
        (its.filterMap Item.operand).getLast?.elim (i.operand.elim px millis) millis := by
      cases hi : i.operand with
      | none => rw [List.filterMap_cons_none hi]; rfl
      | some x =>
        rw [List.filterMap_cons_some hi, List.getLast?_cons]
        cases (its.filterMap Item.operand).getLast? <;> rfl
    rw [hlast]
    constructor
    · rintro ⟨_, ⟨hi, rfl⟩, hits, hpx⟩
      exact ⟨⟨hi, hits⟩, hpx⟩
    · rintro ⟨⟨hi, hits⟩, hpx⟩
      exact ⟨_, ⟨hi, rfl⟩, hits, hpx⟩

theorem IsPx.isBulk {v : Value} (h : IsPx v) : IsBulk v := by
  cases v with
  | bulkString s => exact ⟨s, rfl⟩
  | _ => exact absurd h id

theorem accepted_items_iff (vs : List Value) : (∀ i ∈ items vs, i.Accepted) ↔
    (∀ v ∈ vs, IsBulk v) ∧ Closed vs ∧ ∀ x ∈ operands vs, ∃ n, millis x = some n := by
  induction vs using items.induct with
  | case1 => simp [items, Closed, operands]
  | case2 v hv =>
    rw [items, if_pos hv]
    simp [Item.Accepted, not_closed_lacking hv]
  | case3 v hv x vs ih =>
    rw [items_px hv, closed_px hv, operands_px hv, List.forall_mem_cons, ih]
    simp only [Item.Accepted, List.forall_mem_cons]
    constructor
    · rintro ⟨⟨n, hn⟩, hbulk, hclosed, hops⟩
      refine ⟨⟨hv.isBulk, ?_, hbulk⟩, hclosed, ⟨n, hn⟩, hops⟩
      cases x with
      | bulkString s => exact ⟨s, rfl⟩
      | _ => cases hn
    · rintro ⟨⟨-, -, hbulk⟩, hclosed, hx, hops⟩
      exact ⟨hx, hbulk, hclosed, hops⟩
  | case4 v vs hv ih =>
    rw [items_other hv, closed_other hv, operands_other hv, List.forall_mem_cons, ih, List.forall_mem_cons]
    simp only [Item.Accepted, and_assoc]

/-! ## Items that cannot change the result -/

theorem setOptions_append {pre : List Value} (h : Closed pre) (post : List Value) (px : Option UInt64) :
    setOptions px (pre ++ post) = setOptions px pre >>= fun px => setOptions px post := by
  simp only [setOptions_eq_foldlM, items_append pre post h, List.foldlM_append]

theorem setOptions_noise {pre : List Value} (h : Closed pre) {noise : Value} (hbulk : IsBulk noise)
    (hpx : ¬ IsPx noise) (post : List Value) (px : Option UInt64) :
    setOptions px (pre ++ noise :: post) = setOptions px (pre ++ post) := by
  rw [setOptions_append h, setOptions_append h]
  obtain ⟨s, rfl⟩ := hbulk
  simp only [setOptions_other hpx]
  rfl

/-- A number has no upper case of its own, so `PX` is none. -/
theorem millis_px {v : Value} (h : IsPx v) : millis v = none := by
  cases v with
  | bulkString s =>
    cases hs : parseU64 s with
    | error e => rw [millis, hs]; rfl
    | ok n =>
      obtain ⟨m, hm, -⟩ := map_eq_ok.1 hs
      have hchars := Decimal.readInt_chars (by decide) (by decide) hm
      have hupper : ∀ c ∈ s, upperChar c = [c] := by
        intro c hc
        rcases hchars c hc with hdigit | rfl | rfl
        · exact upperChar_of_isDigit hdigit
        · rfl
        · rfl
      have hself : toUppercase s = s := by
        rw [toUppercase, List.flatMap_congr hupper, List.flatMap_singleton']
      have hs : s = "PX".toList := hself.symm.trans h
      rw [hs] at hchars
      rcases hchars 'P' (by decide) with hdigit | hsign | hsign
      · exact absurd hdigit (by decide)
      · exact absurd hsign (by decide)
      · exact absurd hsign (by decide)
  | _ => rfl

theorem setOptions_px_operand {pre : List Value} (h : Closed pre) {name x : Value} (hname : IsPx name) (hx : IsPx x)
    (px : Option UInt64) : ∃ e, ∀ post, setOptions px (pre ++ name :: x :: post) = .error e := by
  cases hpre : setOptions px pre with
  | error e => exact ⟨e, fun post => by rw [setOptions_append h, hpre]; rfl⟩
  | ok px₁ =>
    obtain ⟨s, rfl⟩ := hname.isBulk
    cases hitem : (Item.px (.bulkString s) x).apply px₁ with
    | error e =>
      exact ⟨e, fun post => by rw [setOptions_append h, hpre, ok_bind, setOptions_px s hname, hitem]; rfl⟩
    | ok px₂ =>
      obtain ⟨⟨n, hn⟩, -⟩ := Item.apply_eq_ok.1 hitem
      rw [millis_px hx] at hn
      cases hn

/-- The key and the value of a `SET` say nothing of its options. -/
theorem parseSetCommand_congr {vs vs' : List Value} (h : setOptions none vs = setOptions none vs') (key value : Value) :
    parseSetCommand (key :: value :: vs) = parseSetCommand (key :: value :: vs') := by
  cases key with
  | bulkString k =>
    cases value with
    | bulkString v =>
      unfold parseSetCommand
      dsimp only
      rw [h]
    | _ => rfl
  | _ => rfl

/-- **The options of a `SET` are read as a grammar.** A `SET` is read exactly when its items are right, with the last
`PX`'s value; another text between two items says nothing; a `PX` taken as a value is never an option: the command is
refused whatever follows. -/
theorem parseSetCommand_grammar :
    (∀ vs c, parseSetCommand vs = .ok c ↔
      ∃ key value rest, vs = .bulkString key :: .bulkString value :: rest ∧ (∀ v ∈ rest, IsBulk v) ∧ Closed rest ∧
        (∀ x ∈ operands rest, ∃ n, millis x = some n) ∧
        c = .set key value ((operands rest).getLast?.bind millis)) ∧
    (∀ key value noise pre post, Closed pre → IsBulk noise → ¬ IsPx noise →
      parseSetCommand (key :: value :: (pre ++ noise :: post)) = parseSetCommand (key :: value :: (pre ++ post))) ∧
    ∀ key value name x pre, Closed pre → IsPx name → IsPx x →
      ∃ e, ∀ post, parseSetCommand (key :: value :: (pre ++ name :: x :: post)) = .error e := by
  have hlast : ∀ rest, (operands rest).getLast?.bind millis = (operands rest).getLast?.elim none millis := by
    intro rest
    cases (operands rest).getLast? <;> rfl
  refine ⟨fun vs c => ⟨fun h => ?_, ?_⟩, fun key value noise pre post hpre hbulk hpx => ?_,
    fun key value name x pre hpre hname hx => ?_⟩
  · obtain ⟨key, value, px, rest, rfl, hrest, rfl⟩ := parseSetCommand_eq_ok h
    rw [setOptions_eq_foldlM, foldlM_apply_eq_ok, accepted_items_iff] at hrest
    obtain ⟨⟨hbulk, hclosed, hops⟩, rfl⟩ := hrest
    exact ⟨key, value, rest, rfl, hbulk, hclosed, hops, by rw [hlast]; rfl⟩
  · rintro ⟨key, value, rest, rfl, hbulk, hclosed, hops, rfl⟩
    have hrest : setOptions none rest = .ok ((operands rest).getLast?.elim none millis) := by
      rw [setOptions_eq_foldlM, foldlM_apply_eq_ok, accepted_items_iff]
      exact ⟨⟨hbulk, hclosed, hops⟩, rfl⟩
    rw [parseSetCommand, hrest, hlast]
    rfl
  · exact parseSetCommand_congr (setOptions_noise hpre hbulk hpx post none) key value
  · obtain ⟨e, he⟩ := setOptions_px_operand hpre hname hx none
    -- the key and the value are looked at first, so the error may be theirs
    have hsame : ∀ post, parseSetCommand (key :: value :: (pre ++ name :: x :: post)) =
        parseSetCommand (key :: value :: (pre ++ [name, x])) := fun post =>
      parseSetCommand_congr ((he post).trans (he []).symm) key value
    cases hresult : parseSetCommand (key :: value :: (pre ++ [name, x])) with
    | error e' => exact ⟨e', fun post => (hsame post).trans hresult⟩
    | ok c =>
      obtain ⟨_, _, _, rest, hrest, hok, -⟩ := parseSetCommand_eq_ok hresult
      obtain ⟨-, htail⟩ := List.cons.inj hrest
      obtain ⟨-, rfl⟩ := List.cons.inj htail
      rw [he []] at hok
      cases hok

/-- Noise before a `px` and after its value, and a `PX` that takes a `px`. -/
theorem parseSetCommand_grammar_noise :
    (parseSetCommand [.bulkString ['k'], .bulkString ['v'], .bulkString "pX".toList, .bulkString ['7'],
        .bulkString "nx".toList, .bulkString "px".toList, .bulkString "+9".toList] =
      parseSetCommand [.bulkString ['k'], .bulkString ['v'], .bulkString "pX".toList, .bulkString ['7'],
        .bulkString "px".toList, .bulkString "+9".toList]) ∧
    ∃ e, ∀ post, parseSetCommand (.bulkString ['k'] :: .bulkString ['v'] :: ([.bulkString "ex".toList] ++
      .bulkString "PX".toList :: .bulkString "px".toList :: post)) = .error e :=
  ⟨parseSetCommand_grammar.2.1 (.bulkString ['k']) (.bulkString ['v']) (.bulkString "nx".toList)
      [.bulkString "pX".toList, .bulkString ['7']] [.bulkString "px".toList, .bulkString "+9".toList]
      (fun name h => by simp [items, IsPx, toUppercase, upperChar] at h) ⟨_, rfl⟩ (by decide),
    parseSetCommand_grammar.2.2 (.bulkString ['k']) (.bulkString ['v']) (.bulkString "PX".toList)
      (.bulkString "px".toList) [.bulkString "ex".toList]
      (fun name h => by simp [items, IsPx, toUppercase, upperChar] at h) (by decide) (by decide)⟩

end Rusdis
