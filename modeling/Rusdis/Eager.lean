import Mathlib.Data.Set.Basic
import Rusdis.Session
/-!
# Eager — lazy expiry against eager expiry

`purge` removes every entry expired at a time.  A run from a map and a run from the purged map give the same replies,
those of `KEYS` as sets, as long as no `INCR` and no `KEYS` meets an entry that was to be removed (`lazy_eq_eager`).
-/
namespace Rusdis

open Decimal (intText natText)

/-- The map without what has expired at `t`. -/
def purge (t : SystemTime) (m : DataMap) : DataMap :=
  ⟨m.entries.filter (fun e => !e.2.isExpired t), m.nodupKeys.sublist List.filter_sublist⟩

theorem lookup_purge (t : SystemTime) (m : DataMap) (key : List Char) :
    (purge t m).lookup key = (m.lookup key).filter (fun d => !d.isExpired t) := by
  apply Option.ext
  intro d
  rw [Option.filter_eq_some_iff, ← Option.mem_def, AList.mem_lookup_iff, ← Option.mem_def, AList.mem_lookup_iff]
  exact List.mem_filter

theorem StringData.isExpired_mono {t now : SystemTime} {d : StringData} (h : t ≤ now) (hd : d.isExpired t = true) :
    d.isExpired now = true := by
  unfold StringData.isExpired at hd ⊢
  cases he : d.expiration with
  | none => rw [he] at hd; cases hd
  | some e =>
    rw [he] at hd
    exact decide_eq_true (Int.le_trans (of_decide_eq_true hd) h)

/-- The entries of `m` are those of `m'`, and for the stale keys more that had expired at `t`. -/
def Lingers (t : SystemTime) (stale : Set (List Char)) (m m' : DataMap) : Prop :=
  ∀ key, (key ∈ stale ∧ m'.lookup key = none ∧ ∃ d, m.lookup key = some d ∧ d.isExpired t = true) ∨
    (key ∉ stale ∧ m.lookup key = m'.lookup key)

/-- The keys whose entries have expired at `t`. -/
def expired (t : SystemTime) (m : DataMap) : Set (List Char) :=
  {key | ∃ d, m.lookup key = some d ∧ d.isExpired t = true}

theorem lingers_purge (t : SystemTime) (m : DataMap) : Lingers t (expired t m) m (purge t m) := by
  intro key
  rw [lookup_purge]
  cases hd : m.lookup key with
  | none =>
    refine Or.inr ⟨fun ⟨d, h, _⟩ => ?_, rfl⟩
    rw [hd] at h
    cases h
  | some d =>
    cases he : d.isExpired t with
    | true => exact Or.inl ⟨⟨d, hd, he⟩, by simp [Option.filter, he], d, rfl, he⟩
    | false =>
      refine Or.inr ⟨fun ⟨d', h, h'⟩ => ?_, by simp [Option.filter, he]⟩
      rw [hd] at h
      cases h
      rw [he] at h'
      cases h'

/-! ## What a command does to the stale keys -/

/-- The stale keys left after a command: a stored `SET` and a `GET` clear theirs. -/
def staleAfter (c : SystemTime × Command) (stale : Set (List Char)) : Set (List Char) :=
  match c.2 with
  | .set key _ px => if setExpiration c.1 px = none then stale else stale \ {key}
  | .get key      => stale \ {key}
  | _             => stale

section
variable (regex : List Char → Option (List Char → Bool))

/-- The command reads no stale entry without looking at its expiry. -/
def Spares (stale : Set (List Char)) : Command → Prop
  | .incr key     => key ∉ stale
  | .keys pattern => ∀ p, regex pattern = some p → ∀ key ∈ stale, p key = false
  | _             => True

def SparesAll (stale : Set (List Char)) : List (SystemTime × Command) → Prop
  | []      => True
  | c :: cs => Spares regex stale c.2 ∧ SparesAll (staleAfter c stale) cs

/-- The reply to a `KEYS` that matches these keys. -/
def keysReply (keys : List (List Char)) : List Char :=
  ['*'] ++ natText keys.length ++ crlf ++ keys.flatMap encodeBulk

/-- One reply is the other, or the reply to `KEYS` with its keys in another order. -/
def SameReply (cmd : Command) (r r' : List Char) : Prop :=
  r = r' ∨ (∃ pattern, cmd = .keys pattern) ∧ ∃ keys keys', List.Perm keys keys' ∧ r = keysReply keys ∧
    r' = keysReply keys'

def SameReplies : List (SystemTime × Command) → List (List Char) → List (List Char) → Prop
  | [],      [],      []        => True
  | c :: cs, r :: rs, r' :: rs' => SameReply c.2 r r' ∧ SameReplies cs rs rs'
  | _,       _,       _         => False

/-! ## One command -/

theorem propagate_with_map (cmd : Command) (σ : Server) (m : DataMap) :
    Server.propagate cmd { σ with map := m } = { σ.propagate cmd with map := m } := by
  unfold Server.propagate
  split <;> rfl

variable {t now : SystemTime} {stale : Set (List Char)} {m m' : DataMap}

theorem Lingers.lookup (h : Lingers t stale m m') {key : List Char} (hkey : key ∉ stale) :
    m.lookup key = m'.lookup key := ((h key).resolve_left (fun hs => hkey hs.1)).2

/-- A key that now reads the same in both is stale no more, and nothing else has changed. -/
theorem Lingers.change (h : Lingers t stale m m') {n n' : DataMap} {key : List Char}
    (hkey : n.lookup key = n'.lookup key) (hm : ∀ key' ≠ key, n.lookup key' = m.lookup key')
    (hm' : ∀ key' ≠ key, n'.lookup key' = m'.lookup key') : Lingers t (stale \ {key}) n n' := by
  intro key'
  by_cases hk : key' = key
  · subst hk
    exact Or.inr ⟨fun hs => hs.2 rfl, hkey⟩
  · rw [hm key' hk, hm' key' hk]
    exact (h key').imp (fun hs => ⟨⟨hs.1, hk⟩, hs.2⟩) (fun hs => ⟨fun hs' => hs.1 hs'.1, hs.2⟩)

theorem Lingers.insert (h : Lingers t stale m m') (key : List Char) (d : StringData) :
    Lingers t (stale \ {key}) (m.insert key d) (m'.insert key d) :=
  h.change (by rw [AList.lookup_insert, AList.lookup_insert]) (fun _ hk => AList.lookup_insert_ne hk)
    (fun _ hk => AList.lookup_insert_ne hk)

theorem Lingers.erase (h : Lingers t stale m m') (key : List Char) :
    Lingers t (stale \ {key}) (m.erase key) (m'.erase key) :=
  h.change (by rw [AList.lookup_erase, AList.lookup_erase]) (fun _ hk => AList.lookup_erase_ne hk)
    (fun _ hk => AList.lookup_erase_ne hk)

theorem Lingers.erase_missing (h : Lingers t stale m m') {key : List Char} (hnone : m'.lookup key = none) :
    Lingers t (stale \ {key}) (m.erase key) m' :=
  h.change (by rw [AList.lookup_erase, hnone]) (fun _ hk => AList.lookup_erase_ne hk) (fun _ _ => rfl)

/-- A key that is not stale may be taken off the stale ones. -/
theorem Lingers.diff (h : Lingers t stale m m') {key : List Char} (hkey : key ∉ stale) :
    Lingers t (stale \ {key}) m m' := by
  rwa [Set.sdiff_singleton_eq_self hkey]

/-- **A pattern that meets no stale key lists the same keys.** -/
theorem Lingers.keys (h : Lingers t stale m m') {p : List Char → Bool} (hp : ∀ key ∈ stale, p key = false) :
    List.Perm (m.keys.filter p) (m'.keys.filter p) := by
  refine (List.perm_ext_iff_of_nodup (m.keys_nodup.filter p) (m'.keys_nodup.filter p)).2 (fun key => ?_)
  rw [List.mem_filter, List.mem_filter, ← AList.mem_keys, ← AList.mem_keys, ← AList.lookup_isSome,
    ← AList.lookup_isSome]
  by_cases hkey : key ∈ stale
  · rw [hp key hkey]
    simp
  · rw [h.lookup hkey]

theorem lingers_orInsert (h : Lingers t stale m m') {key : List Char} (hkey : key ∉ stale) (d : StringData) :
    (orInsert key d m).2 = (orInsert key d m').2 ∧ Lingers t stale (orInsert key d m).1 (orInsert key d m').1 := by
  unfold orInsert
  rw [h.lookup hkey]
  split
  · exact ⟨rfl, h⟩
  · have hinsert := h.insert key d
    rw [Set.sdiff_singleton_eq_self hkey] at hinsert
    exact ⟨rfl, hinsert⟩

/-- Two servers alike but for their maps. -/
structure Alike (t : SystemTime) (stale : Set (List Char)) (σ σ' : Server) : Prop where
  others : σ' = { σ with map := σ'.map }
  lingers : Lingers t stale σ.map σ'.map

theorem Alike.with_map {σ σ' : Server} (h : Alike t stale σ σ') {stale' : Set (List Char)}
    (hl : Lingers t stale' m m') : Alike t stale' { σ with map := m } { σ' with map := m' } :=
  ⟨by rw [h.others], hl⟩

theorem executeSet_alike {σ σ' : Server} (h : Alike t stale σ σ') (key value : List Char) (px : Option UInt64) :
    (executeSet now key value px σ).2 = (executeSet now key value px σ').2 ∧
      Alike t (staleAfter (now, .set key value px) stale) (executeSet now key value px σ).1
        (executeSet now key value px σ').1 := by
  simp only [executeSet, staleAfter]
  cases setExpiration now px with
  | none => exact ⟨rfl, h.others, h.lingers⟩
  | some e =>
    have hstore : σ'.store key ⟨value, e⟩ =
        { σ.store key ⟨value, e⟩ with map := σ'.map.insert key ⟨value, e⟩ } := by rw [h.others]; rfl
    refine ⟨rfl, ?_, ?_⟩
    · simp only
      rw [propagate_map, hstore, propagate_with_map]
    · simp only
      rw [propagate_map, propagate_map]
      exact h.lingers.insert key _

theorem executeGet_alike {σ σ' : Server} (h : Alike t stale σ σ') (hnow : t ≤ now) (key : List Char) :
    (executeGet now key σ).2 = (executeGet now key σ').2 ∧
      Alike t (stale \ {key}) (executeGet now key σ).1 (executeGet now key σ').1 := by
  by_cases hkey : key ∈ stale
  · obtain ⟨-, hnone, d, hd, hexpired⟩ := (h.lingers key).resolve_right (fun hs => hs.1 hkey)
    have hget : executeGet now key σ = ({ σ with map := σ.map.erase key }, "$-1\r\n".toList) := by
      simp only [executeGet, hd, StringData.isExpired_mono hnow hexpired, if_true]
    have hget' : executeGet now key σ' = (σ', "$-1\r\n".toList) := by simp only [executeGet, hnone]
    rw [hget, hget']
    exact ⟨rfl, h.with_map (h.lingers.erase_missing hnone)⟩
  · simp only [executeGet]
    rw [h.lingers.lookup hkey]
    cases hd : σ'.map.lookup key with
    | none => exact ⟨rfl, h.others, h.lingers.diff hkey⟩
    | some d =>
      simp only
      cases d.isExpired now with
      | true => exact ⟨rfl, h.with_map (h.lingers.erase key)⟩
      | false => exact ⟨rfl, h.with_map (h.lingers.diff hkey)⟩

theorem executeIncr_alike {σ σ' : Server} (h : Alike t stale σ σ') {key : List Char} (hkey : key ∉ stale) :
    (executeIncr key σ).2 = (executeIncr key σ').2 ∧
      Alike t stale (executeIncr key σ).1 (executeIncr key σ').1 := by
  obtain ⟨hd, hl⟩ := lingers_orInsert h.lingers hkey ⟨['0'], none⟩
  simp only [executeIncr]
  rw [hd]
  cases parseI64 (orInsert key ⟨['0'], none⟩ σ'.map).2.data with
  | ok num =>
    have hinsert := hl.insert key ((orInsert key ⟨['0'], none⟩ σ'.map).2.setData
      (intText (if num < 9223372036854775807 then num + 1 else num)))
    rw [Set.sdiff_singleton_eq_self hkey] at hinsert
    exact ⟨rfl, h.with_map hinsert⟩
  | error e => exact ⟨rfl, h.with_map hl⟩

/-- **A command that spares the stale keys replies alike and leaves the servers alike.** -/
theorem execute_alike {σ σ' : Server} (h : Alike t stale σ σ') (hnow : t ≤ now) {cmd : Command}
    (hspares : Spares regex stale cmd) :
    SameReply cmd (execute regex now cmd σ).2 (execute regex now cmd σ').2 ∧
      Alike t (staleAfter (now, cmd) stale) (execute regex now cmd σ).1 (execute regex now cmd σ').1 := by
  cases cmd with
  | set key value px => exact (executeSet_alike h key value px).imp Or.inl id
  | get key => exact (executeGet_alike h hnow key).imp Or.inl id
  | incr key => exact (executeIncr_alike h hspares).imp Or.inl id
  | keys pattern =>
    refine ⟨?_, h⟩
    simp only [execute, executeKeys]
    cases hp : regex pattern with
    | none => exact Or.inl rfl
    | some p => exact Or.inr ⟨⟨pattern, rfl⟩, _, _, h.lingers.keys (hspares p hp), rfl, rfl⟩
  | replconf sub =>
    refine ⟨Or.inl ?_, h⟩
    rw [h.others]
    cases sub <;> rfl
  | _ =>
    refine ⟨Or.inl ?_, h⟩
    rw [h.others]
    rfl

/-! ## Whole runs -/

/-- Requests run one after the other, each a command alone or the queue of an `EXEC`, and their replies. -/
def executeBatches : List (Bool × List (SystemTime × Command)) → Server → Server × List (List Char)
  | [],                 σ => (σ, [])
  | (isMulti, cs) :: bs, σ =>
    let (σ, reply) := executeMultiCommands regex cs isMulti σ
    let (σ, replies) := executeBatches bs σ
    (σ, reply :: replies)

/-- The replies of a batch are the same, command by command. -/
def SameBatch (b : Bool × List (SystemTime × Command)) (reply reply' : List Char) : Prop :=
  ∃ rs rs', SameReplies b.2 rs rs' ∧
    reply = (if b.1 then ['*'] ++ natText b.2.length ++ crlf else []) ++ rs.flatten ∧
      reply' = (if b.1 then ['*'] ++ natText b.2.length ++ crlf else []) ++ rs'.flatten

def SameBatches : List (Bool × List (SystemTime × Command)) → List (List Char) → List (List Char) → Prop
  | [],      [],      []        => True
  | b :: bs, r :: rs, r' :: rs' => SameBatch b r r' ∧ SameBatches bs rs rs'
  | _,       _,       _         => False

def staleAll (cs : List (SystemTime × Command)) (stale : Set (List Char)) : Set (List Char) :=
  cs.foldl (fun stale c => staleAfter c stale) stale

theorem sparesAll_append : ∀ (cs ds : List (SystemTime × Command)) (stale : Set (List Char)),
    SparesAll regex stale (cs ++ ds) ↔ SparesAll regex stale cs ∧ SparesAll regex (staleAll cs stale) ds
  | [], ds, stale => by simp [SparesAll, staleAll]
  | c :: cs, ds, stale => by
    rw [List.cons_append, SparesAll, SparesAll, sparesAll_append cs ds, staleAll, staleAll, List.foldl_cons, and_assoc]

theorem singly_alike : ∀ (cs : List (SystemTime × Command)) {stale : Set (List Char)} {σ σ' : Server},
    Alike t stale σ σ' → (∀ c ∈ cs, t ≤ c.1) → SparesAll regex stale cs →
      SameReplies cs (singly regex cs σ).2 (singly regex cs σ').2 ∧
        Alike t (staleAll cs stale) (singly regex cs σ).1 (singly regex cs σ').1
  | [], _, _, _, h, _, _ => ⟨trivial, h⟩
  | (now, cmd) :: cs, _, _, _, h, hnow, ⟨hspares, hrest⟩ => by
    obtain ⟨hreply, halike⟩ := execute_alike regex h (hnow _ List.mem_cons_self) hspares
    obtain ⟨hreplies, hend⟩ := singly_alike cs halike (fun c hc => hnow c (List.mem_cons_of_mem _ hc)) hrest
    rw [singly_cons, singly_cons]
    exact ⟨⟨hreply, hreplies⟩, hend⟩

theorem executeBatches_alike : ∀ (bs : List (Bool × List (SystemTime × Command))) {stale : Set (List Char)}
    {σ σ' : Server}, Alike t stale σ σ' → (∀ b ∈ bs, ∀ c ∈ b.2, t ≤ c.1) →
      SparesAll regex stale (bs.flatMap Prod.snd) →
        SameBatches bs (executeBatches regex bs σ).2 (executeBatches regex bs σ').2
  | [], _, _, _, _, _, _ => trivial
  | (isMulti, cs) :: bs, _, σ, σ', h, hnow, hspares => by
    rw [List.flatMap_cons, sparesAll_append] at hspares
    obtain ⟨hreplies, hend⟩ := singly_alike regex cs h (hnow _ List.mem_cons_self) hspares.1
    have ih := executeBatches_alike bs hend (fun b hb => hnow b (List.mem_cons_of_mem _ hb)) hspares.2
    have hbatch : ∀ σ : Server, executeMultiCommands regex cs isMulti σ = ((singly regex cs σ).1,
        (if isMulti then ['*'] ++ natText cs.length ++ crlf else []) ++ (singly regex cs σ).2.flatten) := by
      intro σ
      rw [executeMultiCommands, executeAll_singly]
    simp only [executeBatches, hbatch]
    exact ⟨⟨_, _, hreplies, rfl, rfl⟩, ih⟩

/-- **Lazy expiry is eager expiry**, for a run that spares the entries already expired at its start. -/
theorem lazy_eq_eager (t : SystemTime) (bs : List (Bool × List (SystemTime × Command))) (σ : Server)
    (hnow : ∀ b ∈ bs, ∀ c ∈ b.2, t ≤ c.1) (hspares : SparesAll regex (expired t σ.map) (bs.flatMap Prod.snd)) :
    SameBatches bs (executeBatches regex bs σ).2 (executeBatches regex bs { σ with map := purge t σ.map }).2 :=
  executeBatches_alike regex bs ⟨rfl, lingers_purge t σ.map⟩ hnow hspares

end

/-- A server that holds one entry, expired from the first. -/
def Server.stale : Server := { Server.start .master 0 with map := (∅ : DataMap).insert ['k'] ⟨['5'], some 0⟩ }

/-- The expired entry is read by a `GET`, set, and then counted. -/
theorem lazy_eq_eager_three : SameBatches
    [(false, [(1, .get ['k'])]), (true, [(2, .set ['k'] ['7'] none), (3, .incr ['k'])])]
    (executeBatches (fun _ => none) [(false, [(1, .get ['k'])]), (true, [(2, .set ['k'] ['7'] none), (3, .incr ['k'])])]
      Server.stale).2
    (executeBatches (fun _ => none) [(false, [(1, .get ['k'])]), (true, [(2, .set ['k'] ['7'] none), (3, .incr ['k'])])]
      { Server.stale with map := purge 0 Server.stale.map }).2 := by
  refine lazy_eq_eager (fun _ => none) 0 _ Server.stale (by decide) ⟨trivial, trivial, ?_, trivial⟩
  simp [Spares, staleAfter, setExpiration]

theorem sameReplies_single {now : SystemTime} {cmd : Command} : ∀ {rs rs' : List (List Char)},
    SameReplies [(now, cmd)] rs rs' → rs = rs' ∨ ∃ pattern, cmd = .keys pattern
  | [_], [_], ⟨hreply, _⟩ => hreply.imp (congrArg (fun r => [r])) And.left
  | [], _, h | [_], [], h | _ :: _ :: _, [], h => by cases h
  | [_], _ :: _ :: _, h | _ :: _ :: _, _ :: _, h => by cases h.2

/-- An `INCR` counts on from the expired entry. -/
theorem lazy_eq_eager_incr : ¬ ∀ (regex : List Char → Option (List Char → Bool)) (t : SystemTime)
    (bs : List (Bool × List (SystemTime × Command))) (σ : Server), (∀ b ∈ bs, ∀ c ∈ b.2, t ≤ c.1) →
      ((bs.flatMap Prod.snd).map Prod.fst).Pairwise (· ≤ ·) →
        SameBatches bs (executeBatches regex bs σ).2 (executeBatches regex bs { σ with map := purge t σ.map }).2 := by
  intro h
  have hincr := h (fun _ => none) 0 [(false, [(1, .incr ['k'])])] Server.stale (by decide) (by simp)
  obtain ⟨⟨rs, rs', hsame, hr, hr'⟩, -⟩ := hincr
  rcases sameReplies_single hsame with rfl | ⟨_, hkeys⟩
  · exact absurd (hr.trans hr'.symm) (by decide +kernel)
  · cases hkeys

end Rusdis
