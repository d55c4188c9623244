import Rusdis.Panics
/-!
# Counter — the quota counter of `parse_array`

`tracedLoop` is the line loop with the counters each turn starts from.  The counter is one more than the largest
surplus of a run of lines that ends where the loop is (`Reached`), so it leaves `i32` exactly where some run of lines
declares too many elements (`iterations_inRange_iff`).  A group that is parsed again is a run of lines already counted:
the text's own lines decide for every level (`counting_iff_bounded`).
-/
namespace Rusdis

open Fallible

/-- One turn of the line loop: the counters at its start and the quota it adds, none where the loop stops first. -/
structure Iteration where
  left : Int
  qoda : Int
  num  : Option Int

def InI32 (n : Int) : Prop := -2147483648 ≤ n ∧ n ≤ 2147483647

/-- The counter starts at one or more, and `qoda += num`, `qoda -= 1` and `left -= 1` do not overflow. -/
def Iteration.InRange (it : Iteration) : Prop :=
  1 ≤ it.qoda ∧ ∀ num ∈ it.num,
    InI32 (it.qoda + num) ∧ InI32 (it.qoda + num - 1) ∧ (it.qoda + num - 1 = 0 → InI32 (it.left - 1))

/-- `parseArrayLoop` with its turns. -/
def tracedLoop : Int → Int → List Char → List (List Char) →
    List Iteration × Except (Fault ParserError) (List (List Char))
  | _, _, _, [] => ([], .ok [])
  | left, qoda, tmp, p :: ps =>
    if left = 0 then ([⟨left, qoda, none⟩], .ok [])
    else
      match countQoda p with
      | .error e => ([⟨left, qoda, none⟩], .error e)
      | .ok num =>
        let it : Iteration := ⟨left, qoda, some num⟩
        let qoda := wrapI32 (wrapI32 (qoda + num) - 1)
        let tmp := tmp ++ p ++ crlf
        if qoda = 0 then
          if tmp = [] then
            let (its, protocolVec) := tracedLoop left 1 tmp ps
            (it :: its, protocolVec)
          else
            let (its, protocolVec) := tracedLoop (wrapI32 (left - 1)) 1 [] ps
            (it :: its, do return tmp :: (← protocolVec))
        else
          let (its, protocolVec) := tracedLoop left qoda tmp ps
          (it :: its, protocolVec)

theorem tracedLoop_snd : ∀ (lines : List (List Char)) (left qoda : Int) (tmp : List Char),
    (tracedLoop left qoda tmp lines).2 = parseArrayLoop left qoda tmp lines
  | [], _, _, _ => rfl
  | p :: ps, left, qoda, tmp => by
    rw [tracedLoop, parseArrayLoop]
    split
    · rfl
    · cases countQoda p with
      | error e => rfl
      | ok num =>
        simp only [ok_bind]
        split
        · split
          · exact tracedLoop_snd ps _ _ _
          · rw [tracedLoop_snd ps]
        · exact tracedLoop_snd ps _ _ _

theorem mem_tracedLoop {left num : Int} {p : List Char} (hleft : left ≠ 0) (hp : countQoda p = .ok num) (qoda : Int)
    (tmp : List Char) (ps : List (List Char)) : ⟨left, qoda, some num⟩ ∈ (tracedLoop left qoda tmp (p :: ps)).1 := by
  rw [tracedLoop, if_neg hleft, hp]
  dsimp only
  split
  · split <;> exact List.mem_cons_self
  · exact List.mem_cons_self

/-- The texts `parse` is called on while it reads `s`: `s` itself, and a group of one of them that starts an array,
the groups before it read. -/
inductive Called (s : List Char) : List Char → Prop
  | self : Called s s
  | group {t g : List Char} {pre post : List (List Char)} : Called s t → t.head? = some '*' →
      arrayGroups t = .ok (some (pre ++ g :: post)) → (∀ p ∈ pre, ∃ v, parse p = .ok v) → Called s g

/-- Every turn of the line loop is in range, where the array is read at all. -/
def Counting (t : List Char) : Prop :=
  ∀ head lines left, splitCrlf t = ('*' :: head) :: lines → parseI32 head = .ok left → 0 ≤ left →
    ∀ it ∈ (tracedLoop left 1 [] lines).1, it.InRange

/-! ## Runs of lines -/

/-- What the lines declare together. -/
def quotas (ls : List (List Char)) : Int := (ls.map lineQuota).sum

@[simp] theorem quotas_nil : quotas [] = 0 := rfl

@[simp] theorem quotas_cons (p : List Char) (ls : List (List Char)) : quotas (p :: ls) = lineQuota p + quotas ls := by
  simp [quotas]

@[simp] theorem quotas_append (ls ms : List (List Char)) : quotas (ls ++ ms) = quotas ls + quotas ms := by
  simp [quotas]

theorem lineQuota_nonneg (p : List Char) : 0 ≤ lineQuota p := by
  cases p with
  | nil => exact Int.le_refl 0
  | cons c t =>
    rw [lineQuota]
    split
    · exact (headerQuota_range c t).1
    · exact Int.le_refl 0

/-- After the lines `done`, `left` groups being declared, no run of lines up to one the loop reads declares too much.
The loop reads a line where the groups are not all filled before it, and no line up to it starts with a wide
character. -/
def ShortRuns (left : Int) (done lines : List (List Char)) : Prop :=
  ∀ pre p post, lines = pre ++ p :: post → (∀ l ∈ pre, ¬ Wide l) → ¬ Wide p →
    (∀ u, u <+: pre → ((done ++ u).length : Int) < left + quotas (done ++ u)) →
      ∀ run, run <:+ done ++ pre → quotas (run ++ [p]) ≤ (run ++ [p]).length + 2147483645

/-- No run of the text's lines declares too much. -/
def Bounded (t : List Char) : Prop :=
  ∀ head lines left, splitCrlf t = ('*' :: head) :: lines → parseI32 head = .ok left → 0 ≤ left →
    ShortRuns left [] lines

theorem shortRuns_nil (left : Int) (done : List (List Char)) : ShortRuns left done [] := by
  intro pre p post h
  cases pre <;> cases h

theorem shortRuns_cons {left : Int} {done ps : List (List Char)} {p : List Char} :
    ShortRuns left done (p :: ps) ↔ (¬ Wide p → (done.length : Int) < left + quotas done →
      (∀ run, run <:+ done → quotas (run ++ [p]) ≤ (run ++ [p]).length + 2147483645) ∧
        ShortRuns left (done ++ [p]) ps) := by
  constructor
  · intro h hp hdone
    refine ⟨fun run hrun => ?_, fun pre q post hps hpre hq hopen run hrun => ?_⟩
    · refine h [] p ps rfl (by simp) hp (fun u hu => ?_) run (by rwa [List.append_nil])
      rw [List.prefix_nil.1 hu, List.append_nil]
      exact hdone
    · refine h (p :: pre) q post (by rw [hps]; rfl) ?_ hq (fun u hu => ?_) run ?_
      · rw [List.forall_mem_cons]
        exact ⟨hp, hpre⟩
      · rcases List.prefix_cons_iff.1 hu with rfl | ⟨v, rfl, hv⟩
        · rw [List.append_nil]
          exact hdone
        · have := hopen v hv
          rwa [List.append_assoc] at this
      · rwa [List.append_assoc] at hrun
  · rintro h pre q post hps hpre hq hopen run hrun
    have hdone : (done.length : Int) < left + quotas done := by
      have := hopen [] List.nil_prefix
      rwa [List.append_nil] at this
    cases pre with
    | nil =>
      obtain ⟨rfl, rfl⟩ := List.cons.inj hps
      rw [List.append_nil] at hrun
      exact (h hq hdone).1 run hrun
    | cons p' pre =>
      obtain ⟨rfl, rfl⟩ := List.cons.inj hps
      rw [List.forall_mem_cons] at hpre
      refine (h hpre.1 hdone).2 pre q post rfl hpre.2 hq (fun u hu => ?_) run (by rwa [List.append_assoc])
      rw [List.append_assoc]
      exact hopen (p :: u) ((List.cons_prefix_cons).2 ⟨rfl, hu⟩)

/-! ## The counters after some lines -/

/-- The loop has read the lines `done`, `n` groups being declared, and no step overflowed: the counter is one more
than the largest surplus of a run that ends here, and the groups left are what the prefixes show. -/
structure Reached (n : Int) (done : List (List Char)) (left qoda : Int) : Prop where
  plain  : ∀ l ∈ done, ¬ Wide l
  isOpen : ∀ u, u <+: done → u ≠ done → (u.length : Int) < n + quotas u
  runs   : ∀ m : Int, (∀ run, run <:+ done → quotas run ≤ run.length + m) ↔ qoda - 1 ≤ m
  total  : quotas done + n = done.length + left + qoda - 1
  range  : 0 ≤ left ∧ left ≤ n
  full   : left = 0 → qoda = 1

namespace Reached

theorem start {n : Int} (hn : 0 ≤ n) : Reached n [] n 1 where
  plain  := by simp
  isOpen := fun u hu hne => absurd (List.prefix_nil.1 hu) hne
  runs   := fun m => by simp
  total  := by simp
  range  := ⟨hn, Int.le_refl n⟩
  full   := fun _ => rfl

variable {n : Int} {done : List (List Char)} {left qoda : Int} (h : Reached n done left qoda)
include h

theorem one_le : 1 ≤ qoda := by
  have hself := (h.runs (qoda - 1)).2 (Int.le_refl _) [] List.nil_suffix
  simp at hself
  omega

/-- The prefixes say whether the groups are all filled. -/
theorem lt_iff : (done.length : Int) < n + quotas done ↔ left ≠ 0 := by
  have := h.total
  have := h.range
  have := h.one_le
  constructor
  · rintro hlt rfl
    have := h.full rfl
    omega
  · omega

/-- **One line more**: it ends the group, or its quota stays. -/
theorem snoc {p : List Char} (hleft : left ≠ 0) (hp : ¬ Wide p) {left' qoda' : Int}
    (hnext : (qoda + lineQuota p - 1 = 0 ∧ left' = left - 1 ∧ qoda' = 1) ∨
      (qoda + lineQuota p - 1 ≠ 0 ∧ left' = left ∧ qoda' = qoda + lineQuota p - 1)) :
    Reached n (done ++ [p]) left' qoda' := by
  have hq := lineQuota_nonneg p
  have hone := h.one_le
  have hl := h.range
  have htotal := h.total
  refine ⟨?_, fun u hu hne => ?_, fun m => ?_, ?_, by omega, by omega⟩
  · intro l hl
    rcases List.mem_append.1 hl with hl | hl
    · exact h.plain l hl
    · rw [List.mem_singleton.1 hl]
      exact hp
  · rcases List.prefix_concat_iff.1 hu with rfl | hu
    · exact absurd rfl hne
    · by_cases he : u = done
      · rw [he]
        exact h.lt_iff.2 hleft
      · exact h.isOpen u hu he
  · -- a run that ends here is empty, or ends with the line
    have hrun := h.runs (m + 1 - lineQuota p)
    constructor
    · intro hall
      have h0 := hall [] List.nil_suffix
      have hprev := hrun.1 fun run hr => by
        have := hall (run ++ [p]) (List.suffix_concat_iff.2 (Or.inr ⟨run, rfl, hr⟩))
        simp at this
        omega
      simp at h0
      omega
    · intro hm run hr
      rcases List.suffix_concat_iff.1 hr with rfl | ⟨r, rfl, hr'⟩
      · simp
        omega
      · have := hrun.2 (by omega) r hr'
        simp
        omega
  · simp
    omega

end Reached

/-- **The loop stays in range exactly when no run of lines it reads declares too much.** -/
theorem iterations_inRange_iff {n : Int} (hn : n ≤ 2147483647) : ∀ (lines done : List (List Char)) (left qoda : Int)
    (tmp : List Char), Reached n done left qoda →
      ((∀ it ∈ (tracedLoop left qoda tmp lines).1, it.InRange) ↔ ShortRuns n done lines)
  | [], done, _, _, _, _ => ⟨fun _ => shortRuns_nil n done, fun _ it hit => by cases hit⟩
  | p :: ps, done, left, qoda, tmp, h => by
    have hone := h.one_le
    have hq := lineQuota_nonneg p
    have hl := h.range
    rw [shortRuns_cons, h.lt_iff]
    by_cases hleft : left = 0
    · rw [tracedLoop, if_pos hleft]
      simp [hleft, Iteration.InRange, hone]
    by_cases hp : Wide p
    · rw [tracedLoop, if_neg hleft, countQoda_of_wide p hp]
      simp [hp, Iteration.InRange, hone]
    have hnum := countQoda_of_not_wide p hp
    simp only [hp, hleft, not_false_eq_true, ne_eq, true_imp_iff]
    -- the addition overflows where the largest run before the line does
    have hruns : (∀ run, run <:+ done → quotas (run ++ [p]) ≤ (run ++ [p]).length + 2147483645) ↔
        qoda + lineQuota p ≤ 2147483647 := by
      have hm := h.runs (2147483646 - lineQuota p)
      constructor
      · intro hall
        have := hm.1 fun run hr => by
          have := hall run hr
          simp at this
          omega
        omega
      · intro hle run hr
        have := hm.2 (by omega) run hr
        simp
        omega
    rw [hruns]
    by_cases hover : qoda + lineQuota p ≤ 2147483647
    · have hin : Iteration.InRange ⟨left, qoda, some (lineQuota p)⟩ := by
        refine ⟨hone, fun num hnum => ?_⟩
        obtain rfl := Option.some.inj hnum
        unfold InI32
        exact ⟨by dsimp only; omega, by dsimp only; omega, fun _ => by dsimp only; omega⟩
      rw [tracedLoop, if_neg hleft, hnum]
      dsimp only
      rw [wrapI32_of_range (by omega) hover, wrapI32_of_range (by omega) (by omega),
        wrapI32_of_range (by omega : -2147483648 ≤ left - 1) (by omega)]
      by_cases hz : qoda + lineQuota p - 1 = 0
      · rw [if_pos hz, if_neg (by simp [crlf])]
        have ih := iterations_inRange_iff hn ps (done ++ [p]) (left - 1) 1 []
          (h.snoc hleft hp (Or.inl ⟨hz, rfl, rfl⟩))
        simp only [List.forall_mem_cons, hin, true_and, hover, ih]
      · rw [if_neg hz]
        have ih := iterations_inRange_iff hn ps (done ++ [p]) left (qoda + lineQuota p - 1) (tmp ++ p ++ crlf)
          (h.snoc hleft hp (Or.inr ⟨hz, rfl, rfl⟩))
        simp only [List.forall_mem_cons, hin, true_and, hover, ih]
    · have hout : ¬ Iteration.InRange ⟨left, qoda, some (lineQuota p)⟩ := fun hin =>
        hover (hin.2 (lineQuota p) rfl).1.2
      exact ⟨fun hall => absurd (hall _ (mem_tracedLoop hleft hnum qoda tmp ps)) hout, fun h => absurd h.1 hover⟩

theorem counting_iff_bounded (t : List Char) : Counting t ↔ Bounded t := by
  have hloop : ∀ {head : List Char} {left : Int} (lines : List (List Char)), parseI32 head = .ok left → 0 ≤ left →
      ((∀ it ∈ (tracedLoop left 1 [] lines).1, it.InRange) ↔ ShortRuns left [] lines) := fun lines ht hn =>
    iterations_inRange_iff (parseI32_range ht).2 lines [] _ 1 [] (Reached.start hn)
  constructor
  · intro h head lines left hs ht hn
    exact (hloop lines ht hn).1 (h head lines left hs ht hn)
  · intro h head lines left hs ht hn
    exact (hloop lines ht hn).2 (h head lines left hs ht hn)

/-! ## The groups of a text that is counted in range -/

/-- A group: consecutive lines the loop read, whose quotas are one less than their number. -/
def SegmentOf (n : Int) (lines : List (List Char)) (g : List Char) : Prop :=
  ∃ pre ls post, lines = pre ++ ls ++ post ∧ g = Lines.joinLines '\r' '\n' ls ∧ ls ≠ [] ∧
    quotas ls + 1 = ls.length ∧ (∀ l ∈ pre ++ ls, ¬ Wide l) ∧
      ∀ u, u <+: pre ++ ls → u ≠ pre ++ ls → (u.length : Int) < n + quotas u

/-- **Every group is a segment.** `cur` are the lines of the group begun. -/
theorem segmentOf_group {n : Int} (hn : n ≤ 2147483647) : ∀ (lines closed cur : List (List Char)) (left qoda : Int)
    (groups : List (List Char)), Reached n (closed ++ cur) left qoda → ShortRuns n (closed ++ cur) lines →
      quotas cur = cur.length + qoda - 1 →
        parseArrayLoop left qoda (Lines.joinLines '\r' '\n' cur) lines = .ok groups →
          ∀ g ∈ groups, SegmentOf n (closed ++ cur ++ lines) g
  | [], _, _, _, _, groups, _, _, _, hgs => by
    cases hgs
    simp
  | p :: ps, closed, cur, left, qoda, groups, h, hshort, hcur, hgs => by
    have hone := h.one_le
    have hq := lineQuota_nonneg p
    have hl := h.range
    by_cases hleft : left = 0
    · rw [hleft, parseArrayLoop_zero] at hgs
      cases hgs
      simp
    by_cases hp : Wide p
    · rw [parseArrayLoop, if_neg hleft, countQoda_of_wide p hp] at hgs
      cases hgs
    obtain ⟨hruns, hshort'⟩ := shortRuns_cons.1 hshort hp (h.lt_iff.2 hleft)
    have hle : qoda + lineQuota p ≤ 2147483647 := by
      have := (h.runs (2147483646 - lineQuota p)).1 fun run hr => by
        have := hruns run hr
        simp at this
        omega
      omega
    have hjoin : Lines.joinLines '\r' '\n' cur ++ p ++ crlf = Lines.joinLines '\r' '\n' (cur ++ [p]) := by
      rw [Lines.joinLines_append]
      simp [crlf]
    rw [parseArrayLoop_cons hleft (countQoda_of_not_wide p hp) (by omega) hle, hjoin] at hgs
    rw [show closed ++ cur ++ p :: ps = closed ++ cur ++ [p] ++ ps by simp]
    by_cases hz : qoda + lineQuota p - 1 = 0
    · have hnext := h.snoc hleft hp (Or.inl ⟨hz, rfl, rfl⟩)
      rw [hz, settle_zero, wrapI32_of_range (by omega) (by omega)] at hgs
      obtain ⟨gs, hrest, he⟩ := bind_eq_ok.1 hgs
      cases he
      have ih := segmentOf_group hn ps (closed ++ cur ++ [p]) [] (left - 1) 1 gs (by rwa [List.append_nil])
        (by rwa [List.append_nil]) (by simp) hrest
      intro g hg
      rcases List.mem_cons.1 hg with rfl | hg
      · refine ⟨closed, cur ++ [p], ps, by simp, rfl, by simp, ?_, ?_, ?_⟩
        · simp
          omega
        · rw [← List.append_assoc]
          exact hnext.plain
        · rw [← List.append_assoc]
          exact hnext.isOpen
      · have := ih g hg
        rwa [List.append_nil] at this
    · rw [settle_of_ne hz] at hgs
      have hnext := h.snoc hleft hp (Or.inr ⟨hz, rfl, rfl⟩)
      have ih := segmentOf_group hn ps closed (cur ++ [p]) left (qoda + lineQuota p - 1) groups
        (by rwa [← List.append_assoc]) (by rwa [← List.append_assoc]) (by simp; omega) hgs
      rwa [← List.append_assoc] at ih

/-- **A segment declares no more than the text it was cut from.** -/
theorem bounded_of_segment {n : Int} {lines : List (List Char)} {g : List Char} (hfree : ∀ l ∈ lines, NoCrlf l)
    (hshort : ShortRuns n [] lines) (hg : SegmentOf n lines g) : Bounded g := by
  obtain ⟨pre, ls, post, rfl, rfl, hne, hquotas, hplain, hopen⟩ := hg
  intro head lines' left hs ht hleft
  have hsplit : splitCrlf (Lines.joinLines '\r' '\n' ls) = ls ++ [[]] := by
    have := Lines.split_joinLines_append (a := '\r') (b := '\n') (by decide) [] ls fun l hl => hfree l (by simp [hl])
    rwa [List.append_nil] at this
  rw [hsplit] at hs
  cases ls with
  | nil => exact absurd rfl hne
  | cons first ms =>
    obtain ⟨rfl, rfl⟩ := List.cons.inj hs
    have hfirst : lineQuota ('*' :: head) = left := by
      rw [lineQuota, if_pos (Or.inr rfl), headerQuota_star_of_nonneg ht hleft]
    rw [quotas_cons, hfirst, List.length_cons] at hquotas
    intro pre' p post' hms hpre' hp hopen' run hrun
    rcases List.eq_nil_or_concat post' with rfl | ⟨post'', e, rfl⟩
    · -- the line past the group's end is not read: its groups are all filled
      obtain ⟨rfl, -⟩ := List.append_inj' hms rfl
      have := hopen' ms (List.prefix_refl ms)
      simp only [List.nil_append] at this
      push_cast at hquotas
      omega
    · have hms' : ms = pre' ++ p :: post'' := by
        have : ms ++ [[]] = (pre' ++ p :: post'') ++ [e] := by simpa using hms
        exact (List.append_inj' this rfl).1
      subst hms'
      refine hshort (pre ++ ('*' :: head) :: pre') p (post'' ++ post) (by simp) (fun l hl => ?_) hp (fun u hu => ?_)
        run ?_
      · refine hplain l ?_
        simp only [List.mem_append, List.mem_cons] at hl ⊢
        tauto
      · refine hopen u (hu.trans ⟨p :: post'', by simp⟩) fun he => ?_
        have := hu.length_le
        rw [he] at this
        simp at this
      · rw [List.nil_append] at hrun ⊢
        exact hrun.trans ⟨pre ++ [('*' :: head)], by simp⟩

theorem bounded_of_called {s t : List Char} (hs : Bounded s) (ht : Called s t) : Bounded t := by
  induction ht with
  | self => exact hs
  | @group t g pre post _ hhead hgroups _ ih =>
    obtain ⟨c, head, lines, left, hsplit, hleft, h0, hgs⟩ := arrayGroups_eq_some hgroups
    obtain ⟨u, rfl⟩ := exists_cons_of_splitCrlf hsplit
    obtain rfl : c = '*' := Option.some.inj hhead
    have hshort := ih head lines left hsplit hleft h0
    have hsegment := segmentOf_group (parseI32_range hleft).2 lines [] [] left 1 _ (Reached.start h0) hshort (by simp)
      hgs g (by simp)
    refine bounded_of_segment (fun l hl => ?_) hshort hsegment
    exact Lines.free_of_mem_split '\r' '\n' _ l (by rw [show Lines.split '\r' '\n' _ = _ from hsplit]; simp [hl])

/-- **The counter stays in range at every level exactly when no run of the text's lines declares too much.** -/
theorem counting_iff (s : List Char) : (∀ t, Called s t → Counting t) ↔ Bounded s :=
  ⟨fun h => (counting_iff_bounded s).1 (h s .self),
    fun h t ht => (counting_iff_bounded t).2 (bounded_of_called h ht)⟩

/-- One group declared, and in it the largest number an `i32` holds: one more than that overflows. -/
theorem counting_overflow : ¬ ∀ s t, Called s t → Counting t := by
  intro h
  have hs : splitCrlf "*1\r\n*2147483647\r\n".toList = ["*1".toList, "*2147483647".toList, []] := by decide +kernel
  have hnum : countQoda "*2147483647".toList = .ok 2147483647 := by decide +kernel
  have hcounting := h _ _ .self "1".toList ["*2147483647".toList, []] 1 hs (by decide) (by decide)
    ⟨1, 1, some 2147483647⟩ (mem_tracedLoop (by decide) hnum _ _ _)
  exact absurd (hcounting.2 2147483647 rfl).1.2 (by decide)

end Rusdis
