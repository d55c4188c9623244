import Rusdis.Execute
import Rusdis.MultiArray
/-!
# Replica — the loop `connect_master` leaves behind

Each read of the replication stream is decoded and executed by itself.  A run whose reads hold whole frames executes
their commands in order, however the frames are grouped (`replica_groups`); the replication offset counts nine bytes
too few for every `SET` (`offset_iff`).
-/
namespace Rusdis

open Fallible Utf8
open Decimal (natText)

def setLength (key value : List Char) (px : Option UInt64) : Nat :=
  4 + (byteLen key + byteLen (natText (byteLen key)) + 5) + (byteLen value + byteLen (natText (byteLen value)) + 5) +
    match px with
    | some millis =>
      let millisString := natText millis.toNat
      8 + byteLen millisString + byteLen (natText (byteLen millisString)) + 5
    | none => 0

def Server.incrementOffset (num : UInt64) (σ : Server) : Server :=
  { σ with replicationInfo := σ.replicationInfo.incrementOffset num }

/-- The replica's task: its server, the commands it has executed, what it has written to the master. -/
structure Replica where
  server : Server
  executed : List Command
  written : List UInt8
  running : Bool

section
variable (regex : List Char → Option (List Char → Bool)) (clock : Nat → SystemTime)

/-- One value of a decoded read; `clock n` is the time at which the task executes its command number `n`. -/
def replicaValue (r : Replica) : Value → Replica
  | .array bulkStringVec =>
    match parseCommand bulkStringVec with
    | .ok cmd =>
      let (server, replyMsg) := executeMultiCommands regex [(clock r.executed.length, cmd)] false r.server
      let r := { r with server, executed := r.executed ++ [cmd] }
      match cmd with
      | .replconf (.getack _) => { r with written := r.written ++ encode replyMsg }
      | .set key value px =>
        { r with server := r.server.incrementOffset (UInt64.ofNat (setLength key value px)) }
      | _ => r
    | .error _ => r
  | _ => r

/-- One turn of the loop: the end of the stream and a panic end the task, a read that does not parse is dropped. -/
def replicaRead (r : Replica) (buf : List UInt8) : Replica :=
  if r.running = false then r
  else if buf = [] then { r with running := false }
  else match parseMultiArray (decodeLossy buf) with
    | .ok arrayVec    => arrayVec.foldl (replicaValue regex clock) r
    | .error .panic   => { r with running := false }
    | .error (.err _) => r

/-! ## Decoded commands -/

theorem replicaValue_set (r : Replica) {xs : List Value} {key value : List Char} {px : Option UInt64}
    (h : parseCommand xs = .ok (.set key value px)) :
    replicaValue regex clock r (.array xs) =
      { r with
        server := ((execute regex (clock r.executed.length) (.set key value px) r.server).1).incrementOffset
          (UInt64.ofNat (setLength key value px))
        executed := r.executed ++ [.set key value px] } := by
  rw [replicaValue, h]
  rfl

/-- **Decoded `SET`s are executed, each once and in order.** -/
theorem executed_values {xss : List (List Value)} {cs : List Command}
    (h : List.Forall₂ (fun xs c => parseCommand xs = .ok c) xss cs) (hset : ∀ c ∈ cs, IsSet c) : ∀ (r : Replica),
      ((xss.map .array).foldl (replicaValue regex clock) r).executed = r.executed ++ cs ∧
        ((xss.map .array).foldl (replicaValue regex clock) r).running = r.running := by
  induction h with
  | nil => intro r; simp
  | @cons xs c xss cs hx hxs ih =>
    intro r
    obtain ⟨key, value, px, rfl⟩ := hset c (by simp)
    rw [List.map_cons, List.foldl_cons, replicaValue_set regex clock r hx]
    obtain ⟨hexec, hrun⟩ := ih (fun c hc => hset c (by simp [hc])) _
    exact ⟨by rw [hexec, List.append_assoc, List.singleton_append], hrun⟩

/-! ## The offset -/

theorem byteLen_encodeBulk (a : List Char) : byteLen (encodeBulk a) = byteLen a + byteLen (natText (byteLen a)) + 5 := by
  simp only [encodeBulk, crlf, byteLen_append, byteLen_cons, byteLen_nil]
  rw [show '$'.utf8Size = 1 from rfl, show '\r'.utf8Size = 1 from rfl, show '\n'.utf8Size = 1 from rfl]
  omega

/-- **Nine bytes of every frame are not counted**: those of the word `set`. -/
theorem byteLen_generateResp (key value : List Char) (px : Option UInt64) :
    byteLen (generateResp (.set key value px)) = setLength key value px + 9 := by
  have hhead : byteLen crlf = 2 := rfl
  have hset : byteLen (encodeBulk "set".toList) = 9 := by decide
  cases px with
  | none =>
    have hn : byteLen ('*' :: natText 3) = 2 := by decide
    rw [generateResp_set, encodeRequest]
    simp only [setWords, pxWords, List.flatMap_cons, List.flatMap_nil, byteLen_append, byteLen_encodeBulk key,
      byteLen_encodeBulk value, hset, hhead, byteLen_nil, setLength, List.length_cons, List.length_nil]
    rw [hn]
    omega
  | some millis =>
    have hn : byteLen ('*' :: natText 5) = 2 := by decide
    have hpx : byteLen (encodeBulk "px".toList) = 8 := by decide
    rw [generateResp_set, encodeRequest]
    simp only [setWords, pxWords, List.flatMap_cons, List.flatMap_nil, byteLen_append, byteLen_encodeBulk key,
      byteLen_encodeBulk value, byteLen_encodeBulk (natText millis.toNat), hset, hpx, hhead, byteLen_nil, setLength,
      List.length_cons, List.length_nil]
    rw [hn]
    omega

def Replica.offset (r : Replica) : UInt64 := r.server.replicationInfo.masterReplOffset

theorem offset_values {xss : List (List Value)} {cs : List Command}
    (h : List.Forall₂ (fun xs c => parseCommand xs = .ok c) xss cs) (hset : ∀ c ∈ cs, IsSet c) : ∀ (r : Replica),
      ((xss.map .array).foldl (replicaValue regex clock) r).offset + UInt64.ofNat (9 * cs.length) =
        r.offset + UInt64.ofNat (byteLen (cs.flatMap generateResp)) := by
  induction h with
  | nil => intro r; rfl
  | @cons xs c xss cs hx hxs ih =>
    intro r
    obtain ⟨key, value, px, rfl⟩ := hset c (by simp)
    have hstep : (replicaValue regex clock r (.array xs)).offset = r.offset + UInt64.ofNat (setLength key value px) := by
      rw [replicaValue_set regex clock r hx, Replica.offset, Server.incrementOffset, ReplicationInfo.incrementOffset,
        (execute_frame regex _ _ _).2.1]
      rfl
    have ih := ih (fun c hc => hset c (by simp [hc])) (replicaValue regex clock r (.array xs))
    rw [List.map_cons, List.foldl_cons, List.length_cons, Nat.mul_add, UInt64.ofNat_add, ← UInt64.add_assoc, ih, hstep,
      List.flatMap_cons, byteLen_append, byteLen_generateResp, UInt64.ofNat_add, UInt64.ofNat_add]
    ac_rfl

theorem ofNat_nine_mul (n : Nat) : UInt64.ofNat (9 * n) = 0 ↔ n % 18446744073709551616 = 0 := by
  have hcoprime : Nat.Coprime 18446744073709551616 9 := by decide +kernel
  have hdvd : 18446744073709551616 ∣ 9 * n ↔ 18446744073709551616 ∣ n := ⟨hcoprime.dvd_of_dvd_mul_left, fun h => h.mul_left 9⟩
  rw [Nat.dvd_iff_mod_eq_zero, Nat.dvd_iff_mod_eq_zero] at hdvd
  rw [← hdvd, ← UInt64.toNat_inj]
  exact Iff.rfl

/-- **The offset is the number of bytes consumed only when no `SET` was**, up to the width of the counter. -/
theorem offset_iff {xss : List (List Value)} {cs : List Command} (r : Replica)
    (hdecode : xss.mapM parseCommand = .ok cs) (hset : ∀ c ∈ cs, IsSet c) :
    ((xss.map .array).foldl (replicaValue regex clock) r).offset =
        r.offset + UInt64.ofNat (byteLen (cs.flatMap generateResp)) ↔ cs.length % 18446744073709551616 = 0 := by
  rw [← offset_values regex clock (mapM_eq_ok.1 hdecode) hset r, ← ofNat_nine_mul, eq_comm]
  exact UInt64.add_eq_left

end

def Replica.start : Replica := ⟨Server.start .slave 0, [], [], true⟩

/-- One `SET` of one key: 27 bytes came, 18 are counted. -/
theorem offset_one : (([["set".toList, ['k'], ['v']].map .bulkString].map .array).foldl
      (replicaValue (fun _ => none) (fun _ => 0)) Replica.start).offset ≠
    Replica.start.offset + UInt64.ofNat (byteLen ([Command.set ['k'] ['v'] none].flatMap generateResp)) :=
  fun h => absurd ((offset_iff _ _ _ (by decide) (by simp [IsSet])).1 h) (by decide)

theorem offset_short : ¬ ∀ (regex : List Char → Option (List Char → Bool)) (clock : Nat → SystemTime)
    (xss : List (List Value)) (cs : List Command) (r : Replica),
      parseMultiArray (cs.flatMap generateResp) = .ok (xss.map .array) → xss.mapM parseCommand = .ok cs →
        (∀ c ∈ cs, IsSet c) → ((xss.map .array).foldl (replicaValue regex clock) r).offset =
          r.offset + UInt64.ofNat (byteLen (cs.flatMap generateResp)) := by
  intro h
  have hone := h (fun _ => none) (fun _ => 0) [["set".toList, ['k'], ['v']].map .bulkString]
    [.set ['k'] ['v'] none] Replica.start (by decide +kernel) (by decide) (by simp [IsSet])
  revert hone
  decide +kernel

/-! ## Whole frames in every read -/

section
variable (regex : List Char → Option (List Char → Bool)) (clock : Nat → SystemTime)

/-- The clock can hold the expiry of every command, the first being command number `n`. -/
def Holdables : Nat → List Command → Prop
  | _, []      => True
  | n, c :: cs => Holdable (clock n, c) ∧ Holdables (n + 1) cs

theorem holdables_append : ∀ (as bs : List Command) (n : Nat),
    Holdables clock n (as ++ bs) ↔ Holdables clock n as ∧ Holdables clock (n + as.length) bs
  | [], bs, n => by simp [Holdables]
  | a :: as, bs, n => by
    rw [List.cons_append, Holdables, Holdables, holdables_append as bs (n + 1), and_assoc, List.length_cons,
      Nat.add_right_comm, Nat.add_assoc]

def putText (t : List Char → Option (List Char)) : Command → List Char → Option (List Char)
  | .set key value _ => Function.update t key (some value)
  | _                => t

/-- **The texts after decoded `SET`s do not depend on when they were executed.** -/
theorem texts_values {xss : List (List Value)} {cs : List Command}
    (h : List.Forall₂ (fun xs c => parseCommand xs = .ok c) xss cs) (hset : ∀ c ∈ cs, IsSet c) : ∀ (r : Replica),
      Holdables clock r.executed.length cs →
        texts ((xss.map .array).foldl (replicaValue regex clock) r).server.map = cs.foldl putText (texts r.server.map) := by
  induction h with
  | nil => intro r _; rfl
  | @cons xs c xss cs hx hxs ih =>
    intro r hclock
    obtain ⟨key, value, px, rfl⟩ := hset c (by simp)
    obtain ⟨e, -, hmap⟩ := execute_holdable regex r.server hclock.1
    have hstep : texts (replicaValue regex clock r (.array xs)).server.map = putText (texts r.server.map) (.set key value px) := by
      rw [replicaValue_set regex clock r hx]
      show texts (execute regex _ _ _).1.map = _
      rw [hmap, texts, view_insert]
      rfl
    have hlen : (replicaValue regex clock r (.array xs)).executed.length = r.executed.length + 1 := by
      rw [replicaValue_set regex clock r hx, List.length_append]; rfl
    rw [List.map_cons, List.foldl_cons, List.foldl_cons, ← hstep]
    exact ih (fun c hc => hset c (by simp [hc])) _ (by rw [hlen]; exact hclock.2)

def groupBytes (g : List Command) : List UInt8 := encode (g.flatMap generateResp)

/-- A read of whole frames that the replica can decode. -/
structure WholeGroup (g : List Command) : Prop where
  nonempty   : g ≠ []
  obtainable : ∀ c ∈ g, Obtainable c
  survives   : ∀ c ∈ g, Survives c

theorem groupBytes_ne_nil {g : List Command} (hg : WholeGroup g) : groupBytes g ≠ [] := by
  intro h
  obtain ⟨c, cs, rfl⟩ := List.exists_cons_of_ne_nil hg.nonempty
  have hlen := length_encode ((c :: cs).flatMap generateResp)
  rw [show encode ((c :: cs).flatMap generateResp) = [] from h, eq_comm, List.length_nil, byteLen_eq_zero,
    List.flatMap_cons, generateResp_tail (hg.obtainable c (by simp))] at hlen
  cases hlen

/-- **A read of whole frames executes their commands.** -/
theorem replicaRead_group {g : List Command} (hg : WholeGroup g) {r : Replica} (hrun : r.running = true) :
    ∃ xss : List (List Value), List.Forall₂ (fun xs c => parseCommand xs = .ok c) xss g ∧
      replicaRead regex clock r (groupBytes g) = (xss.map .array).foldl (replicaValue regex clock) r := by
  obtain ⟨xss, hstream, hset⟩ := replicated_of_survives hg.nonempty hg.obtainable hg.survives
  refine ⟨xss, mapM_eq_ok.1 hset, ?_⟩
  rw [replicaRead, if_neg (by rw [hrun]; decide), if_neg (groupBytes_ne_nil hg), groupBytes, decodeLossy_encode, hstream]

theorem replica_groups : ∀ (gs : List (List Command)) (r : Replica), r.running = true → (∀ g ∈ gs, WholeGroup g) →
    ((gs.map groupBytes).foldl (replicaRead regex clock) r).executed = r.executed ++ gs.flatten ∧
      (Holdables clock r.executed.length gs.flatten →
        texts ((gs.map groupBytes).foldl (replicaRead regex clock) r).server.map =
          gs.flatten.foldl putText (texts r.server.map))
  | [], r, _, _ => ⟨by simp, fun _ => rfl⟩
  | g :: gs, r, hrun, hgs => by
    have hset : ∀ c ∈ g, IsSet c := fun c hc => ((hgs g (by simp)).obtainable c hc).1
    obtain ⟨xss, hxss, hread⟩ := replicaRead_group regex clock (hgs g (by simp)) hrun
    obtain ⟨hexec, hrun'⟩ := executed_values regex clock hxss hset r
    have htexts := texts_values regex clock hxss hset r
    rw [← hread] at hexec hrun' htexts
    obtain ⟨ihexec, ihtexts⟩ := replica_groups gs (replicaRead regex clock r (groupBytes g)) (hrun'.trans hrun)
      (fun x hx => hgs x (by simp [hx]))
    rw [List.map_cons, List.foldl_cons, List.flatten_cons, List.foldl_append]
    refine ⟨by rw [ihexec, hexec, List.append_assoc], fun hclock => ?_⟩
    obtain ⟨hclock, hclock'⟩ := (holdables_append clock g gs.flatten _).1 hclock
    rw [ihtexts (by rw [hexec, List.length_append]; exact hclock'), htexts hclock]

end

/-- **Reads of whole frames are executed as one stream**: two groupings of the same commands execute them all, in
order, and leave the same texts, whenever each was executed. -/
theorem groupings_agree (regex : List Char → Option (List Char → Bool)) {clock clock' : Nat → SystemTime}
    {gs gs' : List (List Command)} {r : Replica} (hrun : r.running = true) (hstream : gs.flatten = gs'.flatten)
    (hgs : ∀ g ∈ gs, WholeGroup g) (hgs' : ∀ g ∈ gs', WholeGroup g)
    (hclock : Holdables clock r.executed.length gs.flatten) (hclock' : Holdables clock' r.executed.length gs.flatten) :
    ((gs.map groupBytes).foldl (replicaRead regex clock) r).executed = r.executed ++ gs.flatten ∧
      ((gs'.map groupBytes).foldl (replicaRead regex clock') r).executed = r.executed ++ gs.flatten ∧
      texts ((gs.map groupBytes).foldl (replicaRead regex clock) r).server.map =
        texts ((gs'.map groupBytes).foldl (replicaRead regex clock') r).server.map := by
  obtain ⟨hexec, htexts⟩ := replica_groups regex clock gs r hrun hgs
  obtain ⟨hexec', htexts'⟩ := replica_groups regex clock' gs' r hrun hgs'
  rw [← hstream] at hexec' htexts'
  exact ⟨hexec, hexec', (htexts hclock).trans (htexts' hclock').symm⟩

theorem obtainable_k : Obtainable (.set ['k'] ['v'] none) ∧ Obtainable (.set ['k'] ['w'] (some 5)) :=
  ⟨⟨⟨_, _, _, rfl⟩, "*3\r\n$3\r\nset\r\n$1\r\nk\r\n$1\r\nv\r\n".toList, _, by decide +kernel,
    parseCommand_setWords ['k'] ['v'] none⟩,
   ⟨⟨_, _, _, rfl⟩, "*5\r\n$3\r\nset\r\n$1\r\nk\r\n$1\r\nw\r\n$2\r\npx\r\n$1\r\n5\r\n".toList, _,
    by decide +kernel, parseCommand_setWords ['k'] ['w'] (some 5)⟩⟩

theorem wholeGroup_k : WholeGroup [.set ['k'] ['v'] none] ∧ WholeGroup [.set ['k'] ['w'] (some 5)] ∧
    WholeGroup [.set ['k'] ['v'] none, .set ['k'] ['w'] (some 5)] := by
  have hv : Survives (.set ['k'] ['v'] none) := ⟨rfl, rfl, rfl, Or.inl rfl⟩
  have hw : Survives (.set ['k'] ['w'] (some 5)) := ⟨rfl, rfl, rfl, Or.inl rfl⟩
  obtain ⟨ov, ow⟩ := obtainable_k
  exact ⟨⟨by simp, by simpa using ov, by simpa using hv⟩, ⟨by simp, by simpa using ow, by simpa using hw⟩,
    ⟨by simp, by simpa using ⟨ov, ow⟩, by simpa using ⟨hv, hw⟩⟩⟩

/-- Two commands in one read, or one in each of two. -/
theorem groupings_agree_two :
    let gs := [[Command.set ['k'] ['v'] none, .set ['k'] ['w'] (some 5)]]
    let gs' := [[Command.set ['k'] ['v'] none], [.set ['k'] ['w'] (some 5)]]
    texts ((gs.map groupBytes).foldl (replicaRead (fun _ => none) (fun _ => 0)) Replica.start).server.map =
      texts ((gs'.map groupBytes).foldl (replicaRead (fun _ => none) (fun n => n)) Replica.start).server.map := by
  intro gs gs'
  obtain ⟨hv, hw, hvw⟩ := wholeGroup_k
  refine (groupings_agree _ rfl (show gs.flatten = gs'.flatten from rfl) ?_ ?_ ?_ ?_).2.2
  · simpa [gs] using hvw
  · simpa [gs'] using ⟨hv, hw⟩
  · simp [gs, Holdables, Holdable, setExpiration, checkedAdd]
  · simp [gs, Holdables, Holdable, setExpiration, checkedAdd, Replica.start]

/-- A frame cut after its first byte is lost: neither read parses. -/
theorem replica_cut : ¬ ∀ (regex : List Char → Option (List Char → Bool)) (clock : Nat → SystemTime)
    (cs : List Command) (reads : List (List UInt8)) (r : Replica), (∀ c ∈ cs, Obtainable c) →
      reads.flatten = encode (cs.flatMap generateResp) → (∀ b ∈ reads, b ≠ []) → r.running = true →
        (reads.foldl (replicaRead regex clock) r).executed = r.executed ++ cs := by
  intro h
  have hcut := h (fun _ => none) (fun _ => 0) [.set ['k'] ['v'] none]
    [[42], encode "3\r\n$3\r\nset\r\n$1\r\nk\r\n$1\r\nv\r\n".toList] Replica.start
    (by simpa using obtainable_k.1) (by decide +kernel) (by decide +kernel) rfl
  revert hcut
  decide +kernel

end Rusdis
