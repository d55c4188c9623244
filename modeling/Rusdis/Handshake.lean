import Rusdis.Handover
/-!
# Handshake — the requests of `connect_master` and the replies it goes on from

Before `PSYNC` a replica sends three requests and looks at what one `fill_buf` returns after each.  A reply is compared
only where it is a simple string: any other value lets the handshake go on.  It keeps to the expected replies exactly
where the first other reply is a simple string or no value (`handshake_guarded_iff`).
-/
namespace Rusdis

open Fallible Utf8
open Decimal (natText)

/-- A request, the reply expected to it and the error of another. -/
structure Exchange where
  request  : List Char
  expected : List Char
  msg      : String

def ping : Exchange := ⟨"*1\r\n$4\r\nPING\r\n".toList, "PONG".toList, "Wrong response to ping"⟩

/-- `REPLCONF listening-port`, of the `--port` argument if there is one. -/
def replconfPort (port : Option (List Char)) : Exchange :=
  let port := port.getD "6379".toList
  ⟨"*3\r\n$8\r\nREPLCONF\r\n$14\r\nlistening-port\r\n$".toList ++ natText (byteLen port) ++ crlf ++ port ++ crlf,
    "OK".toList, "Wrong response to replconf"⟩

def replconfCapa : Exchange :=
  ⟨"*3\r\n$8\r\nREPLCONF\r\n$4\r\ncapa\r\n$6\r\npsync2\r\n".toList, "OK".toList, "Wrong response to replconf"⟩

def psync : List Char := "*3\r\n$5\r\nPSYNC\r\n$1\r\n?\r\n$2\r\n-1\r\n".toList

/-- What one `fill_buf` returns, nothing at the end of the stream. -/
def fillBuf : List (List UInt8) → List UInt8 × List (List UInt8)
  | []            => ([], [])
  | buf :: socket => (buf, socket)

/-- The check of a reply: only a simple string is compared. -/
def Exchange.check (x : Exchange) (buf : List UInt8) : Except (Fault ConnectError) Unit := do
  match ← orParser (parse (decodeLossy buf)) with
  | .simpleString r =>
    if toUppercase r ≠ x.expected then throw (.err (.masterConnectionError x.msg)) else return ()
  | _ => return ()

/-- The exchanges in turn and `PSYNC` after them: the requests sent, and what the command loop is left. -/
def exchanges : List Exchange → List (List UInt8) → List (List Char) × Except (Fault ConnectError) (List (List UInt8))
  | [], socket => ([psync], connectMaster socket)
  | x :: xs, socket =>
    let (buf, socket) := fillBuf socket
    match x.check buf with
    | .error e => ([x.request], .error e)
    | .ok ()   =>
      let (sent, result) := exchanges xs socket
      (x.request :: sent, result)

def script (port : Option (List Char)) : List Exchange := [ping, replconfPort port, replconfCapa]

/-- `connect_master` as a whole: the requests it sends, and the segments it leaves to its command loop. -/
def handshake (port : Option (List Char)) (socket : List (List UInt8)) :
    List (List Char) × Except (Fault ConnectError) (List (List UInt8)) :=
  exchanges (script port) socket

/-! ## Replies -/

/-- The buffer that answers request `i`. -/
def reply (socket : List (List UInt8)) (i : Nat) : List UInt8 := socket.getD i []

/-- The reply is the expected simple string, up to case. -/
def Exchange.Answered (x : Exchange) (buf : List UInt8) : Prop :=
  ∃ r, parse (decodeLossy buf) = .ok (.simpleString r) ∧ toUppercase r = x.expected

/-- The reply is another simple string, or `parse` returns an error. -/
def Exchange.Refused (x : Exchange) (buf : List UInt8) : Prop :=
  (∃ r, parse (decodeLossy buf) = .ok (.simpleString r) ∧ toUppercase r ≠ x.expected) ∨
    ∃ e, parse (decodeLossy buf) = .error (.err e)

/-- Request `i` is the first without the expected reply. -/
def FirstWrong (xs : List Exchange) (socket : List (List UInt8)) (i : Nat) (x : Exchange) : Prop :=
  xs[i]? = some x ∧ (∀ j (y : Exchange), j < i → xs[j]? = some y → y.Answered (reply socket j)) ∧
    ¬ x.Answered (reply socket i)

/-- At the first reply that is not the expected one the handshake ends with an error, and nothing more is sent. -/
def StopsAtWrong (xs : List Exchange) (socket : List (List UInt8)) : Prop :=
  ∀ i x, FirstWrong xs socket i x →
    (exchanges xs socket).1 = (xs.take (i + 1)).map Exchange.request ∧ ∃ e, (exchanges xs socket).2 = .error (.err e)

/-- `PSYNC` is sent only after the expected replies, and any other reply ends the handshake. -/
structure Guarded (port : Option (List Char)) (socket : List (List UInt8)) : Prop where
  expected : psync ∈ (handshake port socket).1 →
    ∀ i (x : Exchange), (script port)[i]? = some x → x.Answered (reply socket i)
  stops    : StopsAtWrong (script port) socket

theorem fillBuf_eq (socket : List (List UInt8)) : fillBuf socket = (reply socket 0, socket.tail) := by
  cases socket <;> rfl

theorem reply_succ (socket : List (List UInt8)) (i : Nat) : reply socket (i + 1) = reply socket.tail i := by
  cases socket with
  | nil => simp [reply]
  | cons buf socket => simp [reply]

theorem check_of_answered {x : Exchange} {buf : List UInt8} (h : x.Answered buf) : x.check buf = .ok () := by
  obtain ⟨r, hparse, hr⟩ := h
  unfold Exchange.check
  rw [hparse]
  simp only [orParser, ok_bind]
  exact if_neg (fun hne => hne hr)

/-- **A reply that is not expected ends the handshake with an error exactly where it is refused.** -/
theorem check_eq_err_iff {x : Exchange} {buf : List UInt8} (h : ¬ x.Answered buf) :
    (∃ e, x.check buf = .error (.err e)) ↔ x.Refused buf := by
  unfold Exchange.Answered at h
  unfold Exchange.check Exchange.Refused
  cases hparse : parse (decodeLossy buf) with
  | error e =>
    cases e with
    | err e => simp [orParser]
    | panic => simp [orParser]
  | ok v =>
    cases v with
    | simpleString r =>
      have hr : toUppercase r ≠ x.expected := fun hr => h ⟨r, hparse, hr⟩
      simp [orParser, hr]
    | _ => simp [orParser]

/-! ## The exchanges -/

theorem exchanges_cons (x : Exchange) (xs : List Exchange) (socket : List (List UInt8)) :
    exchanges (x :: xs) socket =
      match x.check (reply socket 0) with
      | .error e => ([x.request], .error e)
      | .ok ()   => (x.request :: (exchanges xs socket.tail).1, (exchanges xs socket.tail).2) := by
  rw [exchanges, fillBuf_eq]

theorem exchanges_ne_nil (xs : List Exchange) (socket : List (List UInt8)) : (exchanges xs socket).1 ≠ [] := by
  cases xs with
  | nil => exact List.cons_ne_nil _ _
  | cons x xs =>
    rw [exchanges_cons]
    cases x.check (reply socket 0) <;> exact List.cons_ne_nil _ _

theorem firstWrong_zero {x y : Exchange} {xs : List Exchange} {socket : List (List UInt8)} :
    FirstWrong (x :: xs) socket 0 y ↔ y = x ∧ ¬ x.Answered (reply socket 0) := by
  constructor
  · rintro ⟨hx, -, hwrong⟩
    obtain rfl : x = y := Option.some.inj hx
    exact ⟨rfl, hwrong⟩
  · rintro ⟨rfl, hwrong⟩
    exact ⟨rfl, fun j y hj => by omega, hwrong⟩

theorem firstWrong_succ {x y : Exchange} {xs : List Exchange} {socket : List (List UInt8)} {i : Nat} :
    FirstWrong (x :: xs) socket (i + 1) y ↔ x.Answered (reply socket 0) ∧ FirstWrong xs socket.tail i y := by
  constructor
  · rintro ⟨hy, hbefore, hwrong⟩
    refine ⟨hbefore 0 x (by omega) rfl, hy, fun j z hj hz => ?_, by rwa [← reply_succ]⟩
    rw [← reply_succ]
    exact hbefore (j + 1) z (by omega) hz
  · rintro ⟨hx, hy, hbefore, hwrong⟩
    refine ⟨hy, fun j z hj hz => ?_, by rwa [reply_succ]⟩
    cases j with
    | zero =>
      obtain rfl : x = z := Option.some.inj hz
      exact hx
    | succ j =>
      rw [reply_succ]
      exact hbefore j z (by omega) hz

/-- **The exchanges stop at the first wrong reply exactly where it is refused.** -/
theorem stopsAtWrong_iff : ∀ (xs : List Exchange) (socket : List (List UInt8)),
    StopsAtWrong xs socket ↔ ∀ i x, FirstWrong xs socket i x → x.Refused (reply socket i)
  | [], socket => by
    constructor
    · rintro - i x ⟨hx, -, -⟩
      cases hx
    · rintro - i x ⟨hx, -, -⟩
      cases hx
  | x :: xs, socket => by
    have ih := stopsAtWrong_iff xs socket.tail
    unfold StopsAtWrong at ih ⊢
    by_cases hx : x.Answered (reply socket 0)
    · -- nothing is wrong yet: the rest decides
      have hrun : exchanges (x :: xs) socket =
          (x.request :: (exchanges xs socket.tail).1, (exchanges xs socket.tail).2) := by
        rw [exchanges_cons, check_of_answered hx]
      rw [hrun]
      constructor
      · intro h i y hy
        cases i with
        | zero => exact absurd hx (firstWrong_zero.1 hy).2
        | succ i =>
          rw [reply_succ]
          refine ih.1 (fun i y hy => ?_) i y (firstWrong_succ.1 hy).2
          have := h (i + 1) y (firstWrong_succ.2 ⟨hx, hy⟩)
          rw [List.take_succ_cons, List.map_cons] at this
          exact ⟨(List.cons.inj this.1).2, this.2⟩
      · intro h i y hy
        cases i with
        | zero => exact absurd hx (firstWrong_zero.1 hy).2
        | succ i =>
          have := ih.2 (fun i y hy => by
            have := h (i + 1) y (firstWrong_succ.2 ⟨hx, hy⟩)
            rwa [reply_succ] at this) i y (firstWrong_succ.1 hy).2
          rw [List.take_succ_cons, List.map_cons, this.1]
          exact ⟨rfl, this.2⟩
    · -- this reply is the wrong one
      have hfirst : ∀ i y, FirstWrong (x :: xs) socket i y ↔ i = 0 ∧ y = x := by
        intro i y
        cases i with
        | zero => simp [firstWrong_zero, hx]
        | succ i => simp [firstWrong_succ, hx]
      simp only [hfirst, and_imp, forall_eq_apply_imp_iff, forall_eq]
      rw [← check_eq_err_iff hx, exchanges_cons]
      cases hcheck : x.check (reply socket 0) with
      | error e => simp
      | ok u =>
        have hne := exchanges_ne_nil xs socket.tail
        simp [hne]

theorem answered_of_psync : ∀ (xs : List Exchange) (socket : List (List UInt8)), (∀ x ∈ xs, x.request ≠ psync) →
    (∀ i x, FirstWrong xs socket i x → x.Refused (reply socket i)) → psync ∈ (exchanges xs socket).1 →
      ∀ i (x : Exchange), xs[i]? = some x → x.Answered (reply socket i)
  | [], _, _, _, _, i, x, hx => by cases hx
  | x :: xs, socket, hreq, hwrong, hsent, i, y, hy => by
    rw [exchanges_cons] at hsent
    have hx : x.Answered (reply socket 0) := by
      by_contra hx
      obtain ⟨e, he⟩ := (check_eq_err_iff hx).2 (hwrong 0 x (firstWrong_zero.2 ⟨rfl, hx⟩))
      rw [he] at hsent
      exact hreq x (by simp) (List.mem_singleton.1 hsent).symm
    rw [check_of_answered hx] at hsent
    cases i with
    | zero =>
      obtain rfl : x = y := Option.some.inj hy
      exact hx
    | succ i =>
      rw [reply_succ]
      refine answered_of_psync xs socket.tail (fun z hz => hreq z (by simp [hz])) (fun j z hz => ?_) ?_ i y hy
      · rw [← reply_succ]
        exact hwrong (j + 1) z (firstWrong_succ.2 ⟨hx, hz⟩)
      · rcases List.mem_cons.1 hsent with hself | hsent
        · exact absurd hself.symm (hreq x (by simp))
        · exact hsent

theorem replconfPort_ne_psync (port : Option (List Char)) : (replconfPort port).request ≠ psync := by
  intro h
  -- the first word has eight bytes, not five
  have hport : "*3\r\n$8\r\nREPLCONF\r\n$14\r\nlistening-port\r\n$".toList =
      "*3\r\n$".toList ++ '8' :: "\r\nREPLCONF\r\n$14\r\nlistening-port\r\n$".toList := by decide +kernel
  have hpsync : psync = "*3\r\n$".toList ++ '5' :: "\r\nPSYNC\r\n$1\r\n?\r\n$2\r\n-1\r\n".toList := by
    decide +kernel
  rw [hpsync] at h
  unfold replconfPort at h
  dsimp only at h
  rw [hport, List.append_assoc, List.append_assoc, List.append_assoc, List.append_assoc] at h
  have h85 : '8' = '5' := (List.cons.inj (List.append_cancel_left h)).1
  exact absurd h85 (by decide)

theorem request_ne_psync (port : Option (List Char)) : ∀ x ∈ script port, x.request ≠ psync := by
  have hping : ping.request ≠ psync := by decide +kernel
  have hcapa : replconfCapa.request ≠ psync := by decide +kernel
  rw [script, List.forall_mem_cons, List.forall_mem_cons, List.forall_mem_singleton]
  exact ⟨hping, replconfPort_ne_psync port, hcapa⟩

/-- **The handshake advances only on the expected replies exactly where the first other one is refused.** -/
theorem handshake_guarded_iff (port : Option (List Char)) (socket : List (List UInt8)) :
    Guarded port socket ↔ ∀ i x, FirstWrong (script port) socket i x → x.Refused (reply socket i) := by
  constructor
  · intro h
    exact (stopsAtWrong_iff _ _).1 h.stops
  · intro h
    exact ⟨answered_of_psync _ _ (request_ne_psync port) h, (stopsAtWrong_iff _ _).2 h⟩

/-- A bulk string answers `PING`. -/
theorem handshake_bulk_pong : ¬ ∀ port socket, Guarded port socket := by
  intro h
  have hsent : psync ∈ (handshake none [encode "$4\r\nPONG\r\n".toList, encode "+OK\r\n".toList,
      encode "+OK\r\n".toList]).1 := by
    decide +kernel
  obtain ⟨r, hr, -⟩ := (h _ _).expected hsent 0 ping rfl
  have hparse : parse (decodeLossy (encode "$4\r\nPONG\r\n".toList)) = .ok (.bulkString "PONG".toList) := by
    decide +kernel
  cases hparse.symm.trans hr

end Rusdis
