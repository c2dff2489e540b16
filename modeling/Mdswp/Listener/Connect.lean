import Mdswp.Stream.Inner

/-!
# Attempts to connect

`connect_to` makes up to three attempts at an address, and `connect` goes through the addresses it
has been given. The attempt, `__try_single_connect_to`, is a parameter here: it changes the world
and returns a stream or an error (`Listener/Handshake.lean` models it). Together the two loops make
the attempts at the addresses, each of them three times over, up to the first that succeeds, and
fail with the error of the last one (`connect_eq`).
-/

namespace Mdswp

section

variable {σ α : Type*} (attempt : SocketAddr → σ → IoResult α × σ)

/-- The attempts at the addresses, one after the other, up to the first that succeeds; if none
does, the error is that of the last one, or `err` if there is none. -/
def firstSuccess : List SocketAddr → IoError → σ → IoResult α × σ
  | [], err, w => (.error err, w)
  | addr :: addrs, _, w =>
    match attempt addr w with
    | (.ok conn, w) => (.ok conn, w)
    | (.error err, w) => firstSuccess addrs err w

/-- The loop of `connect_to`, with its `attept_count`. -/
def connectToLoop (addr : SocketAddr) : ℕ → Option IoError → σ → Exec (IoResult α × σ)
  | 0, some err, w => .ok (.error err, w)
  | 0, none, _ => .error .panic
  | atteptCount + 1, _, w =>
    match attempt addr w with
    | (.ok conn, w) => .ok (.ok conn, w)
    | (.error err, w) => connectToLoop addr atteptCount (some err) w

def connectTo (addr : SocketAddr) (w : σ) : Exec (IoResult α × σ) :=
  connectToLoop attempt addr 3 none w

/-- The loop of `connect`. -/
def connectLoop : List SocketAddr → IoError → σ → Exec (IoResult α × σ)
  | [], lastErr, w => .ok (.error lastErr, w)
  | peerAddr :: addrs, _, w =>
    match connectTo attempt peerAddr w with
    | .error f => .error f
    | .ok (.ok conn, w) => .ok (.ok conn, w)
    | .ok (.error err, w) => connectLoop addrs err w

def noSocketAddress : IoError := ⟨.addrNotAvailable, "No socket address was provided"⟩

/-- `addrs` is what `to_socket_addrs` returns. -/
def connect (addrs : IoResult (List SocketAddr)) (w : σ) : Exec (IoResult α × σ) :=
  match addrs with
  | .error err => .ok (.error err, w)
  | .ok addrs => connectLoop attempt addrs noSocketAddress w

/-! ## The two loops are one -/

variable {attempt} {addr : SocketAddr} {addrs addrs' : List SocketAddr} {err : IoError} {w : σ}

theorem firstSuccess_append (addrs addrs' : List SocketAddr) (err : IoError) (w : σ) :
    firstSuccess attempt (addrs ++ addrs') err w =
      match firstSuccess attempt addrs err w with
      | (.ok conn, w) => (.ok conn, w)
      | (.error err, w) => firstSuccess attempt addrs' err w := by
  induction addrs generalizing err w with
  | nil => rfl
  | cons addr addrs ih =>
    rw [List.cons_append, firstSuccess, firstSuccess]
    cases attempt addr w with
    | mk r w =>
      cases r with
      | ok conn => rfl
      | error err => exact ih err w

theorem connectToLoop_some (n : ℕ) : connectToLoop attempt addr n (some err) w =
    .ok (firstSuccess attempt (List.replicate n addr) err w) := by
  induction n generalizing err w with
  | zero => rfl
  | succ n ih =>
    rw [connectToLoop, List.replicate_succ, firstSuccess]
    cases attempt addr w with
    | mk r w =>
      cases r with
      | ok conn => rfl
      | error err => exact ih

/-- The `unwrap` of `connect_to` finds an error, for an attempt has been made. -/
theorem connectTo_eq (err : IoError) : connectTo attempt addr w =
    .ok (firstSuccess attempt (List.replicate 3 addr) err w) := by
  rw [connectTo, connectToLoop, List.replicate_succ, firstSuccess]
  cases attempt addr w with
  | mk r w =>
    cases r with
    | ok conn => rfl
    | error err => exact connectToLoop_some 2

theorem connectLoop_eq : connectLoop attempt addrs err w =
    .ok (firstSuccess attempt (addrs.flatMap (List.replicate 3)) err w) := by
  induction addrs generalizing err w with
  | nil => rfl
  | cons addr addrs ih =>
    rw [connectLoop, connectTo_eq err, List.flatMap_cons, firstSuccess_append]
    cases firstSuccess attempt (List.replicate 3 addr) err w with
    | mk r w =>
      cases r with
      | ok conn => rfl
      | error err => exact ih

theorem connect_eq (addrs : List SocketAddr) (w : σ) : connect attempt (.ok addrs) w =
    .ok (firstSuccess attempt (addrs.flatMap (List.replicate 3)) noSocketAddress w) :=
  connectLoop_eq

end

end Mdswp
