import Mathlib

/-!
# Bytes, panics and the errors of the operating system

The vocabulary every socket shares: byte strings, the answers the operating
system gives, and calls that may panic.

A Rust slice `buf[..n]` or `buf[n..]` panics when `n` lies beyond the end of
the buffer, and `unwrap!` panics on `None`.  The functions of the model that
slice, index or unwrap therefore return an `Exec`, in which a panic is an
outcome of its own; that none is ever reached is a theorem about each of
them, not something built into the model.
-/

namespace SocketCollection

/-- A `Vec<u8>` or `&[u8]`. -/
abbrev Bytes := List UInt8

/-! ## Panics -/

/-- The ways in which a call of this crate could panic. -/
inductive Panic
  | sliceOutOfRange
  | indexOutOfRange
  | unwrapOfNone
  deriving DecidableEq, Repr

/-- A call that returns a value unless it panics. -/
abbrev Exec (α : Type) := Except Panic α

/-- The value of a call that is known to return. -/
def Exec.get {α : Type} : (e : Exec α) → (∃ a, e = .ok a) → α
  | .ok a, _ => a
  | .error _, h => absurd h (by simp)

theorem Exec.ok_get {α : Type} (e : Exec α) (h : ∃ a, e = .ok a) :
    e = .ok (e.get h) := by
  obtain ⟨a, rfl⟩ := h
  rfl

@[simp] theorem Exec.get_ok {α : Type} (a : α) (h : ∃ b, Except.ok a = .ok b) :
    Exec.get (.ok a) h = a := rfl

/-- `&buf[..n]`. -/
def sliceTo (buf : Bytes) (n : Nat) : Exec Bytes :=
  if n ≤ buf.length then .ok (buf.take n) else .error .sliceOutOfRange

/-- `&buf[n..]`. -/
def sliceFrom (buf : Bytes) (n : Nat) : Exec Bytes :=
  if n ≤ buf.length then .ok (buf.drop n) else .error .sliceOutOfRange

@[simp] theorem sliceTo_of_le {buf : Bytes} {n : Nat} (h : n ≤ buf.length) :
    sliceTo buf n = .ok (buf.take n) := if_pos h

@[simp] theorem sliceFrom_of_le {buf : Bytes} {n : Nat} (h : n ≤ buf.length) :
    sliceFrom buf n = .ok (buf.drop n) := if_pos h

/-! ## Answers of the operating system -/

/-- `std::io::ErrorKind`. -/
inductive ErrorKind
  | notFound
  | permissionDenied
  | connectionRefused
  | connectionReset
  | connectionAborted
  | notConnected
  | addrInUse
  | addrNotAvailable
  | brokenPipe
  | alreadyExists
  | wouldBlock
  | invalidInput
  | invalidData
  | timedOut
  | writeZero
  | interrupted
  | other
  | unexpectedEof
  deriving DecidableEq, Repr

/-- `std::io::Error`: the kind the sockets look at, and the raw error number
they hand on. -/
structure IoError where
  kind : ErrorKind
  rawOsError : Option Int
  deriving DecidableEq, Repr

/-- `error.kind() == ErrorKind::WouldBlock || error.kind() ==
ErrorKind::Interrupted`, the test all sockets make: the operation is to be
tried again when the event loop says so. -/
def IoError.isRetry (e : IoError) : Bool :=
  e.kind == .wouldBlock || e.kind == .interrupted

/-- The answer of a non-blocking socket that has nothing to offer. -/
def IoError.wouldBlock : IoError := ⟨.wouldBlock, none⟩

/-- `std::io::Result`. -/
abbrev IoResult (α : Type) := Except IoError α

/-- A hard error: one that is not retried. -/
def IoResult.isHard {α : Type} : IoResult α → Bool
  | .ok _ => false
  | .error e => !e.isRetry

/-! ## Time -/

/-- `std::time::Instant`, in nanoseconds since some origin. -/
abbrev Instant := Nat

/-- `timestamp.elapsed().as_secs()` when the clock reads `now`: whole seconds,
and zero for a time stamp that lies ahead of the clock. -/
def elapsedSecs (timestamp now : Instant) : Nat := (now - timestamp) / 10 ^ 9

end SocketCollection
