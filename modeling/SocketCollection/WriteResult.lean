import SocketCollection.BincodeInstance
import SocketCollection.TcpWriteResult
import SocketCollection.UdpWriteResult

/-!
# When the result of `write` tells of its message

`write` is documented to tell whether its message was fully sent or queued, and
does so by whether the flush emptied the socket.  The result is wrong when the
message is sent and a less urgent one that waited before it is not: then the
message is said to be queued although nothing of it is left.
-/

namespace SocketCollection

open Runs

variable {L : Crates}

/-- **The result of `write` tells of its message.**  In every run of a TCP socket and
of a UDP socket, with either way of sending: as long as there are no hard errors to
come, `Ok(true)` means that all of the message of the call has been accepted,
`Ok(false)` that it still waits, and it has not expired, if and only if the flush
does not get past the message and then stop. -/
theorem write_speaks_true_iff [Serde L UInt32] (conf : SocketConfig L) :
    (∀ (writeResults : List (IoResult Nat)) (readResults : List (IoResult Bytes))
      (ops : List (TcpOp L)),
      Each TcpNumbered.step (fun s op => s.inner.Soft → (s.SpeaksTrue op ↔ s.NotCutBehind op))
        (.start writeResults readResults conf) ops) ∧
    ∀ (recvResults : List (IoResult (Bytes × Udp.SocketAddr)))
      (sendResults : List Udp.SendAnswer) (ops : List (Udp.UdpOp L)),
      Each Udp.UdpNumbered.step (fun s op => s.Soft → (s.SpeaksTrue op ↔ s.NotCutBehind op))
        (.start recvResults sendResults conf) ops := by
  constructor
  · intro writeResults readResults ops
    exact TcpNumbered.each_speaksTrue writeResults readResults conf ops
  · intro recvResults sendResults ops
    exact Udp.UdpNumbered.each_speaksTrue recvResults sendResults conf ops

namespace BincodeInstance

/-- Two messages of priority 5 wait, the first in `current_write`, when one of priority
0 is written. -/
def urgentWrites : List (TcpOp crates) :=
  [(5, 5), (6, 5), (7, 0)].map fun msg =>
    .write UInt32 ⟨0, 0⟩ ⟨(1 : UInt8), (2 : UInt8)⟩ (some msg)

def urgentSends : List (Udp.UdpOp crates) :=
  [(5, 5), (6, 5), (7, 0)].map fun msg => .write UInt32 ⟨0, 0⟩ (1 : UInt8) (some msg)

def urgentSendsTo (peer : Udp.SocketAddr) : List (Udp.UdpOp crates) :=
  [(5, peer, 5), (6, peer, 5), (7, peer, 0)].map fun msg =>
    .writeTo UInt32 ⟨0, 0⟩ (1 : UInt8) (some msg)

/-- The stream takes two frames, after it has refused two. -/
def takesTwo : TcpNumbered crates :=
  .start [.error .wouldBlock, .error .wouldBlock, .ok 8, .ok 8] [] .default

def sendsTwo : Udp.UdpNumbered crates :=
  .start [] [.error .wouldBlock, .error .wouldBlock, .whole, .whole] .default

/-- **A message that was sent is said to be queued.**  The message of priority 0 is
accepted in full, the second one of priority 5 is refused, and the result is
`Ok(false)`. -/
theorem sent_message_said_queued :
    ¬ Each TcpNumbered.step (fun s op => s.inner.Soft → s.SpeaksTrue op) takesTwo urgentWrites ∧
      ¬ Each Udp.UdpNumbered.step (fun s op => s.Soft → s.SpeaksTrue op) sendsTwo urgentSends ∧
      ¬ Each Udp.UdpNumbered.step (fun s op => s.Soft → s.SpeaksTrue op) sendsTwo
        (urgentSendsTo ⟨.v4 0x7f000001#32, 5000⟩) := by
  have hsoft : ∀ answer ∈ ([.ok 8, .ok 8] : List (IoResult Nat)), answer.isHard = false := by
    simp [IoResult.isHard]
  have hsoftUdp : ∀ e, Udp.SendAnswer.error e ∈ [Udp.SendAnswer.whole, .whole] →
      e.isRetry = true := by
    simp
  refine ⟨?_, ?_, ?_⟩
  · rintro ⟨-, -, hthird, -⟩
    obtain ⟨data, hdata, hlabel⟩ := (hthird hsoft).queued.mp rfl
    replace hlabel : data.label = 2 := hlabel
    have hwaits : data.label ∈ [1] := List.mem_map_of_mem (f := Frame.label) hdata
    rw [hlabel] at hwaits
    exact absurd hwaits (by decide)
  · rintro ⟨-, -, hthird, -⟩
    obtain ⟨data, hdata, hlabel⟩ := (hthird hsoftUdp _ rfl).queued.mp rfl
    replace hlabel : data.label = 2 := hlabel
    have hwaits : data.label ∈ [1] := List.mem_map_of_mem (f := Frame.label) hdata
    rw [hlabel] at hwaits
    exact absurd hwaits (by decide)
  · rintro ⟨-, -, hthird, -⟩
    obtain ⟨msg, hmsg, hlabel⟩ := (hthird hsoftUdp _ rfl).queued.mp rfl
    replace hlabel : msg.1.label = 2 := hlabel
    have hwaits : msg.1.label ∈ [1] := List.mem_map_of_mem (f := fun m => m.1.label) hmsg
    rw [hlabel] at hwaits
    exact absurd hwaits (by decide)

end BincodeInstance

end SocketCollection
