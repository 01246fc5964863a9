import SocketCollection.Tcp
import SocketCollection.ReaderStream

/-!
# Reading from a healthy stream

`Inner::read` over a stream that is `Clean`: it hands over segments of some
bytes each, and says `WouldBlock` or `Interrupted` from time to time.  The
loop puts every segment into the reader and asks it again in the end, so a
call does to an awaiting socket what one `try_read` does to an awaiting
reader, however many segments it drained (`read_awaiting`).
-/

namespace SocketCollection

variable {L : Crates} {T G : Type}

namespace TcpStream

/-- The bytes the stream is going to hand over. -/
def toCome (s : TcpStream) : Bytes :=
  s.readResults.flatMap fun
    | .ok bytes => bytes
    | .error _ => []

/-- An answer to a read that is neither the end of the stream nor a hard
error. -/
def Harmless : IoResult Bytes → Prop
  | .ok bytes => bytes ≠ []
  | .error e => e.isRetry = true

/-- All answers to come are harmless. -/
def Clean (s : TcpStream) : Prop := ∀ a ∈ s.readResults, Harmless a

/-- What a read from a clean stream can do. -/
inductive Reads (s : TcpStream) : IoResult Bytes → TcpStream → Prop
  | segment {bytes s'} (hne : bytes ≠ []) (hclean : s'.Clean)
      (hbytes : s.toCome = bytes ++ s'.toCome) : Reads s (.ok bytes) s'
  | retry {e s'} (he : e.isRetry = true) (hclean : s'.Clean) (hbytes : s'.toCome = s.toCome) :
      Reads s (.error e) s'

theorem Clean.reads {s : TcpStream} (h : s.Clean) : Reads s s.read.1 s.read.2 := by
  unfold read
  split
  · exact .retry rfl h rfl
  · next e rest heq =>
      have he : Harmless (.error e) := h _ (by simp [heq])
      refine .retry he (fun a ha => h a ?_) ?_
      · rw [heq]
        exact List.mem_cons_of_mem _ ha
      · simp [toCome, heq]
  · next bytes rest heq =>
      have hne : Harmless (.ok bytes) := h _ (by simp [heq])
      have hrest : ∀ a ∈ rest, Harmless a := fun a ha => h a (by simp [heq, ha])
      split
      · exact .segment hne hrest (by simp [toCome, heq])
      · next hlong =>
          have hdrop : bytes.drop readWindow ≠ [] := by
            intro hnil
            rw [List.drop_eq_nil_iff] at hnil
            omega
          have htake : bytes.take readWindow ≠ [] := by
            intro hnil
            have hlen := congrArg List.length hnil
            simp only [List.length_take, List.length_nil, readWindow] at hlen hlong
            omega
          refine .segment htake ?_ ?_
          · intro a ha
            rcases List.mem_cons.mp ha with rfl | ha
            · exact hdrop
            · exact hrest a ha
          · simp only [toCome, heq, List.flatMap_cons]
            rw [← List.append_assoc, List.take_append_drop]

end TcpStream

namespace Inner

variable [Serde L UInt32] [Serde L T] {maxPayloadSize : Nat}

/-- A call has done to an awaiting socket what a `try_read` does to an awaiting
reader.  `whole` is what the stream had to hand over, and `later` are bytes it
does not know of yet. -/
structure ReadOutcome (whole later : Bytes) (ps : List (Parcel L T maxPayloadSize))
    (ctx : DecryptContext L) (res : Res L (Option T)) (i : Inner L G) : Prop where
  clean : i.stream.Clean
  drained : i.stream.toCome <:+ whole
  decCtx : i.msgReader.decCtx = ctx
  outcome : Awaiting.Outcome (i.stream.toCome ++ later) ps (res, i.msgReader)

/-- The loop's invariant: the socket is awaiting the parcels, and as long as
nothing was read it is known to lack bytes of the next one. -/
structure ReadingAwaits (whole later : Bytes) (ps : List (Parcel L T maxPayloadSize))
    (ctx : DecryptContext L) (s : Reading L G) : Prop where
  clean : s.inner.stream.Clean
  drained : s.inner.stream.toCome <:+ whole
  decCtx : s.inner.msgReader.decCtx = ctx
  awaiting : Awaiting (s.inner.stream.toCome ++ later) s.inner.msgReader ps
  idle : s.isSomethingRead = false → ∀ p rest, ps = p :: rest →
    (wire rest).length < (s.inner.stream.toCome ++ later).length

variable [LawfulSerde L UInt32] [LawfulSizeHeader L] [LawfulSerde L T] {whole later : Bytes}
  {ps : List (Parcel L T maxPayloadSize)} {ctx : DecryptContext L}

/-- One round: it drains a segment, or leaves with the outcome. -/
private theorem ReadingAwaits.round {s : Reading L G} (h : ReadingAwaits whole later ps ctx s)
    (htuned : ∀ p, ps.head? = some p → Matching p.encCtx ctx) :
    match readRound T s with
    | (s', none) => ReadingAwaits whole later ps ctx s'
    | (s', some res) => ReadOutcome whole later ps ctx res s'.inner := by
  have hreads := h.clean.reads
  have hawait := h.awaiting
  unfold readRound
  generalize s.inner.stream.read = answer at hreads
  obtain ⟨res, stream⟩ := answer
  cases hreads with
  | @segment bytes _ hne hclean hbytes =>
      have hlen : bytes.length ≠ 0 := fun h0 => hne (List.length_eq_zero_iff.mp h0)
      rw [hbytes, List.append_assoc] at hawait
      simp only [hlen, if_false]
      have hdrained : stream.toCome <:+ whole :=
        (List.suffix_append _ _).trans (hbytes ▸ h.drained)
      refine ⟨hclean, hdrained, h.decCtx, hawait.putBuf, ?_⟩
      intro hfresh
      cases hfresh
  | @retry e _ he hclean hbytes =>
      simp only [he, if_true]
      rw [← hbytes] at hawait
      have hdrained : stream.toCome <:+ whole := hbytes ▸ h.drained
      cases hsome : s.isSomethingRead with
      | true =>
          have hmatch : Tuned s.inner.msgReader ps := by
            rw [Tuned, h.decCtx]
            exact htuned
          exact ⟨hclean, hdrained, (LenDelimitedReader.tryRead_decCtx _).trans h.decCtx,
            hawait.tryRead hmatch⟩
      | false =>
          refine ⟨hclean, hdrained, h.decCtx, .waiting hawait ?_⟩
          have hidle := h.idle hsome
          rwa [← hbytes] at hidle

/-- **A call of `read` on a socket that awaits some parcels** over a clean
stream. -/
theorem read_awaiting {i : Inner L G} (hclean : i.stream.Clean)
    (hawait : Awaiting (i.stream.toCome ++ later) i.msgReader ps)
    (htuned : Tuned i.msgReader ps) :
    ReadOutcome i.stream.toCome later ps i.msgReader.decCtx (i.read T).1 (i.read T).2 := by
  have hout := hawait.tryRead htuned
  have hctx := LenDelimitedReader.tryRead_decCtx (T := T) i.msgReader
  simp only [read, tryRead]
  generalize i.msgReader.tryRead T = first at hout hctx
  obtain ⟨res, r'⟩ := first
  cases hout with
  | delivered hps hnext => exact ⟨hclean, List.suffix_refl _, hctx, .delivered hps hnext⟩
  | waiting hnext hmore =>
      have hstart : ReadingAwaits i.stream.toCome later ps i.msgReader.decCtx
          ⟨{ i with msgReader := r' }, false⟩ :=
        ⟨hclean, List.suffix_refl _, hctx, hnext, fun _ => hmore⟩
      refine (readLoop T).exec_rule (ReadingAwaits i.stream.toCome later ps i.msgReader.decCtx)
        (fun s res => ReadOutcome i.stream.toCome later ps i.msgReader.decCtx res s.inner)
        ?_ ?_ _ hstart
      · intro s s' hs hbody
        have hround := hs.round htuned
        replace hbody : readRound T s = (s', none) := hbody
        rwa [hbody] at hround
      · intro s s' res hs hbody
        have hround := hs.round htuned
        replace hbody : readRound T s = (s', some res) := hbody
        rwa [hbody] at hround

end Inner

end SocketCollection
