import SocketCollection.Tcp
import SocketCollection.ReaderSegmentation
import SocketCollection.ReaderStream

/-!
# What a read of the TCP socket reports

`Inner::read` drains the stream into its reader and reports, when the stream
stops, what it has: a message, the want of one, the end of the stream or its
failure.  `read_eq` says what that is for any script of the stream and any
state of the socket.

A frame with an empty payload is taken off by a `try_read` that returns
`Ok(None)`, whatever is behind it; and a hard error is reported without a last
look at the reader.  The two results say for which inputs a message is passed
over because of that.

## Main results

* `read_messages_first`: when the end or the failure of the stream is reported
  only after the messages that came before it.
* `none_means_not_enough`: when `Ok(None)` means that there is not enough data.
-/

namespace SocketCollection

open LenDelimitedReader

variable {L : Crates} {T G : Type}

/-- The error says that the stream is at its end or has failed. -/
def SocketError.EndsStream : SocketError L → Prop
  | .zeroByteRead | .io _ => True
  | _ => False

/-! ## What one call hears from the stream -/

/-- What ends the reads of one call. -/
inductive Stop
  | eof
  | retry
  | hard (error : IoError)

namespace TcpStream

/-- The bytes that are read before the stream stops, and what stops it. -/
def drain : List (IoResult Bytes) → Bytes × Stop
  | [] => ([], .retry)
  | .error e :: _ => ([], if e.isRetry then .retry else .hard e)
  | .ok bytes :: rest =>
      if bytes = [] then ([], .eof) else (bytes ++ (drain rest).1, (drain rest).2)

/-- The bytes that arrive in a call which reads until the stream stops. -/
def arriving (s : TcpStream) : Bytes := (drain s.readResults).1

/-- What stops the reads of such a call. -/
def stop (s : TcpStream) : Stop := (drain s.readResults).2

/-- What one read contributes to what arrives. -/
inductive Hears (s : TcpStream) : IoResult Bytes → TcpStream → Prop
  | segment {bytes s'} (hne : bytes ≠ []) (harriving : s.arriving = bytes ++ s'.arriving)
      (hstop : s.stop = s'.stop) : Hears s (.ok bytes) s'
  | eof {s'} (harriving : s.arriving = []) (hstop : s.stop = .eof) : Hears s (.ok []) s'
  | retry {e s'} (he : e.isRetry = true) (harriving : s.arriving = [])
      (hstop : s.stop = .retry) : Hears s (.error e) s'
  | hard {e s'} (he : e.isRetry = false) (harriving : s.arriving = [])
      (hstop : s.stop = .hard e) : Hears s (.error e) s'

theorem hears_read (s : TcpStream) : Hears s s.read.1 s.read.2 := by
  unfold read
  split
  · next heq => exact .retry rfl (by simp [arriving, heq, drain]) (by simp [stop, heq, drain])
  · next e rest heq =>
      cases he : e.isRetry with
      | true =>
          exact .retry he (by simp [arriving, heq, drain]) (by simp [stop, heq, drain, he])
      | false =>
          exact .hard he (by simp [arriving, heq, drain]) (by simp [stop, heq, drain, he])
  · next bytes rest heq =>
      by_cases hnil : bytes = []
      · subst hnil
        exact .eof (by simp [arriving, heq, drain]) (by simp [stop, heq, drain])
      · split
        · exact .segment hnil (by simp [arriving, heq, drain, hnil])
            (by simp [stop, heq, drain, hnil])
        · next hlong =>
            -- what does not fit the window is a segment of its own
            have htake : bytes.take readWindow ≠ [] := by
              simp [readWindow, hnil]
            have hdrop : bytes.drop readWindow ≠ [] := by
              rw [Ne, List.drop_eq_nil_iff]
              exact hlong
            refine .segment htake ?_ (by simp [stop, heq, drain, hnil, hdrop])
            simp only [arriving, heq, drain, hnil, hdrop, if_false]
            rw [← List.append_assoc, List.take_append_drop]

/-- The next read finds nothing. -/
def Blocks (s : TcpStream) : Prop := ∃ e : IoError, e.isRetry = true ∧ s.read.1 = .error e

theorem Blocks.heard {s : TcpStream} (h : s.Blocks) : s.arriving = [] ∧ s.stop = .retry := by
  obtain ⟨e, he, hread⟩ := h
  have hhears := s.hears_read
  rw [hread] at hhears
  cases hhears with
  | retry _ harriving hstop => exact ⟨harriving, hstop⟩
  | hard hhard _ _ => simp [he] at hhard

end TcpStream

/-! ## The reader when nothing more arrives -/

namespace LenDelimitedReader

@[simp] theorem putBuf_nil (r : LenDelimitedReader L) : r.putBuf [] = r := by
  simp [putBuf]

@[simp] theorem putBuf_putBuf (r : LenDelimitedReader L) (a b : Bytes) :
    (r.putBuf a).putBuf b = r.putBuf (a ++ b) := by
  simp [putBuf]

variable [Serde L UInt32] [Serde L T] {r : LenDelimitedReader L}

/-- A frame with an empty payload is in front, and its header is whole. -/
def meetsEmpty (r : LenDelimitedReader L) : Bool :=
  r.readLen == 0 && decide (r.decCtx.encryptedSizeLen ≤ r.readBuffer.length) &&
    match r.decCtx.decrypt (T := UInt32) r.header with
    | .ok n => n == 0
    | .error _ => false

/-- The reader behind such a frame. -/
def skipEmpty (r : LenDelimitedReader L) : LenDelimitedReader L :=
  if r.meetsEmpty then r.stripHeader 0 else r

/-- The reader holds no message that it would return when asked: a frame that
is not complete, or an empty one, is in front. -/
def Idle (T : Type) [Serde L T] (r : LenDelimitedReader L) : Prop :=
  r.meetsEmpty = true ∨ r.remaining T = .empty

theorem meetsEmpty_iff : r.meetsEmpty = true ↔ r.readLen = 0 ∧
    r.decCtx.encryptedSizeLen ≤ r.readBuffer.length ∧
      r.decCtx.decrypt r.header = .ok (0 : UInt32) := by
  unfold meetsEmpty
  cases r.decCtx.decrypt (T := UInt32) r.header <;> simp [and_assoc]

/-- Skipping an empty frame. -/
theorem tryRead_meetsEmpty (h : r.meetsEmpty = true) :
    r.tryRead T = (.ok none, r.stripHeader 0) := by
  obtain ⟨h0, hle, hdec⟩ := meetsEmpty_iff.mp h
  exact tryRead_empty_frame h0 hle hdec rfl

private theorem Reads.not_endsStream {r' : LenDelimitedReader L} {res : Res L (Option T)}
    (h : Reads T r res r') : ∀ e, res = .error e → ¬ e.EndsStream := by
  induction h with
  | badHeader _ _ hdec | badPayload _ _ hdec =>
      intro e he
      obtain rfl := Except.error.inj he
      rcases DecryptContext.decrypt_error hdec with ⟨x, rfl⟩ | ⟨x, rfl⟩ <;> exact id
  | oversize =>
      intro e he
      obtain rfl := Except.error.inj he
      exact id
  | header _ _ _ _ _ _ ih => exact ih
  | _ =>
      intro e he
      cases he

/-- Reading from the buffer never reports on the stream. -/
theorem tryRead_not_endsStream {e : SocketError L} (h : (r.tryRead T).1 = .error e) :
    ¬ e.EndsStream :=
  (reads_tryRead r).not_endsStream e h

/-- What a call that returned nothing has done. -/
private inductive Passes (T : Type) [Serde L T] (r : LenDelimitedReader L) :
    LenDelimitedReader L → Prop
  | skipped (h : r.meetsEmpty = true) : Passes T r (r.stripHeader 0)
  | stripped {n : UInt32} (h0 : r.readLen = 0)
      (hlen : r.decCtx.encryptedSizeLen ≤ r.readBuffer.length)
      (hdec : r.decCtx.decrypt r.header = .ok n) (hn : n.toNat ≠ 0)
      (hshort : (r.stripHeader n.toNat).readBuffer.length < n.toNat) :
      Passes T r (r.stripHeader n.toNat)
  | unchanged (h : r.tryRead T = (.ok none, r)) (hmeets : r.meetsEmpty = false) : Passes T r r

private theorem Reads.passes {r' : LenDelimitedReader L} {res : Res L (Option T)}
    (h : Reads T r res r') (hres : res = .ok none) : Passes T r r' := by
  cases h with
  | noHeader h0 hlen =>
      refine .unchanged (tryRead_no_header h0 hlen) ?_
      rw [Bool.eq_false_iff]
      intro hmeets
      have hle := (meetsEmpty_iff.mp hmeets).2.1
      omega
  | noPayload h0 hlen =>
      refine .unchanged (tryRead_no_payload h0 hlen) ?_
      rw [Bool.eq_false_iff]
      exact fun hmeets => h0 (meetsEmpty_iff.mp hmeets).1
  | emptyFrame h0 hlen hdec hn =>
      obtain rfl := UInt32.toNat_inj.mp (hn.trans UInt32.toNat_zero.symm)
      exact .skipped (meetsEmpty_iff.mpr ⟨h0, hlen, hdec⟩)
  | header h0 hlen hdec hmax hn rest =>
      cases rest with
      | noPayload _ hshort => exact .stripped h0 hlen hdec hn hshort
      | noHeader h | emptyFrame h | header h => exact absurd h hn
      | badHeader | oversize | badPayload | payload => cases hres
  | badHeader | oversize | badPayload | payload => cases hres

private theorem passes_tryRead (h : (r.tryRead T).1 = .ok none) : Passes T r (r.tryRead T).2 :=
  (reads_tryRead r).passes h

/-- A call that returned nothing and did not skip an empty frame would do so
again. -/
theorem tryRead_again (h : (r.tryRead T).1 = .ok none) (hmeets : r.meetsEmpty = false) :
    (r.tryRead T).2.tryRead T = (.ok none, (r.tryRead T).2) := by
  have hpasses := passes_tryRead h
  generalize r.tryRead T = out at hpasses
  obtain ⟨res, r'⟩ := out
  cases hpasses with
  | skipped hskipped => simp [hskipped] at hmeets
  | stripped _ _ _ hn hshort => exact tryRead_no_payload hn hshort
  | unchanged hsame _ => exact hsame

/-- Returning nothing takes nothing off what is still to be returned. -/
theorem remaining_tryRead_none (h : (r.tryRead T).1 = .ok none) (a : Bytes) :
    (r.putBuf a).remaining T = ((r.tryRead T).2.putBuf a).remaining T :=
  (denotes_remaining.idle r _ trivial (Prod.ext h rfl)).2.2 a

/-- A message returned is the first of what is still to be returned. -/
theorem remaining_tryRead_some {v : T} (h : (r.tryRead T).1 = .ok (some v)) (a : Bytes) :
    ((r.putBuf a).remaining T).items = v :: (((r.tryRead T).2.putBuf a).remaining T).items :=
  congrArg Parsed.items ((denotes_remaining.item r v _ trivial (Prod.ext h rfl)).2.2 a)

/-- After an error nothing is to be returned. -/
theorem remaining_tryRead_error {e : SocketError L} (h : (r.tryRead T).1 = .error e) (a : Bytes) :
    (r.putBuf a).remaining T = .fail e :=
  denotes_remaining.failed r e _ trivial (Prod.ext h rfl) a

/-- A call that did not skip an empty frame has found the end of a frame
missing. -/
private theorem remaining_of_none (h : (r.tryRead T).1 = .ok none) (hmeets : r.meetsEmpty = false) :
    r.remaining T = .empty := by
  have hsame := remaining_tryRead_none h []
  have hagain := tryRead_again h hmeets
  rw [putBuf_nil, putBuf_nil] at hsame
  rw [hsame]
  rcases (denotes_remaining.idle _ _ trivial hagain).2.1 with ⟨-, hempty⟩ | hlt
  · exact hempty
  · exact absurd hlt (Nat.lt_irrefl _)

/-- **Nothing is returned exactly by an idle reader.** -/
theorem tryRead_none_iff : (r.tryRead T).1 = .ok none ↔ r.Idle T := by
  constructor
  · intro h
    cases hmeets : r.meetsEmpty with
    | true => exact .inl hmeets
    | false => exact .inr (remaining_of_none h hmeets)
  · rintro (hmeets | hempty)
    · rw [tryRead_meetsEmpty hmeets]
    · rcases hres : (r.tryRead T).1 with e | _ | v
      · have hfail := remaining_tryRead_error hres []
        rw [putBuf_nil, hempty] at hfail
        cases hfail
      · rfl
      · have hitems := remaining_tryRead_some hres []
        rw [putBuf_nil, hempty] at hitems
        cases hitems

/-- Bytes put behind a header leave it as it is. -/
private theorem meetsEmpty_putBuf (hlen : r.decCtx.encryptedSizeLen ≤ r.readBuffer.length)
    (a : Bytes) : (r.putBuf a).meetsEmpty = r.meetsEmpty := by
  have hheader : (r.putBuf a).header = r.header := List.take_append_of_le_length hlen
  unfold meetsEmpty
  rw [hheader]
  simp [putBuf, hlen, Nat.le_add_right_of_le hlen]

/-- Whether an empty frame is in front, once more bytes are put, can be told
from the reader before a call that returned nothing; and if there is one, that
call has done nothing else than skip an empty frame. -/
theorem meetsEmpty_tryRead (h : (r.tryRead T).1 = .ok none) (a : Bytes) :
    ((r.tryRead T).2.putBuf a).meetsEmpty = (r.skipEmpty.putBuf a).meetsEmpty ∧
      ((r.skipEmpty.putBuf a).meetsEmpty = true → (r.tryRead T).2 = r.skipEmpty) := by
  have hpasses := passes_tryRead h
  generalize (r.tryRead T).2 = r' at hpasses
  cases hpasses with
  | skipped hmeets => simp [skipEmpty, hmeets]
  | unchanged _ hmeets => simp [skipEmpty, hmeets]
  | @stripped n h0 hlen hdec hn hshort =>
      have hmeets : r.meetsEmpty = false := by
        rw [Bool.eq_false_iff]
        intro hmeets
        have hzero := (meetsEmpty_iff.mp hmeets).2.2
        rw [hdec, Except.ok.injEq] at hzero
        exact hn (by simp [hzero])
      have hphase : ((r.stripHeader n.toNat).putBuf a).meetsEmpty = false := by
        rw [Bool.eq_false_iff]
        exact fun hphase => hn (meetsEmpty_iff.mp hphase).1
      simp [skipEmpty, hmeets, meetsEmpty_putBuf hlen, hphase]

end LenDelimitedReader

/-! ## The spec of a read -/

/-- What `read` returns, and the reader it leaves, once the stream has
stopped. -/
def LenDelimitedReader.report (T : Type) [Serde L UInt32] [Serde L T] (r : LenDelimitedReader L)
    (isSomethingRead : Bool) : Stop → Res L (Option T) × LenDelimitedReader L
  | .eof =>
      if isSomethingRead then
        match r.tryRead T with
        | (.ok none, r) => (.error .zeroByteRead, r)
        | out => out
      else (.error .zeroByteRead, r)
  | .retry => if isSomethingRead then r.tryRead T else (.ok none, r)
  | .hard error => (.error (.io error), r)

namespace Inner

variable [Serde L UInt32] [Serde L T]

/-- What is going to be reported when the loop is in a state. -/
private def reported (T : Type) [Serde L T] (s : Reading L G) :
    Res L (Option T) × LenDelimitedReader L :=
  (s.inner.msgReader.putBuf s.inner.stream.arriving).report T
    (s.isSomethingRead || s.inner.stream.arriving != []) s.inner.stream.stop

/-- A round that goes on leaves that as it is, and the last one reports it. -/
private theorem readRound_reported (s : Reading L G) :
    match readRound T s with
    | (s', none) => reported T s' = reported T s
    | (s', some res) => (res, s'.inner.msgReader) = reported T s := by
  have hhears := s.inner.stream.hears_read
  unfold readRound reported
  generalize s.inner.stream.read = answer at hhears
  obtain ⟨res, stream⟩ := answer
  cases hhears with
  | @segment bytes _ hne harriving hstop =>
      have hlen : bytes.length ≠ 0 := fun h0 => hne (List.length_eq_zero_iff.mp h0)
      have hsome : (bytes ++ stream.arriving != []) = true := by simp [hne]
      simp only [hlen, if_false, harriving, hstop, putBuf_putBuf, hsome, Bool.or_true,
        Bool.true_or]
  | eof harriving hstop =>
      simp only [List.length_nil, if_true, harriving, hstop, putBuf_nil, bne_self_eq_false,
        Bool.or_false, report]
      cases s.isSomethingRead with
      | false => rfl
      | true =>
          simp only [if_true, tryRead]
          rcases s.inner.msgReader.tryRead T with ⟨e | _ | v, r⟩ <;> rfl
  | retry he harriving hstop =>
      simp only [he, if_true, harriving, hstop, putBuf_nil, bne_self_eq_false, Bool.or_false,
        report]
      cases s.isSomethingRead <;> rfl
  | hard he harriving hstop =>
      simp only [he, Bool.false_eq_true, if_false, harriving, hstop, putBuf_nil, report]

private theorem readLoop_reported (s : Reading L G) :
    (((readLoop T).exec s).2, ((readLoop T).exec s).1.inner.msgReader) = reported T s := by
  refine (readLoop T).exec_rule (fun s' => reported T s' = reported T s)
    (fun s' res => (res, s'.inner.msgReader) = reported T s) ?_ ?_ s rfl
  · intro s₁ s₂ hs hbody
    have hround := readRound_reported (T := T) s₁
    replace hbody : readRound T s₁ = (s₂, none) := hbody
    rw [hbody] at hround
    exact hround.trans hs
  · intro s₁ s₂ res hs hbody
    have hround := readRound_reported (T := T) s₁
    replace hbody : readRound T s₁ = (s₂, some res) := hbody
    rw [hbody] at hround
    exact hround.trans hs

/-- **What a read does**, for every script of the stream. -/
theorem read_eq (i : Inner L G) :
    ((i.read T).1, (i.read T).2.msgReader) =
      match i.msgReader.tryRead T with
      | (.ok none, r) => (r.putBuf i.stream.arriving).report T (i.stream.arriving != [])
          i.stream.stop
      | out => out := by
  have hloop := fun r =>
    readLoop_reported (T := T) (⟨{ i with msgReader := r }, false⟩ : Reading L G)
  unfold read tryRead
  rcases i.msgReader.tryRead T with ⟨e | _ | v, r⟩
  · rfl
  · simpa [reported] using hloop r
  · rfl

end Inner

/-! ## The end of the stream after the messages -/

section MessagesFirst

variable [Serde L UInt32] [Serde L T]

/-- A call on a stream that is stopped by `stop`, with the messages of `whole`
to be delivered before, has returned `out` and left a reader.  The end or the
failure of the stream is reported only when the reader holds no message that
could be delivered, and before it comes the first message. -/
def MessagesFirst (whole : Parsed T (SocketError L)) (stop : Stop)
    (out : Res L (Option T) × LenDelimitedReader L) : Prop :=
  (∀ e, out.1 = .error e → e.EndsStream → (out.2.remaining T).items = []) ∧
    ∀ m ms, stop ≠ .retry → whole.items = m :: ms → out.1 = .ok (some m)

namespace MessagesFirst

variable {whole : Parsed T (SocketError L)} {stop : Stop} {r : LenDelimitedReader L}

private theorem failed {e : SocketError L} (he : ¬ e.EndsStream) (hnone : whole.items = []) :
    MessagesFirst whole stop (.error e, r) := by
  constructor
  · intro e' hres hends
    obtain rfl := Except.error.inj hres
    exact absurd hends he
  · intro m ms _ hitems
    simp [hnone] at hitems

private theorem delivered {v : T} {vs : List T} (hfirst : whole.items = v :: vs) :
    MessagesFirst whole stop (.ok (some v), r) := by
  constructor
  · intro e hres
    cases hres
  · intro m ms _ hitems
    rw [hfirst] at hitems
    rw [(List.cons.inj hitems).1]

private theorem waiting : MessagesFirst whole .retry (.ok none, r) := by
  constructor
  · intro e hres
    cases hres
  · intro m ms hretry
    exact absurd rfl hretry

/-- The end of the stream may be reported if there is no message left. -/
private theorem ends_iff (e : SocketError L) (he : e.EndsStream)
    (hwhole : whole = r.remaining T) :
    MessagesFirst whole stop (.error e, r) ↔ whole.items = [] := by
  constructor
  · intro h
    rw [hwhole]
    exact h.1 e rfl he
  · intro hnone
    refine ⟨fun _ _ _ => hwhole ▸ hnone, fun m ms _ hitems => ?_⟩
    simp [hnone] at hitems

/-- What `try_read` returns comes first, if that is not nothing. -/
private theorem tryRead (stop : Stop) (a : Bytes) (h : (r.tryRead T).1 = .ok none → stop = .retry) :
    MessagesFirst ((r.putBuf a).remaining T) stop (r.tryRead T) := by
  rcases hres : r.tryRead T with ⟨e | _ | v, r'⟩
  · have hfirst := congrArg Prod.fst hres
    refine failed (tryRead_not_endsStream hfirst) ?_
    rw [remaining_tryRead_error hfirst a]
    rfl
  · rw [h (congrArg Prod.fst hres)]
    exact waiting
  · exact delivered (remaining_tryRead_some (congrArg Prod.fst hres) a)

/-- **When the messages come first** once the stream has stopped. -/
private theorem report_iff (r : LenDelimitedReader L) (isSomethingRead : Bool) (stop : Stop) :
    MessagesFirst (r.remaining T) stop (r.report T isSomethingRead stop) ↔
      ((r.remaining T).items ≠ [] →
        match stop with
        | .retry => True
        | .eof => isSomethingRead = true ∧ r.meetsEmpty = false
        | .hard _ => False) := by
  have htry := fun stop h => tryRead (T := T) (r := r) stop [] h
  rw [putBuf_nil] at htry
  cases stop with
  | retry =>
      refine iff_of_true ?_ (fun _ => trivial)
      cases isSomethingRead with
      | false => exact waiting
      | true => exact htry .retry fun _ => rfl
  | hard error =>
      rw [report, ends_iff (.io error) trivial rfl]
      exact not_not.symm
  | eof =>
      cases isSomethingRead with
      | false =>
          rw [report, if_neg Bool.false_ne_true, ends_iff .zeroByteRead trivial rfl]
          simp
      | true =>
          simp only [report, if_true, true_and]
          have hfirst := htry .eof
          have hsame := remaining_tryRead_none (T := T) (r := r)
          have hidle := tryRead_none_iff (T := T) (r := r)
          have hmeets : (r.tryRead T).1 ≠ .ok none → r.meetsEmpty = false := by
            intro hsome
            rw [Bool.eq_false_iff]
            exact fun hmeets => hsome (hidle.mpr (.inl hmeets))
          generalize r.tryRead T = out at hfirst hsame hidle hmeets ⊢
          rcases out with ⟨e | _ | v, r'⟩
          · exact iff_of_true (hfirst fun h => by cases h) fun _ => hmeets fun h => by cases h
          · replace hsame := hsame rfl []
            rw [putBuf_nil, putBuf_nil] at hsame
            rw [ends_iff .zeroByteRead trivial hsame]
            rcases hidle.mp rfl with hskips | hempty
            · simp [hskips]
            · simp [hempty, Parsed.empty]
          · exact iff_of_true (hfirst fun h => by cases h) fun _ => hmeets fun h => by cases h

end MessagesFirst

end MessagesFirst

namespace Inner

variable [Serde L UInt32] [Serde L T]

/-- The reader as it is asked last in a call, up to a header taken off. -/
def lastAsked (i : Inner L G) : LenDelimitedReader L :=
  if i.stream.arriving = [] then i.msgReader else i.msgReader.skipEmpty.putBuf i.stream.arriving

/-- A read reports the end or the failure of the stream only after the messages
that came before it. -/
def ReadsMessagesFirst (T : Type) [Serde L T] (i : Inner L G) : Prop :=
  MessagesFirst ((i.msgReader.putBuf i.stream.arriving).remaining T) i.stream.stop
    ((i.read T).1, (i.read T).2.msgReader)

/-- No message is in front when the call is made, one is buffered when the
stream stops, and it stops with a hard error, or at its end with an empty frame
in front. -/
def PassesOver (T : Type) [Serde L T] (i : Inner L G) : Prop :=
  i.msgReader.Idle T ∧ ((i.msgReader.putBuf i.stream.arriving).remaining T).items ≠ [] ∧
    match i.stream.stop with
    | .retry => False
    | .eof => i.lastAsked.meetsEmpty = true
    | .hard _ => True

/-- **When the messages come before the end of the stream.**  Whatever the
socket holds and the stream answers, a read reports the end or the failure of
the stream only after the messages that came before it, exactly if it does not
pass over one: the stream stops with a hard error although a message has
arrived, or at its end when an empty frame is in front. -/
theorem read_messages_first (i : Inner L G) : i.ReadsMessagesFirst T ↔ ¬ i.PassesOver T := by
  have hread := i.read_eq (T := T)
  have hfirst := MessagesFirst.tryRead (T := T) (r := i.msgReader) i.stream.stop i.stream.arriving
  have hidle := tryRead_none_iff (T := T) (r := i.msgReader)
  unfold ReadsMessagesFirst PassesOver
  rw [hread]
  by_cases hnone : (i.msgReader.tryRead T).1 = .ok none
  · have hsame := remaining_tryRead_none hnone i.stream.arriving
    have hmeets := meetsEmpty_tryRead hnone i.stream.arriving
    have hout : i.msgReader.tryRead T = (.ok none, (i.msgReader.tryRead T).2) := Prod.ext hnone rfl
    rw [hout]
    simp only [hsame, MessagesFirst.report_iff, hmeets.1, hidle.mp hnone, true_and]
    rw [not_and, ← hsame]
    refine forall_congr' fun hitems => ?_
    cases i.stream.stop with
    | retry => exact not_false_iff.symm
    | hard error => exact not_true.symm
    | eof =>
        by_cases harriving : i.stream.arriving = []
        · -- nothing has arrived, so the message is behind an empty frame
          rw [harriving, putBuf_nil] at hitems
          have hskips : i.msgReader.meetsEmpty = true :=
            (hidle.mp hnone).resolve_right fun hempty => hitems (by rw [hempty]; rfl)
          simp [lastAsked, harriving, hskips]
        · simp [lastAsked, harriving]
  · have hnot : ¬ i.msgReader.Idle T := fun h => hnone (hidle.mpr h)
    refine iff_of_true ?_ fun h => hnot h.1
    replace hfirst := hfirst fun h => absurd h hnone
    generalize i.msgReader.tryRead T = out at hfirst hnone
    rcases out with ⟨e | _ | v, r'⟩
    · exact hfirst
    · exact absurd rfl hnone
    · exact hfirst

end Inner

namespace BincodeInstance

/-- A socket with the default configuration, over a stream from which this is
to be read. -/
def reading (readResults : List (IoResult Bytes)) : Inner crates Unit :=
  Inner.newWithConf (.scripted [] readResults) .default

/-- **A message is passed over.**  It arrives whole, and then the connection is
reset, or closed with an empty frame in front of the message. -/
theorem message_passed_over :
    ¬ (reading [.ok clearParcel.frame, .error ⟨.connectionReset, none⟩]).ReadsMessagesFirst
        UInt32 ∧
      ¬ (reading [.ok ([0, 0, 0, 0] ++ clearParcel.frame), .ok []]).ReadsMessagesFirst UInt32 := by
  constructor
  · intro h
    have hnone := h.1 _ rfl trivial
    have hleft := remaining_tryRead_some (T := UInt32) (v := 5) (r := ((reading
      [.ok clearParcel.frame, .error ⟨.connectionReset, none⟩]).read UInt32).2.msgReader) rfl []
    rw [putBuf_nil, hnone] at hleft
    cases hleft
  · intro h
    have hnone := h.1 _ rfl trivial
    have hleft := remaining_tryRead_some (T := UInt32) (v := 5) (r := ((reading
      [.ok ([0, 0, 0, 0] ++ clearParcel.frame), .ok []]).read UInt32).2.msgReader) rfl []
    rw [putBuf_nil, hnone] at hleft
    cases hleft

end BincodeInstance

/-! ## Not enough data -/

namespace LenDelimitedReader

variable [Serde L UInt32] [Serde L T] {r : LenDelimitedReader L}

/-- After `Ok(None)` the next call returns the same and changes nothing. -/
def NoneIsStable (T : Type) [Serde L T] (r : LenDelimitedReader L) : Prop :=
  (r.tryRead T).1 = .ok none → (r.tryRead T).2.tryRead T = (.ok none, (r.tryRead T).2)

/-- An empty frame is in front, with at least a header behind it. -/
def SkipsOntoHeader (r : LenDelimitedReader L) : Prop :=
  r.meetsEmpty = true ∧ r.decCtx.encryptedSizeLen ≤ (r.stripHeader 0).readBuffer.length

/-- No message is left, and nothing is returned when asked. -/
def Spent (T : Type) [Serde L T] (r : LenDelimitedReader L) : Prop :=
  (r.remaining T).items = [] ∧ r.Idle T

/-- A call that finds a whole header and returns nothing has taken it off. -/
private theorem Reads.changes {r' : LenDelimitedReader L} {res : Res L (Option T)}
    (h : Reads T r res r') (h0 : r.readLen = 0)
    (hlen : r.decCtx.encryptedSizeLen ≤ r.readBuffer.length) (hres : res = .ok none) :
    r' ≠ r := by
  intro hsame
  cases h with
  | noHeader _ hshort => omega
  | noPayload h => exact h h0
  | emptyFrame =>
      have hpos := r.decCtx.encryptedSizeLen_pos
      have hcount := congrArg (fun r => r.readBuffer.length) hsame
      simp only [stripHeader, List.length_drop] at hcount
      omega
  | header _ _ _ _ hn rest =>
      cases rest with
      | noPayload => exact hn ((congrArg readLen hsame).trans h0)
      | noHeader h | emptyFrame h | header h => exact hn h
      | badHeader | oversize | badPayload | payload => cases hres
  | badHeader | oversize | badPayload | payload => cases hres

theorem noneIsStable_iff : r.NoneIsStable T ↔ ¬ r.SkipsOntoHeader := by
  unfold NoneIsStable SkipsOntoHeader
  cases hmeets : r.meetsEmpty with
  | false => exact iff_of_true (fun h => tryRead_again h hmeets) (by simp)
  | true =>
      rw [tryRead_meetsEmpty hmeets]
      simp only [true_and, forall_const, not_le]
      constructor
      · intro hagain
        by_contra hlen
        exact (Reads.of_eq hagain).changes rfl (not_lt.mp hlen) rfl rfl
      · exact fun hshort => tryRead_no_header rfl hshort

/-- What is left behind a call that returned nothing. -/
private theorem spent_tryRead (h : (r.tryRead T).1 = .ok none) :
    (r.tryRead T).2.Spent T ↔ ¬ (r.meetsEmpty = true ∧ ¬ (r.stripHeader 0).Spent T) := by
  cases hmeets : r.meetsEmpty with
  | true => simp [tryRead_meetsEmpty hmeets]
  | false =>
      have hempty := remaining_of_none h hmeets
      have hsame := remaining_tryRead_none h []
      rw [putBuf_nil, putBuf_nil, hempty] at hsame
      refine iff_of_true ⟨?_, .inr hsame.symm⟩ (by simp)
      rw [← hsame]
      rfl

/-- **When a report of nothing leaves nothing.** -/
private theorem spent_report (r : LenDelimitedReader L) (isSomethingRead : Bool) (stop : Stop) :
    ((r.report T isSomethingRead stop).1 = .ok none →
        (r.report T isSomethingRead stop).2.Spent T) ↔
      ¬ (stop = .retry ∧
        if isSomethingRead then r.meetsEmpty = true ∧ ¬ (r.stripHeader 0).Spent T
        else ¬ r.Spent T) := by
  cases stop with
  | hard error => simp [report]
  | eof =>
      cases isSomethingRead with
      | false => simp [report]
      | true =>
          simp only [report, if_true]
          rcases r.tryRead T with ⟨e | _ | v, r'⟩ <;> simp
  | retry =>
      cases isSomethingRead with
      | false => simp [report]
      | true =>
          simp only [report, if_true, true_and]
          by_cases hnone : (r.tryRead T).1 = .ok none
          · rw [← spent_tryRead hnone]
            exact imp_iff_right hnone
          · refine iff_of_true (fun h => absurd h hnone) fun h => hnone ?_
            rw [tryRead_meetsEmpty h.1]

end LenDelimitedReader

namespace Inner

variable [Serde L UInt32] [Serde L T]

/-- After `Ok(None)` there is no complete message in the buffer, and a read
that finds the stream at `WouldBlock` returns `Ok(None)` again. -/
def NoneIsFinal (T : Type) [Serde L T] (i : Inner L G) : Prop :=
  (i.read T).1 = .ok none → ((i.read T).2.msgReader.remaining T).items = [] ∧
    ∀ stream : TcpStream, stream.Blocks →
      ({ (i.read T).2 with stream := stream }.read T).1 = .ok none

/-- The stream blocks with an empty frame in front of the reader as it is asked
last, and what is behind that frame is not spent. -/
def LeavesUnread (T : Type) [Serde L T] (i : Inner L G) : Prop :=
  i.msgReader.Idle T ∧ i.stream.stop = .retry ∧ i.lastAsked.meetsEmpty = true ∧
    ¬ (i.lastAsked.stripHeader 0).Spent T

/-- A read that finds nothing in the stream returns nothing exactly if the
reader is idle. -/
private theorem read_blocked {i : Inner L G} (h : i.stream.Blocks) :
    (i.read T).1 = .ok none ↔ i.msgReader.Idle T := by
  have hread := congrArg Prod.fst (i.read_eq (T := T))
  obtain ⟨harriving, hstop⟩ := h.heard
  rw [← tryRead_none_iff]
  rw [harriving, hstop] at hread
  generalize i.msgReader.tryRead T = out at hread
  rcases out with ⟨e | _ | v, r⟩
  · exact hread ▸ Iff.rfl
  · exact iff_of_true hread rfl
  · exact hread ▸ Iff.rfl

private theorem noneIsFinal_spent (i : Inner L G) :
    i.NoneIsFinal T ↔ ((i.read T).1 = .ok none → (i.read T).2.msgReader.Spent T) := by
  refine imp_congr_right fun _ => and_congr_right fun _ => ?_
  have hblocked := fun stream (h : TcpStream.Blocks stream) =>
    read_blocked (T := T) (i := { (i.read T).2 with stream := stream }) h
  constructor
  · intro h
    have hscript : (TcpStream.scripted [] []).Blocks := ⟨_, rfl, rfl⟩
    exact (hblocked _ hscript).mp (h _ hscript)
  · intro h stream hblocks
    exact (hblocked stream hblocks).mpr h

theorem noneIsFinal_iff (i : Inner L G) : i.NoneIsFinal T ↔ ¬ i.LeavesUnread T := by
  have hread := i.read_eq (T := T)
  have hidle := tryRead_none_iff (T := T) (r := i.msgReader)
  have hres := congrArg Prod.fst hread
  have hreader := congrArg Prod.snd hread
  rw [noneIsFinal_spent, show (i.read T).1 = _ from hres,
    show (i.read T).2.msgReader = _ from hreader]
  unfold LeavesUnread
  by_cases hnone : (i.msgReader.tryRead T).1 = .ok none
  · have hmeets := meetsEmpty_tryRead hnone i.stream.arriving
    have hspent := spent_tryRead hnone
    have hout : i.msgReader.tryRead T = (.ok none, (i.msgReader.tryRead T).2) := Prod.ext hnone rfl
    rw [hout]
    simp only [spent_report, hidle.mp hnone, true_and]
    refine not_congr (and_congr_right fun _ => ?_)
    by_cases harriving : i.stream.arriving = []
    · simp [lastAsked, harriving, hspent]
    · have hsome : (i.stream.arriving != []) = true := by simp [harriving]
      rw [if_pos hsome, lastAsked, if_neg harriving, hmeets.1]
      exact and_congr_right fun hskips => by rw [hmeets.2 hskips]
  · have hnot : ¬ i.msgReader.Idle T := fun h => hnone (hidle.mpr h)
    refine iff_of_true ?_ fun h => hnot h.1
    generalize i.msgReader.tryRead T = out at hnone
    rcases out with ⟨e | _ | v, r'⟩
    · exact fun h => by cases h
    · exact absurd rfl hnone
    · exact fun h => by cases h

end Inner

/-- **When nothing means not enough data.**  In every state of the reader,
`Ok(None)` is stable exactly if the call did not skip an empty frame with a
header behind it.  In every state of the socket and for every script of its
stream, a read that returns `Ok(None)` leaves no message behind and returns it
again as long as the stream blocks, exactly if it did not skip an empty frame
with something to return behind it. -/
theorem none_means_not_enough [Serde L UInt32] [Serde L T] :
    (∀ r : LenDelimitedReader L, r.NoneIsStable T ↔ ¬ r.SkipsOntoHeader) ∧
      ∀ i : Inner L G, i.NoneIsFinal T ↔ ¬ i.LeavesUnread T :=
  ⟨fun _ => noneIsStable_iff, Inner.noneIsFinal_iff⟩

namespace BincodeInstance

/-- **`Ok(None)` with a message in the buffer.**  An empty frame and a message
arrive together: the message is there, but it takes a second call to get it. -/
theorem message_left_unread :
    ¬ ((LenDelimitedReader.new 100 : LenDelimitedReader crates).putBuf
        ([0, 0, 0, 0] ++ clearParcel.frame)).NoneIsStable UInt32 ∧
      ¬ (reading [.ok ([0, 0, 0, 0] ++ clearParcel.frame)]).NoneIsFinal UInt32 := by
  constructor
  · intro h
    have hagain := congrArg Prod.fst (h rfl)
    cases hagain
  · intro h
    have hagain := (h rfl).2 (.scripted [] []) ⟨_, rfl, rfl⟩
    cases hagain

end BincodeInstance

end SocketCollection
