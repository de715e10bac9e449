import Uos.Net.Tcp.Read

/-!
# The stream adapter of a TCP socket

`tcp_stream_getchar` and `tcp_stream_peekchar` of `net/tcp-stream.c`, in every order with the
segments that arrive.
-/

namespace Uos

open List

/-- `tcp_stream_t`, with the memory its pointers lead to. -/
structure TcpStream where
  socket : Option SocketId
  /-- The chain that `inbuf` leads to. -/
  inbuf : List Chunk := []
  /-- The offset of `inptr` in the payload of the first buffer of this chain. -/
  inptr : Nat := 0
  /-- The bytes from `outdata` to `outptr`. -/
  outdata : List UChar := []

/-- The end of a call. -/
inductive StreamAnswer (Value : Type)
  | returned (value : Value)
  | waits
  /-- A byte outside of the payload is read. -/
  | outside
  deriving DecidableEq

namespace TcpStream

/-- `stream_flush` and `socket_flush`, if there is something to flush.  False if the call waits. -/
def flush (u : TcpStream) (ip : Ip) (s : SocketId) : Option (Bool × TcpStream × Ip) :=
  if u.outdata = [] then some (true, u, ip)
  else do
    let (ip, enqueued) ← ip.tcpEnqueue s u.outdata 0 []
    if enqueued then do
      let ip ← ip.tcpOutput s
      some (true, { u with outdata := [] }, ip)
    else some (false, u, ip)

/-- Take a packet that was got from the queue, and acknowledge it. -/
def take (u : TcpStream) (ip : Ip) (s : SocketId) (p : TcpReceived) (socket : TcpSocket) :
    Option (TcpStream × Ip) := do
  let ip ← (ip.setTcp s socket).readAck s
  some ({ u with inbuf := p.buf.chunks, inptr := 0 }, ip)

/-- The byte under `inptr`. -/
def byte (u : TcpStream) : Option UChar :=
  u.inbuf.head?.bind fun chunk => chunk.bytes[u.inptr]?

/-- Go on to the next byte; behind the last one of a buffer, to the next buffer. -/
def advance (u : TcpStream) : TcpStream :=
  match u.inbuf with
  | [] => u
  | old :: rest =>
    if old.bytes.length ≤ u.inptr + 1 then { u with inbuf := rest, inptr := 0 }
    else { u with inptr := u.inptr + 1 }

/-- The end of `tcp_stream_getchar`. -/
def getByte (u : TcpStream) : StreamAnswer UShort × TcpStream :=
  match u.byte with
  | none => (.outside, u)
  | some c => (.returned (c.setWidth 16), u.advance)

/-- The end of `tcp_stream_peekchar`. -/
def peekByte (u : TcpStream) : StreamAnswer Int :=
  match u.byte with
  | none => .outside
  | some c => .returned c.toNat

/-- `tcp_stream_getchar`, when nothing happens in between. -/
def getchar (u : TcpStream) (ip : Ip) : Option (StreamAnswer UShort × TcpStream × Ip) :=
  match u.socket with
  | none => some (.returned (-1), u, ip)
  | some s => do
    let (flushed, u, ip) ← u.flush ip s
    if !flushed then some (.waits, u, ip)
    else if u.inbuf ≠ [] then some (u.getByte.1, u.getByte.2, ip)
    else
      match (ip.tcpSocket s).queueGet with
      | none => some (if (ip.tcpSocket s).isOpen then .waits else .returned (-1), u, ip)
      | some (p, socket) => do
        let (u, ip) ← u.take ip s p socket
        some (u.getByte.1, u.getByte.2, ip)

/-- `tcp_stream_peekchar`, when nothing happens in between. -/
def peekchar (u : TcpStream) (ip : Ip) : Option (StreamAnswer Int × TcpStream × Ip) :=
  match u.socket with
  | none => some (.returned (-1), u, ip)
  | some s => do
    let (flushed, u, ip) ← u.flush ip s
    if !flushed then some (.waits, u, ip)
    else if u.inbuf ≠ [] then some (u.peekByte, u, ip)
    else
      match (ip.tcpSocket s).queueGet with
      | none => some (.returned (-1), u, ip)
      | some (p, socket) => do
        let (u, ip) ← u.take ip s p socket
        some (u.peekByte, u, ip)

/-- `tcp_stream_init` of a `tcp_stream_t` filled with zeroes. -/
def init (s : SocketId) : TcpStream where
  socket := some s

/-- The bytes that `inbuf` and `inptr` lead to. -/
def unread (u : TcpStream) : List UChar :=
  match u.inbuf with
  | [] => []
  | chunk :: rest => chunk.bytes.drop u.inptr ++ payload rest

end TcpStream

/-- A stream with the stack below it, and the bytes that `tcp_stream_getchar` returned. -/
structure StreamSession where
  u : TcpStream
  ip : Ip
  returned : List UChar

/-- What happens next to a stream. -/
inductive StreamEvent
  /-- `tcp_receive` -/
  | receive (h : TcpHdr) (p : Buf)
  /-- Something else that leaves the receive queue as it is. -/
  | other
  | getchar
  | peekchar

namespace StreamSession

variable {session session' start : StreamSession} {s : SocketId} {event : StreamEvent}

def pending (session : StreamSession) (s : SocketId) : List UChar :=
  session.u.unread ++ (session.ip.tcpSocket s).queue.flatMap fun p => payload p.buf.chunks

/-- The buffer that is read next, if there is one, is not empty. -/
def Filled (session : StreamSession) (s : SocketId) : Prop :=
  match session.u.inbuf with
  | chunk :: _ => chunk.bytes ≠ []
  | [] =>
    match (session.ip.tcpSocket s).queue with
    | [] => True
    | p :: _ => ∃ chunk rest, p.buf.chunks = chunk :: rest ∧ chunk.bytes ≠ []

/-- What a call of `tcp_stream_getchar` adds to the bytes that were returned. -/
def bytesOf : StreamAnswer UShort → List UChar
  | .returned value => if value = -1 then [] else [value.setWidth 8]
  | _ => []

/-- One event for a stream over a socket. -/
inductive Step (s : SocketId) : StreamSession → StreamEvent → StreamSession → Prop
  | receive {session : StreamSession} {h : TcpHdr} {p : Buf} {ip' : Ip} {queued : Bool}
      (receives : session.ip.tcpReceive s h p = some (ip', queued)) :
      Step s session (.receive h p) { session with ip := ip' }
  | other {session : StreamSession} {ip' : Ip}
      (queue : (ip'.tcpSocket s).queue = (session.ip.tcpSocket s).queue)
      (queued : (ip'.tcpSocket s).history.queued = (session.ip.tcpSocket s).history.queued) :
      Step s session .other { session with ip := ip' }
  | getchar {session : StreamSession} {answer : StreamAnswer UShort} {u' : TcpStream} {ip' : Ip}
      (gets : session.u.getchar session.ip = some (answer, u', ip')) :
      Step s session .getchar ⟨u', ip', session.returned ++ bytesOf answer⟩
  | peekchar {session : StreamSession} {answer : StreamAnswer Int} {u' : TcpStream} {ip' : Ip}
      (peeks : session.u.peekchar session.ip = some (answer, u', ip')) :
      Step s session .peekchar { session with u := u', ip := ip' }

/-- A run in which no empty buffer is read. -/
abbrev Run (s : SocketId) : StreamSession → StreamSession → Prop :=
  Relation.ReflTransGen fun session session' => ∃ event,
    (event = .getchar ∨ event = .peekchar → session.Filled s) ∧ Step s session event session'

/-- `tcp_stream_init` for a socket that has received nothing. -/
structure Starts (s : SocketId) (session : StreamSession) : Prop where
  u : session.u = .init s
  queue : (session.ip.tcpSocket s).queue = []
  queued : (session.ip.tcpSocket s).history.queued = []
  returned : session.returned = []

/-- A call of `tcp_stream_getchar` returns the next byte; without one it waits, or returns -1 if the
connection is closed. -/
def GetsNext (session : StreamSession) (s : SocketId) : Prop :=
  ∃ answer u' ip', session.u.getchar session.ip = some (answer, u', ip') ∧
    match session.pending s with
    | c :: rest => answer = .returned (c.setWidth 16) ∧
        pending ⟨u', ip', session.returned ++ [c]⟩ s = rest
    | [] => pending ⟨u', ip', session.returned⟩ s = [] ∧
        answer = if (session.ip.tcpSocket s).isOpen then .waits else .returned (-1)

/-- A call of `tcp_stream_peekchar` returns the next byte, or -1 if there is none, and consumes
nothing. -/
def PeeksNext (session : StreamSession) (s : SocketId) : Prop :=
  ∃ answer u' ip', session.u.peekchar session.ip = some (answer, u', ip') ∧
    pending ⟨u', ip', session.returned⟩ s = session.pending s ∧
    answer = match session.pending s with
      | c :: _ => .returned c.toNat
      | [] => .returned (-1)

end StreamSession

namespace TcpStream

variable {u : TcpStream}

/-- The pointer is inside of a buffer, or at its beginning. -/
def Inside (u : TcpStream) : Prop :=
  ∀ chunk rest, u.inbuf = chunk :: rest → u.inptr = 0 ∨ u.inptr < chunk.bytes.length

theorem unread_first (first : u.inptr = 0) : u.unread = payload u.inbuf := by
  rw [unread, first]
  cases u.inbuf with
  | nil => rfl
  | cons chunk rest => rfl

theorem byte_none {chunk : Chunk} {rest : List Chunk} (inbuf : u.inbuf = chunk :: rest)
    (blank : chunk.bytes = []) : u.byte = none := by
  rw [byte, inbuf, List.head?_cons, Option.bind_some, blank]
  rfl

theorem byte_some {chunk : Chunk} {rest : List Chunk} (inside : u.Inside)
    (inbuf : u.inbuf = chunk :: rest) (filled : chunk.bytes ≠ []) :
    ∃ c, u.byte = some c ∧ u.unread = c :: u.advance.unread := by
  have positive : 0 < chunk.bytes.length := length_pos_iff.mpr filled
  have within : u.inptr < chunk.bytes.length := by
    rcases inside chunk rest inbuf with first | within
    · omega
    · exact within
  refine ⟨chunk.bytes[u.inptr], ?_, ?_⟩
  · rw [byte, inbuf, List.head?_cons, Option.bind_some, List.getElem?_eq_getElem within]
  · have whole : u.unread =
        chunk.bytes[u.inptr] :: chunk.bytes.drop (u.inptr + 1) ++ payload rest := by
      rw [unread, inbuf, ← drop_eq_getElem_cons within]
    rw [whole, advance, inbuf]
    dsimp only
    split
    · rename_i last
      rw [drop_eq_nil_of_le last, unread_first rfl]
      rfl
    · rw [unread]
      rfl

theorem advance_inside (u : TcpStream) : u.advance.Inside := by
  rw [advance]
  split
  · rename_i none
    intro chunk rest inbuf
    rw [none] at inbuf
    cases inbuf
  · rename_i old rest here
    split
    · exact fun _ _ _ => .inl rfl
    · rename_i more
      intro chunk rest' inbuf
      rw [here] at inbuf
      cases inbuf
      exact .inr (Nat.lt_of_not_le more)

theorem advance_socket (u : TcpStream) : u.advance.socket = u.socket := by
  rw [advance]
  split
  · rfl
  · split <;> rfl

theorem advance_outdata (u : TcpStream) : u.advance.outdata = u.outdata := by
  rw [advance]
  split
  · rfl
  · split <;> rfl

end TcpStream

theorem Ip.readAck_receiver {ip ip' : Ip} {s : SocketId} (acks : ip.readAck s = some ip') :
    (ip'.tcpSocket s).receiver = (ip.tcpSocket s).receiver := by
  rw [readAck] at acks
  split at acks
  · exact (tcpAck_outputs acks).receiver
  · rw [Option.some.inj acks]

namespace StreamSession

variable {session session' start : StreamSession} {s : SocketId} {event : StreamEvent}

/-- What the events of a stream keep: the bytes that were returned and those that are pending are
the bytes that were received. -/
structure Sound (s : SocketId) (session : StreamSession) : Prop where
  socket : session.u.socket = some s
  outdata : session.u.outdata = []
  inside : session.u.Inside
  delivered : session.returned ++ session.pending s =
    (session.ip.tcpSocket s).history.queued

theorem Starts.sound (starts : Starts s start) : Sound s start := by
  obtain ⟨u, queue, queued, returned⟩ := starts
  refine ⟨by rw [u]; rfl, by rw [u]; rfl, ?_, ?_⟩
  · rw [u]
    exact fun _ _ _ => .inl rfl
  · rw [returned, queued, pending, u, queue]
    rfl

theorem exists_loaded (sound : Sound s session)
    (present : session.u.inbuf ≠ [] ∨ (session.ip.tcpSocket s).queue ≠ []) :
    ∃ u ip, Sound s ⟨u, ip, session.returned⟩ ∧
      pending ⟨u, ip, session.returned⟩ s = session.pending s ∧
      session.u.getchar session.ip = some (u.getByte.1, u.getByte.2, ip) ∧
      session.u.peekchar session.ip = some (u.peekByte, u, ip) ∧
      (session.Filled s ↔ ∃ chunk rest, u.inbuf = chunk :: rest ∧ chunk.bytes ≠ []) := by
  obtain ⟨u, ip, returned⟩ := session
  obtain ⟨socket, outdata, inside, delivered⟩ := sound
  dsimp only at socket outdata inside present
  cases inbuf : u.inbuf with
  | cons chunk rest =>
    refine ⟨u, ip, ⟨socket, outdata, inside, delivered⟩, rfl, ?_, ?_, ?_⟩
    · simp [TcpStream.getchar, TcpStream.flush, socket, outdata, inbuf]
    · simp [TcpStream.peekchar, TcpStream.flush, socket, outdata, inbuf]
    · simp [Filled, inbuf]
  | nil =>
    have some_packet := present.resolve_left (not_not.mpr inbuf)
    obtain ⟨p, rest, queue⟩ := exists_cons_of_ne_nil some_packet
    obtain ⟨taken, gets, same⟩ : ∃ taken, (ip.tcpSocket s).queueGet = some (p, taken) ∧
        taken.history = (ip.tcpSocket s).history ∧ taken.queue = rest := by
      rw [TcpSocket.queueGet, queue]
      exact ⟨_, rfl, rfl, rfl⟩
    obtain ⟨ip', acks, kept⟩ := (ip.setTcp s taken).readAck_queue s
    have history : (ip'.tcpSocket s).history = (ip.tcpSocket s).history := by
      have receiver := congrArg TcpReceiver.history (Ip.readAck_receiver acks)
      rw [Ip.setTcp_self] at receiver
      exact receiver.trans same.1
    rw [Ip.setTcp_self, same.2] at kept
    have same_pending : pending ⟨{ u with inbuf := p.buf.chunks, inptr := 0 }, ip', returned⟩ s =
        pending ⟨u, ip, returned⟩ s := by
      simp only [pending, kept, queue, flatMap_cons]
      rw [TcpStream.unread_first rfl, TcpStream.unread, inbuf, nil_append]
    refine ⟨{ u with inbuf := p.buf.chunks, inptr := 0 }, ip',
      ⟨socket, outdata, fun _ _ _ => .inl rfl, ?_⟩, same_pending, ?_, ?_, ?_⟩
    · dsimp only
      rw [same_pending, history]
      exact delivered
    · simp [TcpStream.getchar, TcpStream.flush, TcpStream.take, socket, outdata,
        inbuf, gets, acks]
    · simp [TcpStream.peekchar, TcpStream.flush, TcpStream.take, socket, outdata, inbuf, gets,
        acks]
    · simp [Filled, inbuf, queue]

theorem calls_empty (sound : Sound s session) (inbuf : session.u.inbuf = [])
    (queue : (session.ip.tcpSocket s).queue = []) :
    session.pending s = [] ∧ session.Filled s ∧
      session.u.getchar session.ip = some
        (if (session.ip.tcpSocket s).isOpen then .waits else .returned (-1), session.u,
          session.ip) ∧
      session.u.peekchar session.ip = some (.returned (-1), session.u, session.ip) := by
  have gets : (session.ip.tcpSocket s).queueGet = none := by
    rw [TcpSocket.queueGet, queue]
  refine ⟨?_, ?_, ?_, ?_⟩
  · rw [pending, TcpStream.unread, inbuf, queue]
    rfl
  · simp [Filled, inbuf, queue]
  · simp [TcpStream.getchar, TcpStream.flush, sound.socket, sound.outdata, inbuf, gets]
  · simp [TcpStream.peekchar, TcpStream.flush, sound.socket, sound.outdata, inbuf, gets]

theorem empty_or_present (session : StreamSession) (s : SocketId) :
    (session.u.inbuf = [] ∧ (session.ip.tcpSocket s).queue = []) ∨
      (session.u.inbuf ≠ [] ∨ (session.ip.tcpSocket s).queue ≠ []) := by
  tauto

theorem pending_byte {u : TcpStream} {ip : Ip} {returned : List UChar} {chunk : Chunk}
    {rest : List Chunk} (sound : Sound s ⟨u, ip, returned⟩) (inbuf : u.inbuf = chunk :: rest)
    (filled : chunk.bytes ≠ []) :
    ∃ c, u.byte = some c ∧
      pending ⟨u, ip, returned⟩ s = c :: pending ⟨u.advance, ip, returned ++ [c]⟩ s := by
  obtain ⟨c, here, unread⟩ := TcpStream.byte_some sound.inside inbuf filled
  refine ⟨c, here, ?_⟩
  rw [pending, unread]
  rfl

theorem byte_unfilled {u : TcpStream}
    (unfilled : ¬∃ chunk rest, u.inbuf = chunk :: rest ∧ chunk.bytes ≠ []) : u.byte = none := by
  cases inbuf : u.inbuf with
  | nil =>
    rw [TcpStream.byte, inbuf]
    rfl
  | cons chunk rest =>
    apply TcpStream.byte_none inbuf
    by_contra filled
    exact unfilled ⟨chunk, rest, inbuf, filled⟩

/-- A call of `tcp_stream_getchar` does what it should exactly if it reads no empty buffer. -/
theorem getsNext_iff (sound : Sound s session) : session.GetsNext s ↔ session.Filled s := by
  rcases empty_or_present session s with ⟨inbuf, queue⟩ | present
  · obtain ⟨none, filled, gets, -⟩ := calls_empty sound inbuf queue
    refine iff_of_true ⟨_, _, _, gets, ?_⟩ filled
    rw [none]
    exact ⟨rfl, rfl⟩
  · obtain ⟨u, ip, sound', same, gets, -, filled_iff⟩ := exists_loaded sound present
    rw [filled_iff]
    constructor
    · rintro ⟨answer, u', ip', gets', next⟩
      by_contra unfilled
      rw [gets, TcpStream.getByte, byte_unfilled unfilled] at gets'
      cases gets'
      generalize session.pending s = bytes at next
      cases bytes with
      | nil =>
        have answers := next.2
        split_ifs at answers
      | cons c bytes => cases next.1
    · rintro ⟨chunk, rest, inbuf, filled⟩
      obtain ⟨c, here, first⟩ := pending_byte sound' inbuf filled
      rw [TcpStream.getByte, here] at gets
      refine ⟨_, _, _, gets, ?_⟩
      rw [← same, first]
      exact ⟨rfl, rfl⟩

/-- A call of `tcp_stream_peekchar` does what it should exactly if it reads no empty buffer. -/
theorem peeksNext_iff (sound : Sound s session) : session.PeeksNext s ↔ session.Filled s := by
  rcases empty_or_present session s with ⟨inbuf, queue⟩ | present
  · obtain ⟨none, filled, -, peeks⟩ := calls_empty sound inbuf queue
    refine iff_of_true ⟨_, _, _, peeks, rfl, ?_⟩ filled
    rw [none]
  · obtain ⟨u, ip, sound', same, -, peeks, filled_iff⟩ := exists_loaded sound present
    rw [filled_iff]
    constructor
    · rintro ⟨answer, u', ip', peeks', -, next⟩
      by_contra unfilled
      rw [peeks, TcpStream.peekByte, byte_unfilled unfilled] at peeks'
      generalize session.pending s = bytes at next
      cases bytes <;> cases next <;> cases peeks'
    · rintro ⟨chunk, rest, inbuf, filled⟩
      obtain ⟨c, here, first⟩ := pending_byte sound' inbuf filled
      rw [TcpStream.peekByte, here] at peeks
      refine ⟨_, _, _, peeks, same, ?_⟩
      rw [← same, first]

theorem bytesOf_returned (c : UChar) : bytesOf (.returned (c.setWidth 16)) = [c] := by
  have small := c.isLt
  have other : c.setWidth 16 ≠ (-1 : UShort) := by
    intro same
    have number := congrArg BitVec.toNat same
    rw [BitVec.toNat_setWidth] at number
    change _ = 65535 at number
    omega
  rw [bytesOf, if_neg other, BitVec.setWidth_setWidth_of_le _ (by omega), BitVec.setWidth_eq]

theorem bytesOf_empty (isOpen : Bool) :
    bytesOf (if isOpen then .waits else .returned (-1)) = [] := by
  cases isOpen <;> rfl

/-- What `tcp_receive` puts into the queue is what it remembers as received; the empty buffer of a
FIN adds no bytes. -/
theorem receive_sound {h : TcpHdr} {p : Buf} {ip' : Ip} {queued : Bool} (sound : Sound s session)
    (receives : session.ip.tcpReceive s h p = some (ip', queued)) :
    Sound s { session with ip := ip' } := by
  refine ⟨sound.socket, sound.outdata, sound.inside, ?_⟩
  have delivered := sound.delivered
  rw [pending] at delivered
  obtain ⟨-, ⟨-, p', -, queues⟩ | ⟨-, same, -⟩⟩ := Ip.tcpReceive_spec receives
  · obtain ⟨data, fin, queue, stored, ends⟩ := queues.queue
    have silent : fin.flatMap (fun p => payload p.buf.chunks) = [] := by
      rcases ends with rfl | ⟨rfl, -⟩
      · rfl
      · rfl
    rw [pending, queue]
    simp only [flatMap_append, silent, append_nil]
    rcases queues.stored with ⟨rfl, -, -, history⟩ | ⟨rfl, -, history⟩
    · rw [history, ← delivered, stored]
      simp
    · rw [history, ← delivered, stored]
      simp
  · have queue : (ip'.tcpSocket s).queue = (session.ip.tcpSocket s).queue :=
      congrArg TcpReceiver.queue same
    have history : (ip'.tcpSocket s).history = (session.ip.tcpSocket s).history :=
      congrArg TcpReceiver.history same
    rw [pending, queue, history]
    exact delivered

theorem getchar_sound {answer : StreamAnswer UShort} {u' : TcpStream} {ip' : Ip}
    (sound : Sound s session) (filled : session.Filled s)
    (gets : session.u.getchar session.ip = some (answer, u', ip')) :
    Sound s ⟨u', ip', session.returned ++ bytesOf answer⟩ := by
  rcases empty_or_present session s with ⟨inbuf, queue⟩ | present
  · obtain ⟨-, -, gets', -⟩ := calls_empty sound inbuf queue
    cases gets.symm.trans gets'
    rw [bytesOf_empty, append_nil]
    exact sound
  · obtain ⟨u, ip, sound', same, gets', -, filled_iff⟩ := exists_loaded sound present
    obtain ⟨chunk, rest, inbuf, some_byte⟩ := filled_iff.mp filled
    obtain ⟨c, here, first⟩ := pending_byte sound' inbuf some_byte
    rw [TcpStream.getByte, here] at gets'
    cases gets.symm.trans gets'
    rw [bytesOf_returned]
    refine ⟨?_, ?_, u.advance_inside, ?_⟩
    · exact u.advance_socket.trans sound'.socket
    · exact u.advance_outdata.trans sound'.outdata
    · have delivered := sound'.delivered
      rw [first] at delivered
      dsimp only at delivered ⊢
      rw [append_assoc, singleton_append]
      exact delivered

theorem peekchar_sound {answer : StreamAnswer Int} {u' : TcpStream} {ip' : Ip}
    (sound : Sound s session)
    (peeks : session.u.peekchar session.ip = some (answer, u', ip')) :
    Sound s { session with u := u', ip := ip' } := by
  rcases empty_or_present session s with ⟨inbuf, queue⟩ | present
  · obtain ⟨-, -, -, peeks'⟩ := calls_empty sound inbuf queue
    cases peeks.symm.trans peeks'
    exact sound
  · obtain ⟨u, ip, sound', -, -, peeks', -⟩ := exists_loaded sound present
    cases peeks.symm.trans peeks'
    exact sound'

theorem step_sound (sound : Sound s session)
    (filled : event = .getchar ∨ event = .peekchar → session.Filled s)
    (step : Step s session event session') : Sound s session' := by
  cases step with
  | receive receives => exact receive_sound sound receives
  | other queue queued =>
    refine ⟨sound.socket, sound.outdata, sound.inside, ?_⟩
    rw [pending]
    dsimp only
    rw [queue, queued]
    exact sound.delivered
  | getchar gets => exact getchar_sound sound (filled (.inl rfl)) gets
  | peekchar peeks => exact peekchar_sound sound peeks

theorem run_sound (starts : Starts s start) (run : Run s start session) : Sound s session := by
  induction run with
  | refl => exact starts.sound
  | tail _ last ih =>
    obtain ⟨event, filled, step⟩ := last
    exact step_sound ih filled step

/-- In every run in which no empty buffer is read, what was returned is the beginning of what was
received and the rest is pending; and the next call does what it should if and only if it does not
read an empty buffer. -/
theorem stream_delivers_iff (starts : Starts s start) (run : Run s start session) :
    session.returned ++ session.pending s = (session.ip.tcpSocket s).history.queued ∧
      (session.GetsNext s ↔ session.Filled s) ∧ (session.PeeksNext s ↔ session.Filled s) :=
  have sound := run_sound starts run
  ⟨sound.delivered, getsNext_iff sound, peeksNext_iff sound⟩

/-- An established connection, whose next segment has a length in sequence numbers. -/
def connected (len : UShort) : Ip where
  target := .msp430
  wideShift := fun _ => 0
  memory := [true]
  tcpInputLen := len
  tcpSocket := fun _ => { state := .established, rcvWnd := 2048 }

def segment (flags : TcpFlags) : TcpHdr where
  srcIp := #v[10, 0, 0, 20]
  destIp := #v[10, 0, 0, 19]
  src := 80
  dest := 4096
  seqno := 0
  ackno := 0
  offset := 0x50
  flags
  wnd := 2048

def afterSegment (ip : Ip) (h : TcpHdr) (p : Buf) (state : TcpState) : StreamSession where
  u := .init 0
  ip := ((ip.tcpReceive 0 h p).map Prod.fst).elim ip fun ip =>
    ip.updateTcp 0 fun socket => { socket with state }
  returned := []

theorem afterSegment_run {len : UShort} {h : TcpHdr} {p : Buf} (state : TcpState)
    (receives : ((connected len).tcpReceive 0 h p).isSome = true) :
    Run 0 ⟨.init 0, connected len, []⟩ (afterSegment (connected len) h p state) := by
  obtain ⟨⟨ip', queued⟩, received⟩ := Option.isSome_iff_exists.mp receives
  have arrives : Step 0 ⟨.init 0, connected len, []⟩ (.receive h p) ⟨.init 0, ip', []⟩ :=
    .receive received
  refine .tail (.single ⟨_, by simp, arrives⟩) ⟨.other, by simp, ?_⟩
  rw [afterSegment, received]
  apply Step.other
  · simp [Ip.updateTcp, Ip.setTcp]
  · simp [Ip.updateTcp, Ip.setTcp]

theorem connected_starts (len : UShort) : Starts 0 ⟨.init 0, connected len, []⟩ :=
  ⟨rfl, rfl, rfl, rfl⟩

def filledStream : StreamSession :=
  afterSegment (connected 2) (segment 0) twoBytes .established

theorem stream_delivers_twoBytes :
    filledStream.returned ++ filledStream.pending 0 =
        (filledStream.ip.tcpSocket 0).history.queued ∧
      (filledStream.GetsNext 0 ↔ filledStream.Filled 0) ∧
      (filledStream.PeeksNext 0 ↔ filledStream.Filled 0) :=
  stream_delivers_iff (connected_starts 2) (afterSegment_run .established (by decide +kernel))

/-- A connection that the peer has closed, where all bytes were read. -/
def ended : StreamSession :=
  afterSegment (connected 1) (segment TcpFlags.fin) Ip.emptyReceived.buf .closeWait

/-- Both calls read outside of the empty buffer of the FIN, and do not return -1. -/
theorem stream_ended :
    Run 0 ⟨.init 0, connected 1, []⟩ ended ∧ (ended.ip.tcpSocket 0).isOpen = false ∧
      ended.pending 0 = [] ∧
      (ended.u.getchar ended.ip).map Prod.fst = some .outside ∧
      (ended.u.peekchar ended.ip).map Prod.fst = some .outside ∧
      ¬ended.GetsNext 0 ∧ ¬ended.PeeksNext 0 := by
  have run : Run 0 _ ended := afterSegment_run .closeWait (by decide +kernel)
  have sound := run_sound (connected_starts 1) run
  have unfilled : ¬ended.Filled 0 := by
    have queue :
        (ended.ip.tcpSocket 0).queue.map (fun p => p.buf.chunks) = [[{ bytes := [] }]] := by
      decide +kernel
    obtain ⟨p, rest, equal, chunks, -⟩ := map_eq_cons_iff.mp queue
    rw [Filled, show ended.u.inbuf = [] from rfl, equal]
    rintro ⟨chunk, others, split, filled⟩
    rw [chunks] at split
    cases split
    exact filled rfl
  exact ⟨run, by decide +kernel, by decide +kernel, by decide +kernel, by decide +kernel,
    fun gets => unfilled ((getsNext_iff sound).mp gets),
    fun peeks => unfilled ((peeksNext_iff sound).mp peeks)⟩

end StreamSession
end Uos
