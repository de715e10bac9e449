import Mathlib.Data.List.Infix
import Mathlib.Data.Stream.Init
import Uos.Net.Tcp.Frame
import Uos.Net.Tcp.User

/-!
# Reading the receive queue of a TCP socket

A call of `tcp_read_poll` takes one packet from the queue, copies what fits in the memory of the
caller and frees the packet.
-/

namespace Uos

open List

/-- The loop that copies the chunks of a packet, when `n` bytes of `len` are stored. -/
def copyChunks (len : Nat) : Nat → List Chunk → List UChar
  | _, [] => []
  | n, q :: rest =>
    if n < len then
      if q.bytes.length = 0 then copyChunks len n rest
      else
        let bytes := if q.bytes.length < len - n then q.bytes.length else len - n
        q.bytes.take bytes ++ copyChunks len (n + bytes) rest
    else []

/-- The end of a call of `tcp_read_poll`. -/
structure TcpReading where
  /-- What is returned; nothing while the call waits. -/
  result : Option Int
  /-- The bytes stored in the memory of the caller. -/
  stored : List UChar
  deriving DecidableEq

/-- The arguments of a call of `tcp_read_poll`, but for the socket and the memory. -/
structure TcpReadRequest where
  len : UShort
  nonblock : Bool

namespace Ip

/-- `tcp_read_poll`, when nothing happens in between. -/
def tcpRead (ip : Ip) (s : SocketId) (request : TcpReadRequest) : Option (TcpReading × Ip) :=
  if request.len = 0 then some ({ result := some (-1), stored := [] }, ip)
  else
    match (ip.tcpSocket s).queueGet with
    | none =>
      let result :=
        if !(ip.tcpSocket s).isOpen then some (-1)
        else if request.nonblock then some 0
        else none
      some ({ result, stored := [] }, ip)
    | some (p, socket) => do
      let ip ← (ip.setTcp s socket).readAck s
      let stored := copyChunks request.len.toNat 0 p.buf.chunks
      some ({ result := some stored.length, stored }, ip)

/-- The bytes stored by successive calls of `tcp_read_poll`. -/
def tcpReads (s : SocketId) : List TcpReadRequest → Ip → Option (List UChar × Ip)
  | [], ip => some ([], ip)
  | request :: rest, ip => do
    let (reading, ip) ← ip.tcpRead s request
    let (stored, ip) ← tcpReads s rest ip
    some (reading.stored ++ stored, ip)

end Ip

/-- The socket was sent these chains, none of which was read. -/
def TcpSocket.Queues (socket : TcpSocket) (chains : List Buf) : Prop :=
  socket.queue = chains.map fun buf => { header := none, buf }

def received (request : TcpReadRequest) (packet : Buf) : List UChar :=
  (payload packet.chunks).take request.len.toNat

theorem payload_cons (q : Chunk) (rest : List Chunk) :
    payload (q :: rest) = q.bytes ++ payload rest :=
  rfl

theorem copyChunks_eq (len n : Nat) (chunks : List Chunk) :
    copyChunks len n chunks = (payload chunks).take (len - n) := by
  induction chunks generalizing n with
  | nil => simp [copyChunks, payload]
  | cons q rest ih =>
    rw [copyChunks, payload_cons]
    split
    · split
      · rename_i blank
        rw [ih, length_eq_zero_iff.mp blank, nil_append]
      · dsimp only
        rw [ih, take_append]
        split
        · rename_i shorter
          rw [take_of_length_le le_rfl, take_of_length_le shorter.le, Nat.sub_sub]
        · have rest_empty : len - (n + (len - n)) = 0 := by omega
          have chunk_full : len - n - q.bytes.length = 0 := by omega
          rw [rest_empty, chunk_full]
    · have room : len - n = 0 := by omega
      rw [room, take_zero]

namespace Ip

variable {ip ip' : Ip} {s : SocketId} {request : TcpReadRequest} {buf : Buf} {chains : List Buf}

theorem readAck_queue (ip : Ip) (s : SocketId) :
    ∃ ip', ip.readAck s = some ip' ∧ (ip'.tcpSocket s).queue = (ip.tcpSocket s).queue := by
  simp only [readAck, tcpAck]
  split
  · rename_i quiet
    have undelayed : (ip.tcpSocket s).ackDelay = false := by
      simpa using (Bool.and_eq_true_iff.mp quiet).left
    rw [undelayed]
    exact ⟨_, rfl, by simp [updateTcp, setTcp]⟩
  · exact ⟨ip, rfl, rfl⟩

theorem tcpRead_cons (positive : request.len ≠ 0)
    (queues : (ip.tcpSocket s).Queues (buf :: chains)) :
    ∃ ip', ip.tcpRead s request =
        some (⟨some (received request buf).length, received request buf⟩, ip') ∧
      (ip'.tcpSocket s).Queues chains := by
  have queue : (ip.tcpSocket s).queue = ⟨none, buf⟩ :: chains.map fun buf => ⟨none, buf⟩ := queues
  simp only [tcpRead, if_neg positive, TcpSocket.queueGet, queue, copyChunks_eq]
  obtain ⟨ip', acks, kept⟩ := (ip.setTcp s _).readAck_queue s
  rw [acks]
  refine ⟨ip', rfl, ?_⟩
  rw [TcpSocket.Queues, kept]
  simp [setTcp]

theorem tcpRead_nil (queues : (ip.tcpSocket s).Queues []) :
    ∃ result, ip.tcpRead s request = some (⟨result, []⟩, ip) := by
  have queue : (ip.tcpSocket s).queue = [] := queues
  simp only [tcpRead, TcpSocket.queueGet, queue]
  split
  · exact ⟨_, rfl⟩
  · exact ⟨_, rfl⟩

theorem tcpReads_eq {requests : List TcpReadRequest}
    (positive : ∀ request ∈ requests, request.len ≠ 0)
    (queues : (ip.tcpSocket s).Queues chains) :
    ∃ ip', tcpReads s requests ip =
      some ((List.zipWith received requests chains).flatten, ip') := by
  induction requests generalizing ip chains with
  | nil => exact ⟨ip, rfl⟩
  | cons request rest ih =>
    have later := fun request inside => positive request (mem_cons_of_mem _ inside)
    cases chains with
    | nil =>
      obtain ⟨result, reads⟩ := @tcpRead_nil _ _ request queues
      obtain ⟨ip', ends⟩ := ih later queues
      refine ⟨ip', ?_⟩
      simp [tcpReads, reads, ends]
    | cons buf chains =>
      obtain ⟨next, reads, queues⟩ := tcpRead_cons (positive request mem_cons_self) queues
      obtain ⟨ip', ends⟩ := ih later queues
      refine ⟨ip', ?_⟩
      simp [tcpReads, reads, ends]

end Ip

section Streams

variable {requests : Stream' TcpReadRequest} {chains : List Buf} {calls : Nat}

theorem take_positive (positive : ∀ k, (requests.get k).len ≠ 0) (calls : Nat) :
    ∀ request ∈ requests.take calls, request.len ≠ 0 := by
  induction calls generalizing requests with
  | zero => simp
  | succ calls ih =>
    rw [Stream'.take_succ, forall_mem_cons]
    exact ⟨positive 0, ih fun k => positive (k + 1)⟩

def queued (chains : List Buf) : List UChar :=
  chains.flatMap fun buf => payload buf.chunks

theorem received_length (request : TcpReadRequest) (packet : Buf) :
    (received request packet).length =
      min request.len.toNat (payload packet.chunks).length :=
  length_take

theorem received_length_sum_le (requests : List TcpReadRequest) (chains : List Buf) :
    (List.zipWith received requests chains).flatten.length ≤ (queued chains).length := by
  induction requests generalizing chains with
  | nil => simp
  | cons request rest ih =>
    cases chains with
    | nil => simp
    | cons buf chains =>
      have later := ih chains
      have first := received_length request buf
      simp only [queued, zipWith_cons_cons, flatten_cons, flatMap_cons,
        length_append] at later ⊢
      omega

theorem fits_of_received
    (whole : (List.zipWith received (requests.take calls) chains).flatten = queued chains)
    {i : Nat} (inside : i < chains.length) :
    (payload chains[i].chunks).length ≤ (requests.get i).len.toNat := by
  induction chains generalizing requests calls i with
  | nil => simp at inside
  | cons buf chains ih =>
    cases calls with
    | zero =>
      have blank : queued (buf :: chains) = [] := by simpa using whole.symm
      have each := flatMap_eq_nil_iff.mp blank _ (getElem_mem inside)
      simp [each]
    | succ calls =>
      have stored : received requests.head buf ++
          (List.zipWith received (requests.tail.take calls) chains).flatten =
            payload buf.chunks ++ queued chains := whole
      have first := received_length requests.head buf
      have later := received_length_sum_le (requests.tail.take calls) chains
      have sizes := congrArg List.length stored
      simp only [length_append] at sizes
      have same : (received requests.head buf).length = (payload buf.chunks).length := by omega
      cases i with
      | zero =>
        have fits : (payload buf.chunks).length ≤ requests.head.len.toNat := by omega
        exact fits
      | succ i =>
        exact ih (append_inj_right stored same) (Nat.succ_lt_succ_iff.mp inside)

theorem received_of_fits
    (fits : ∀ i (inside : i < chains.length),
      (payload chains[i].chunks).length ≤ (requests.get i).len.toNat) :
    (List.zipWith received (requests.take calls) chains).flatten =
      queued (chains.take calls) := by
  induction calls generalizing requests chains with
  | zero => simp [queued]
  | succ calls ih =>
    cases chains with
    | nil => simp [queued]
    | cons buf chains =>
      have first : received requests.head buf = payload buf.chunks :=
        take_of_length_le (fits 0 (Nat.succ_pos _))
      have later := @ih requests.tail chains
        fun i inside => fits (i + 1) (Nat.succ_lt_succ inside)
      calc (List.zipWith received (requests.take (calls + 1)) (buf :: chains)).flatten
          = received requests.head buf ++
              (List.zipWith received (requests.tail.take calls) chains).flatten := rfl
        _ = payload buf.chunks ++ queued (chains.take calls) := by rw [first, later]
        _ = queued ((buf :: chains).take (calls + 1)) := rfl

theorem queued_take_prefix (calls : Nat) (chains : List Buf) :
    queued (chains.take calls) <+: queued chains := by
  refine ⟨queued (chains.drop calls), ?_⟩
  rw [queued, queued, ← flatMap_append, take_append_drop, queued]

end Streams

/-- Successive calls return the stream, and all of it after enough of them, if and only if no
packet is longer than the memory of the call that takes it: the rest of such a packet is freed. -/
theorem tcpReads_whole_iff (ip : Ip) (s : SocketId) (chains : List Buf)
    (requests : Stream' TcpReadRequest) (queues : (ip.tcpSocket s).Queues chains)
    (positive : ∀ k, (requests.get k).len ≠ 0) :
    ((∀ calls, ∃ stored ip', Ip.tcpReads s (requests.take calls) ip = some (stored, ip') ∧
          stored <+: queued chains) ∧
      ∃ enough, ∀ calls ≥ enough, ∃ ip',
        Ip.tcpReads s (requests.take calls) ip = some (queued chains, ip')) ↔
      ∀ i (inside : i < chains.length),
        (payload chains[i].chunks).length ≤ (requests.get i).len.toNat := by
  have reads (calls : Nat) : ∃ ip', Ip.tcpReads s (requests.take calls) ip =
      some ((List.zipWith received (requests.take calls) chains).flatten, ip') :=
    Ip.tcpReads_eq (take_positive positive calls) queues
  constructor
  · rintro ⟨-, enough, all⟩ i inside
    obtain ⟨ip', whole⟩ := all enough le_rfl
    obtain ⟨ip'', stored⟩ := reads enough
    have same := Option.some.inj (stored.symm.trans whole)
    exact fits_of_received (congrArg Prod.fst same) inside
  · intro fits
    refine ⟨fun calls => ?_, chains.length, fun calls enough => ?_⟩
    · obtain ⟨ip', stored⟩ := reads calls
      rw [received_of_fits fits] at stored
      exact ⟨_, ip', stored, queued_take_prefix calls chains⟩
    · obtain ⟨ip', stored⟩ := reads calls
      rw [received_of_fits fits, take_of_length_le enough] at stored
      exact ⟨ip', stored⟩

def twoBytes : Buf where
  totLen := 2
  chunks := [{ bytes := [1, 2] }]

def twoBytesQueued : Ip where
  target := .msp430
  wideShift := fun _ => 0
  tcpSocket := fun _ => { state := .established, queue := [{ header := none, buf := twoBytes }] }

theorem tcpReads_whole_two_at_once :
    (∀ calls, ∃ stored ip',
        Ip.tcpReads 0 ((Stream'.const ⟨2, false⟩).take calls) twoBytesQueued =
            some (stored, ip') ∧
          stored <+: queued [twoBytes]) ∧
      ∃ enough, ∀ calls ≥ enough, ∃ ip',
        Ip.tcpReads 0 ((Stream'.const ⟨2, false⟩).take calls) twoBytesQueued =
          some (queued [twoBytes], ip') := by
  have queues : (twoBytesQueued.tcpSocket 0).Queues [twoBytes] := rfl
  refine (tcpReads_whole_iff twoBytesQueued 0 [twoBytes] _ queues fun k => ?_).mpr fun i
    inside => ?_
  · simp
  · obtain rfl : i = 0 := by simpa using inside
    exact le_rfl

/-- The second byte of the packet is lost when one byte is read at a time. -/
theorem tcpReads_loses_second_byte :
    ¬ ∃ enough, ∀ calls ≥ enough, ∃ ip',
      Ip.tcpReads 0 ((Stream'.const ⟨1, false⟩).take calls) twoBytesQueued =
        some (queued [twoBytes], ip') := by
  rintro ⟨enough, all⟩
  have queues : (twoBytesQueued.tcpSocket 0).Queues [twoBytes] := rfl
  have positive (k : Nat) : ((Stream'.const (⟨1, false⟩ : TcpReadRequest)).get k).len ≠ 0 := by simp
  obtain ⟨ip', whole⟩ := all enough le_rfl
  obtain ⟨ip'', stored⟩ := Ip.tcpReads_eq (take_positive positive enough) queues
  have same := congrArg Prod.fst (Option.some.inj (stored.symm.trans whole))
  have fits : 2 ≤ 1 := fits_of_received same (Nat.succ_pos 0)
  omega

end Uos
