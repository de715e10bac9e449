import Mathlib.Data.List.GetD
import Uos.Net.Udp
import Uos.Net.Tcp.Output

/-!
# The checksums of transport segments

What the segments sent by `net/tcp-out.c` and `net/udp.c` have in their checksum field, and whether
they pass the test of a receiver, which may be another machine.
-/

namespace Uos

open List Option

namespace Checksum

theorem digest_field {front : List UChar} (back : List UChar) (field : UShort)
    (even : front.length % 2 = 0) :
    digest (front ++ [UShort.high field, UShort.low field] ++ back) =
      digest (front ++ [0, 0] ++ back) + field.toNat := by
  have split := cast_split field.toNat 256
  have plain := OnesComplement.flip_even flip_twice even
  simp only [append_assoc, digest_append, cons_append, nil_append,
    digest_pair, plain,
    UShort.high_toNat, UShort.low_toNat]
  rw [split]
  push_cast
  simp
  ring

/-- Whether exchanging the bytes of a sum leaves it as it is. -/
def Palindromic (buf : List UChar) : Prop :=
  ((256 : Nat) : Residue) * digest buf = digest buf

theorem digest_pseudoHeader_append (src dest : IpAddr) (proto : UChar) (len : UShort)
    (buf : List UChar) :
    digest (pseudoHeader src dest proto len ++ buf) =
      digest (pseudoHeader src dest proto len) + digest buf := by
  have even : (256 : Residue) ^ 12 = 1 := by decide
  rw [digest_append]
  change _ + (256 : Residue) ^ 12 * _ = _
  rw [even, one_mul]

section Field

variable {sender : Target} {src dest : IpAddr} {proto : UChar} {len stored : UShort}
variable {front back : List UChar}

theorem verifies_iff {receiver : Target} {received : List Chunk} (even : front.length % 2 = 0)
    (positive : 0 < proto.toNat) (short : (payload received).length < 65536)
    (whole : payload received = front ++ [UShort.high stored, UShort.low stored] ++ back)
    (value : (stored.toNat : Residue) =
      -(scale sender * (256 * digest (pseudoHeader src dest proto len)) +
        digest (front ++ [0, 0] ++ back))) :
    bufChksum receiver received (crc16InetHeader receiver src dest proto len) = some 0 ↔
      (∀ chunk ∈ received, Readable receiver chunk) ∧
        (scale receiver * scale sender) * digest (pseudoHeader src dest proto len) =
          digest (pseudoHeader src dest proto len) := by
  obtain ⟨sum, start⟩ := crc16InetHeader_spec receiver src dest len positive
  have twice := flip_twice
  rw [bufChksum_eq_zero_iff short start, sum, whole, digest_field back stored even, value]
  apply and_congr_right'
  constructor
  · intro zero
    linear_combination -256 * zero + (digest (pseudoHeader src dest proto len) -
      scale receiver * scale sender * digest (pseudoHeader src dest proto len)) * twice
  · intro same
    linear_combination -256 * same

theorem prescribed_iff (positive : 0 < proto.toNat) (bound : stored.toNat < 65535)
    (value : (stored.toNat : Residue) =
      -(scale sender * (256 * digest (pseudoHeader src dest proto len)) +
        digest (front ++ [0, 0] ++ back))) :
    stored = prescribed (pseudoHeader src dest proto len ++ (front ++ [0, 0] ++ back)) ↔
      scale sender * (256 * digest (pseudoHeader src dest proto len)) =
        digest (pseudoHeader src dest proto len) := by
  obtain ⟨bound', value'⟩ := @prescribed_spec
    (pseudoHeader src dest proto len ++ (front ++ [0, 0] ++ back))
    ⟨proto, by simp [pseudoHeader], positive⟩
  rw [digest_pseudoHeader_append] at value'
  constructor
  · intro same
    rw [← same, value] at value'
    linear_combination -value'
  · intro same
    apply BitVec.eq_of_toNat_eq
    apply OnesComplement.eq_of_complement bound bound'
    rw [value, value', same]

theorem orders_iff (sender receiver : Target) (sum : Residue) :
    (scale receiver * scale sender) * sum = sum ∧ scale sender * (256 * sum) = sum ↔
      (sender.bigEndian = false ∧ receiver.bigEndian = false) ∨ 256 * sum = sum := by
  have twice := flip_twice
  have back : 256 * (256 * sum) = sum := by linear_combination sum * twice
  cases first : sender.bigEndian <;> cases second : receiver.bigEndian <;>
    simp [scale, first, second, twice, back]

end Field
end Checksum

/-- A transport segment, with what its receiver finds in the IP header. -/
structure Datagram where
  src : IpAddr
  dest : IpAddr
  proto : UChar
  segment : List UChar

def Transmission.datagram (t : Transmission) : Datagram :=
  let bytes := payload t.packet.chunks
  { src := #v[bytes.getD 12 0, bytes.getD 13 0, bytes.getD 14 0, bytes.getD 15 0]
    dest := #v[bytes.getD 16 0, bytes.getD 17 0, bytes.getD 18 0, bytes.getD 19 0]
    proto := bytes.getD 9 0
    segment := bytes.drop 20 }

namespace Datagram

def chksumOffset (d : Datagram) : Nat :=
  if d.proto = protoUdp then 6 else 16

def stored (d : Datagram) : UShort :=
  .ofBytes (d.segment.getD d.chksumOffset 0) (d.segment.getD (d.chksumOffset + 1) 0)

def blank (d : Datagram) : List UChar :=
  d.segment.take d.chksumOffset ++ [0, 0] ++ d.segment.drop (d.chksumOffset + 2)

def pseudoHeader (d : Datagram) : List UChar :=
  Checksum.pseudoHeader d.src d.dest d.proto (.ofNat 16 d.segment.length)

/-- The checksum in the header is the one that the protocols prescribe: UDP has no zero. -/
def Prescribed (d : Datagram) : Prop :=
  let chksum := Checksum.prescribed (d.pseudoHeader ++ d.blank)
  d.stored = if d.proto = protoUdp ∧ chksum = 0 then 0xffff else chksum

/-- The length that a receiver sums up: UDP has it in the header. -/
def protoLen (d : Datagram) (received : List Chunk) : UShort :=
  if d.proto = protoUdp then .ofBytes (d.segment.getD 4 0) (d.segment.getD 5 0)
  else .ofNat 16 (payload received).length

/-- The test of `tcp_input` or `udp_input`, for a segment received in a chain of buffers. -/
def Verifies (d : Datagram) (receiver : Target) (received : List Chunk) : Prop :=
  d.proto = protoUdp ∧ d.stored = 0 ∨
    bufChksum receiver received
      (crc16InetHeader receiver d.src d.dest d.proto (d.protoLen received)) = some 0

/-- Whether the machines sum up the pseudo-header in the same order, and the code of the receiver
gets through its chain of buffers. -/
def Understood (d : Datagram) (sender receiver : Target) (received : List Chunk) : Prop :=
  (∀ chunk ∈ received, Checksum.Readable receiver chunk) ∧
    (sender.bigEndian = false ∧ receiver.bigEndian = false ∨
      Checksum.Palindromic d.pseudoHeader)

/-- The checksum of a segment is what the code of the sender computes. -/
structure Stamped (sender : Target) (d : Datagram) : Prop where
  positive : 0 < d.proto.toNat
  short : d.segment.length < 65536
  long : d.chksumOffset + 2 ≤ d.segment.length
  len : ∀ received, payload received = d.segment →
    d.protoLen received = .ofNat 16 d.segment.length
  field : ∃ chksum : UShort, chksum.toNat < 65535 ∧
    (chksum.toNat : Checksum.Residue) =
      -(Checksum.scale sender * (256 * Checksum.digest d.pseudoHeader) +
        Checksum.digest d.blank) ∧
    d.stored = if d.proto = protoUdp ∧ chksum = 0 then 0xffff else chksum

theorem chksumOffset_even (d : Datagram) : d.chksumOffset % 2 = 0 := by
  rw [chksumOffset]
  split <;> rfl

variable {sender : Target}

theorem Stamped.split {d : Datagram} (stamped : d.Stamped sender) :
    d.segment = d.segment.take d.chksumOffset ++
      [UShort.high d.stored, UShort.low d.stored] ++ d.segment.drop (d.chksumOffset + 2) := by
  have long := stamped.long
  rw [stored, UShort.high_ofBytes, UShort.low_ofBytes, getD_eq_getElem _ _ (by omega),
    getD_eq_getElem _ _ (by omega)]
  simp [append_assoc]

theorem exact_ones {condition : Prop} [Decidable condition] {first second : UShort}
    (low : first.toNat < 65535) (low' : second.toNat < 65535) :
    ((if condition ∧ first = 0 then 0xffff else first) =
      if condition ∧ second = 0 then (0xffff : UShort) else second) ↔ first = second := by
  have notOnes : ∀ {value : UShort}, value.toNat < 65535 → value ≠ 0xffff := by
    rintro value bound rfl
    exact absurd bound (by decide)
  constructor
  · intro same
    split at same <;> split at same
    · rename_i left right
      rw [left.2, right.2]
    · exact absurd same.symm (notOnes low')
    · exact absurd same (notOnes low)
    · exact same
  · rintro rfl
    rfl

theorem Stamped.delivered {d : Datagram} (stamped : d.Stamped sender) {receiver : Target}
    {received : List Chunk} (whole : payload received = d.segment) :
    d.Verifies receiver received ∧ d.Prescribed ↔ d.Understood sender receiver received := by
  obtain ⟨chksum, bound, value, field⟩ := stamped.field
  have right : d.Prescribed ↔
      Checksum.scale sender * (256 * Checksum.digest d.pseudoHeader) =
        Checksum.digest d.pseudoHeader := by
    refine Iff.trans ?_ (Checksum.prescribed_iff stamped.positive bound value)
    rw [Prescribed, field]
    apply exact_ones bound
    exact (@Checksum.prescribed_spec (d.pseudoHeader ++ d.blank)
      ⟨d.proto, by simp [pseudoHeader, Checksum.pseudoHeader], stamped.positive⟩).1
  have same : (d.stored.toNat : Checksum.Residue) = chksum.toNat := by
    rw [field]
    split
    · rename_i zero
      rw [zero.2]
      decide
    · rfl
  have nonzero : ¬(d.proto = protoUdp ∧ d.stored = 0) := by
    rintro ⟨udp, zero⟩
    rw [field] at zero
    split at zero
    · contradiction
    · rename_i other
      exact other ⟨udp, zero⟩
  have short : (payload received).length < 65536 := by
    rw [whole]
    exact stamped.short
  have front : (d.segment.take d.chksumOffset).length = d.chksumOffset :=
    length_take_of_le (by have := stamped.long; omega)
  have even : (d.segment.take d.chksumOffset).length % 2 = 0 := by
    rw [front, chksumOffset_even]
  rw [Verifies, or_iff_right nonzero, stamped.len received whole, right,
    Checksum.verifies_iff even stamped.positive short (whole.trans stamped.split)
      (same.trans value), and_assoc]
  exact and_congr_right' (Checksum.orders_iff sender receiver _)

theorem stamped_of {src dest : IpAddr} {proto : UChar} {front back : List UChar} {chksum : UShort}
    (positive : 0 < proto.toNat) (place : front.length = if proto = protoUdp then 6 else 16)
    (short : front.length + 2 + back.length < 65536)
    (len : proto = protoUdp → UShort.ofBytes (front.getD 4 0) (front.getD 5 0) =
      .ofNat 16 (front.length + 2 + back.length)) (bound : chksum.toNat < 65535)
    (value : (chksum.toNat : Checksum.Residue) =
      -(Checksum.scale sender * (256 * Checksum.digest (Checksum.pseudoHeader src dest proto
        (.ofNat 16 (front.length + 2 + back.length)))) +
        Checksum.digest (front ++ [0, 0] ++ back))) {field : UShort}
    (stored : field = if proto = protoUdp ∧ chksum = 0 then 0xffff else chksum) :
    ({ src, dest, proto, segment := front ++ [UShort.high field, UShort.low field] ++ back } :
      Datagram).Stamped sender := by
  set d : Datagram :=
    { src, dest, proto, segment := front ++ [UShort.high field, UShort.low field] ++
      back } with d_eq
  have offset : d.chksumOffset = front.length := place.symm
  have total : d.segment.length = front.length + 2 + back.length := by
    simp [d_eq]
    omega
  have blank : d.blank = front ++ [0, 0] ++ back := by
    rw [Datagram.blank, offset]
    simp [d_eq]
  have stamp : d.stored = field := by
    have first : d.segment.getD front.length 0 = UShort.high field := by
      rw [d_eq, append_assoc, getD_append_right _ _ _ _ le_rfl, Nat.sub_self]
      rfl
    have second : d.segment.getD (front.length + 1) 0 = UShort.low field := by
      rw [d_eq, append_assoc, getD_append_right _ _ _ _ (Nat.le_add_right _ 1),
        Nat.add_sub_cancel_left]
      rfl
    rw [Datagram.stored, offset, first, second]
    exact UShort.ofBytes_high_low field
  refine ⟨positive, by omega, by rw [offset, total]; omega, fun received whole => ?_, chksum,
    bound, ?_, ?_⟩
  · rw [protoLen, total, whole, total]
    split
    · rename_i udp
      have six : front.length = 6 := place.trans (if_pos udp)
      rw [← len udp]
      simp only [d_eq, append_assoc]
      rw [getD_append _ _ _ _ (by omega), getD_append _ _ _ _ (by omega)]
    · rfl
  · rw [blank, pseudoHeader, total, value]
  · rw [stamp, stored]

end Datagram

/-- Whether the length of a segment fits an `unsigned short`. -/
def TcpSegment.Fits (seg : TcpSegment) : Prop :=
  20 + (seg.options ++ payload seg.chunks).length < 65536

namespace Ip

variable {ip : Ip} {d : Datagram} {ip' : Ip} {p : Buf} {dest : IpAddr}
  {header : UShort → List UChar} {front : List UChar} {localIp : IpAddr} {s : SocketId}

theorem datagram_of {t : Transmission} {totLen chksum : UShort} (whole : payload t.packet.chunks =
      ip.header totLen d.proto d.src d.dest chksum ++ d.segment) : t.datagram = d := by
  obtain ⟨src, dest, proto, segment⟩ := d
  have src_eq : src = #v[src[0], src[1], src[2], src[3]] := by
    apply Vector.toList_inj.mp
    rw [IpAddr.toList_eq src]
    rfl
  have dest_eq : dest = #v[dest[0], dest[1], dest[2], dest[3]] := by
    apply Vector.toList_inj.mp
    rw [IpAddr.toList_eq dest]
    rfl
  rw [src_eq, dest_eq]
  simp only [Transmission.datagram, whole, header, IpAddr.toList_eq]
  rfl

/-- Every packet given to an interface between two states is a segment with its checksum. -/
structure Emits (ip ip' : Ip) : Prop where
  target : ip'.target = ip.target
  sent : ∃ packets, ip'.sent = ip.sent ++ packets ∧ ∀ t ∈ packets, t.datagram.Stamped ip.target

theorem Emits.silent (target : ip'.target = ip.target) (sent : ip'.sent = ip.sent) :
    Emits ip ip' :=
  ⟨target, [], by simp [sent], by simp⟩

theorem Emits.trans {ip ip' ip'' : Ip} (first : Emits ip ip') (second : Emits ip' ip'') :
    Emits ip ip'' := by
  obtain ⟨target, packets, sent, stamped⟩ := first
  obtain ⟨target', packets', sent', stamped'⟩ := second
  refine ⟨target'.trans target, packets ++ packets', by rw [sent', sent, append_assoc],
    fun t member => ?_⟩
  rcases mem_append.mp member with early | late
  · exact stamped t early
  · exact target ▸ stamped' t late

theorem ipOutputNetif_emits {gateway : Option IpAddr} {netif : NetifId} {own : IpAddr}
    (stamped : d.Stamped ip.target) (whole : payload p.chunks = d.segment)
    (sends : ip.ipOutputNetif p d.dest (some d.src) d.proto gateway netif own = some ip') :
    Emits ip ip' := by
  cases room : p.addHeader 20 with
  | none =>
    rw [ipOutputNetif_noRoom ip _ _ _ _ _ _ room] at sends
    cases sends
    exact .silent rfl rfl
  | some packet =>
    obtain ⟨chksum, equal⟩ :=
      ipOutputNetif_sends ip d.dest own (some d.src) gateway d.proto netif room
    obtain rfl := Option.some.inj (equal.symm.trans sends)
    refine ⟨rfl, _, rfl, fun t member => ?_⟩
    obtain rfl := mem_singleton.mp member
    rw [← header_length { ip with id := ip.id + 1 } packet.totLen d.proto d.src d.dest chksum]
      at room
    have delivered := Buf.payload_addHeader room
    rw [whole] at delivered
    rwa [datagram_of delivered]

theorem ipOutput_emits (stamped : d.Stamped ip.target) (whole : payload p.chunks = d.segment)
    (sends : ip.ipOutput p d.dest (some d.src) d.proto = some ip') : Emits ip ip' := by
  simp only [ipOutput] at sends
  split at sends
  · cases sends
    exact .silent rfl rfl
  · exact ipOutputNetif_emits stamped whole sends

theorem tcp_stamped {target : Target} {src : IpAddr} {rest : List UChar} {p : List Chunk}
    {chksum : UShort}
    (form : ∀ chksum, header chksum = front ++ [UShort.high chksum, UShort.low chksum] ++ [0, 0])
    (place : front.length = 16) (whole : payload p = header 0 ++ rest)
    (short : 20 + rest.length < 65536) (computed : bufChksum target p
      (crc16InetHeader target src dest protoTcp (.ofNat 16 (20 + rest.length))) = some chksum) :
    ({ src, dest, proto := protoTcp,
       segment := header (Checksum.nativeStore target
         (Checksum.unturn (20 + rest.length) chksum)) ++ rest } : Datagram).Stamped target := by
  have positive : 0 < protoTcp.toNat := by decide
  have total : front.length + 2 + ([0, 0] ++ rest).length = 20 + rest.length := by
    rw [place, length_append, length_cons, length_singleton]
    omega
  have length : (payload p).length = 20 + rest.length := by
    rw [whole, form]
    simp [place]
    omega
  obtain ⟨sum, start⟩ := Checksum.crc16InetHeader_spec target src dest
    (.ofNat 16 (20 + rest.length))
    positive
  obtain ⟨bound, value⟩ := Checksum.stored_spec (by omega) start computed
  rw [length] at bound value
  rw [sum, whole, form] at value
  simp only [form, append_assoc]
  rw [← append_assoc]
  apply Datagram.stamped_of positive (by rw [place]; rfl) (by rw [total]; exact short)
    (fun udp => absurd udp (by decide)) bound
  · rw [total, value]
    simp
    rfl
  · rw [if_neg (fun both => absurd both.1 (by decide))]

theorem tcpHeader_form (src dest : UShort) (seqno ackno : ULong) (offset : UChar) (flags : TcpFlags)
    (wnd : UShort) :
    ∃ front : List UChar, front.length = 16 ∧ ∀ chksum,
      tcpHeader src dest seqno ackno offset flags wnd chksum =
        front ++ [UShort.high chksum, UShort.low chksum] ++ [0, 0] := by
  refine ⟨[UShort.high src, UShort.low src, UShort.high dest, UShort.low dest] ++
    ULong.bytes seqno ++
    ULong.bytes ackno ++ [offset, flags, UShort.high wnd, UShort.low wnd], rfl, fun chksum => ?_⟩
  rfl

theorem sendBare_emits {remoteIp : IpAddr}
    (form : ∀ chksum, header chksum = front ++ [UShort.high chksum, UShort.low chksum] ++ [0, 0])
    (place : front.length = 16) (sends : ip.sendBare header localIp remoteIp = some ip') :
    Emits ip ip' := by
  simp only [sendBare, bind_eq_bind, bind_eq_some_iff] at sends
  obtain ⟨chksum, computed, sends⟩ := sends
  have stamped := @tcp_stamped remoteIp header front ip.target localIp [] _ chksum form place
    (by simp [payload]) (by decide) computed
  refine ipOutput_emits stamped ?_ sends
  have length : ∀ chksum, (header chksum).length = 20 := by
    intro chksum
    simp [form, place]
  rw [Buf.payload_fill rfl (by simp [length])]
  simp [payload, length, Checksum.unturn]

/-- `tcp_rst` -/
theorem tcpRst_emits {seqno ackno : ULong} {remoteIp : IpAddr} {localPort remotePort : UShort}
    (sends : ip.tcpRst seqno ackno localIp remoteIp localPort remotePort = some ip') :
    Emits ip ip' := by
  have allocated : Emits ip ip.alloc.2 := .silent rfl rfl
  simp only [tcpRst] at sends
  split at sends
  · obtain ⟨front, place, form⟩ := tcpHeader_form localPort remotePort seqno ackno 0x50
      (TcpFlags.rst ||| TcpFlags.ack) tcpWnd
    exact allocated.trans (sendBare_emits form place sends)
  · cases sends
    exact allocated

theorem unturn_ofNat (n : Nat) (chksum : UShort) :
    (if (BitVec.ofNat 16 n).getLsbD 0 then UShort.swap chksum else chksum) =
      Checksum.unturn n chksum := by
  rw [Checksum.unturn, BitVec.getLsbD_ofNat, Nat.testBit_zero]
  simp

theorem stampSegment_stamped {target : Target} {src : IpAddr} {seg : TcpSegment}
    (form : ∀ chksum, header chksum = front ++ [UShort.high chksum, UShort.low chksum] ++ [0, 0])
    (place : front.length = 16) (fits : seg.Fits)
    (stamps : stampSegment target src dest header seg = some p) :
    ({ src, dest, proto := protoTcp, segment := payload p.chunks } : Datagram).Stamped target := by
  have length : ∀ chksum, (header chksum).length = 20 := by
    intro chksum
    simp [form, place]
  have whole : payload (segmentBuf (header 0) seg).chunks =
      header 0 ++ (seg.options ++ payload seg.chunks) := by
    simp only [segmentBuf, payload]
    split
    · rename_i empty
      simp [empty]
    · rename_i first rest split
      simp [split]
  have totLen : (segmentBuf (header 0) seg).totLen =
      .ofNat 16 (20 + (seg.options ++ payload seg.chunks).length) := by
    rw [length_append, ← Nat.add_assoc]
    rfl
  simp only [stampSegment, bind_eq_bind, bind_eq_some_iff, totLen] at stamps
  obtain ⟨chksum, computed, stamps⟩ := stamps
  have stamped := @tcp_stamped dest header front target src _ _ chksum form place whole
    fits computed
  cases stamps
  obtain ⟨first, rest, split, fits⟩ : ∃ first rest,
      (segmentBuf (header 0) seg).chunks = first :: rest ∧ 20 ≤ first.bytes.length := by
    simp only [segmentBuf]
    split
    · exact ⟨_, _, rfl, by simp [length]⟩
    · exact ⟨_, _, rfl, by simp [length]⟩
  rw [unturn_ofNat]
  simp only [payload, flatMap_cons, flatMap_nil, append_nil]
  change Datagram.Stamped target { segment := payload (Buf.fill _ _).chunks, .. }
  rw [Buf.payload_fill split (by rwa [length]), whole, length]
  rwa [drop_left' (length 0)]

/-- `tcp_output_segment` -/
theorem tcpOutputSegment_emits {seg : TcpSegment} (fits : seg.Fits)
    (sends : ip.tcpOutputSegment s seg = some ip') : Emits ip ip' := by
  simp only [tcpOutputSegment] at sends
  split at sends
  · obtain rfl := Option.some.inj sends
    exact .silent rfl rfl
  · rename_i localIp found
    simp only [bind_eq_bind, bind_eq_some_iff] at sends
    obtain ⟨p, stamps, sends⟩ := sends
    obtain ⟨front, place, form⟩ := tcpHeader_form seg.src seg.dest seg.seqno
      (ip.tcpSocket s).rcvNxt (.ofNat 8 ((5 + seg.options.length / 4) * 16)) seg.flags
      (if (ip.tcpSocket s).rcvWnd < (ip.tcpSocket s).mss then 0 else (ip.tcpSocket s).rcvWnd)
    have stamped := stampSegment_stamped form place fits stamps
    set next := (ip.setTcp s (recordSent (ip.tcpSocket s) localIp ip.tcpTicks seg)).alloc.2
      with next_eq
    have recorded : Emits ip next := .silent rfl rfl
    split at sends
    · exact recorded.trans (ipOutput_emits (d := { segment := payload p.chunks, .. })
        stamped rfl sends)
    · obtain rfl := Option.some.inj sends
      exact recorded

theorem updateTcp_emits (ip : Ip) (s : SocketId) (change : TcpSocket → TcpSocket) :
    Emits ip (ip.updateTcp s change) :=
  .silent rfl rfl

theorem outputLoop_emits {wnd : ULong} {unsent : List TcpSegment} (fits : ∀ seg ∈ unsent, seg.Fits)
    (sends : outputLoop s wnd unsent ip = some ip') :
    Emits ip ip' := by
  induction unsent generalizing ip with
  | nil =>
    cases sends
    exact .silent rfl rfl
  | cons seg unsent ih =>
    simp only [outputLoop] at sends
    split at sends
    · simp only [bind_eq_bind, bind_eq_some_iff] at sends
      obtain ⟨middle, segment, sends⟩ := sends
      have rest := ih (fun seg member => fits seg (.tail _ member)) sends
      have fits : (answering (decide ((ip.tcpSocket s).state ≠ .synSent)) seg).Fits := by
        rw [answering]
        split <;> exact fits seg (.head _)
      exact (updateTcp_emits ip s _).trans
        ((tcpOutputSegment_emits fits segment).trans ((updateTcp_emits middle s _).trans rest))
    · cases sends
      exact .silent rfl rfl

theorem sendAck_emits (sends : ip.sendAck s = some ip') :
    Emits ip ip' := by
  have cleared : Emits ip (ip.updateTcp s clearAck).alloc.2 := .silent rfl rfl
  simp only [sendAck] at sends
  split at sends
  · obtain ⟨front, place, form⟩ := tcpHeader_form (ip.tcpSocket s).localPort
      (ip.tcpSocket s).remotePort (ip.tcpSocket s).sndNxt (ip.tcpSocket s).rcvNxt 0x50
      TcpFlags.ack (ip.tcpSocket s).rcvWnd
    exact cleared.trans (sendBare_emits form place sends)
  · cases sends
    exact cleared

/-- `tcp_output`, with its bare acknowledgement -/
theorem tcpOutput_emits (fits : ∀ seg ∈ (ip.tcpSocket s).unsent, seg.Fits)
    (sends : ip.tcpOutput s = some ip') :
    Emits ip ip' := by
  simp only [tcpOutput] at sends
  split at sends
  · cases sends
    exact .silent rfl rfl
  split at sends
  · exact sendAck_emits sends
  · exact outputLoop_emits fits sends

theorem swap_ones_iff (value : UShort) :
    UShort.swap (if value = 0 then 0xffff else value) =
      if UShort.swap value = 0 then 0xffff else UShort.swap value := by
  have twice : ∀ value : UShort, UShort.swap (UShort.swap value) = value := by
    intro value
    rw [UShort.swap, UShort.swap, UShort.low_ofBytes, UShort.high_ofBytes,
      UShort.ofBytes_high_low]
  have zero : UShort.swap value = 0 ↔ value = 0 := by
    constructor
    · intro swapped
      rw [← twice value, swapped]
      rfl
    · rintro rfl
      rfl
  rw [apply_ite UShort.swap]
  simp only [zero]
  split <;> rfl

theorem udpStore_eq (target : Target) (n : Nat) (chksum : UShort) :
    udpStore target (.ofNat 16 n) chksum =
      if Checksum.nativeStore target (Checksum.unturn n chksum) = 0 then 0xffff
      else Checksum.nativeStore target (Checksum.unturn n chksum) := by
  have stays (value : UShort) : UShort.ofBytes value.high value.low = value :=
    UShort.ofBytes_high_low value
  have turns (value : UShort) : UShort.ofBytes value.low value.high = UShort.swap value := rfl
  have twice (value : UShort) : UShort.swap (UShort.swap value) = value := by
    rw [UShort.swap, UShort.swap, UShort.low_ofBytes, UShort.high_ofBytes,
      UShort.ofBytes_high_low]
  simp only [udpStore, Checksum.nativeStore, Checksum.unturn, BitVec.getLsbD_ofNat,
    Nat.testBit_zero, stays, turns]
  rcases Nat.mod_two_eq_zero_or_one n with parity | parity <;>
    rcases Bool.eq_false_or_eq_true target.bigEndian with order | order <;>
    simp [parity, order, twice] <;> exact swap_ones_iff chksum

/-- `udp_send_netif` -/
theorem udpSendNetif_emits {s : UdpSocketId} {gateway : IpAddr} {port : UShort} {netif : NetifId}
    (total : p.totLen.toNat = (payload p.chunks).length)
    (fits : 8 + (payload p.chunks).length < 65536)
    (sends : ip.udpSendNetif s p dest port netif localIp gateway = some ip') : Emits ip ip' := by
  simp only [udpSendNetif] at sends
  split at sends
  · cases sends
    exact .silent rfl rfl
  · rename_i packet room
    set header := udpHeader packet.totLen (ip.udpSocket s).localPort port with header_eq
    simp only [bind_eq_bind, bind_eq_some_iff] at sends
    obtain ⟨chksum, computed, sends⟩ := sends
    have positive : 0 < protoUdp.toNat := by decide
    have whole : ∀ chksum, payload (packet.fill (header chksum)).chunks =
        header chksum ++ payload p.chunks := fun chksum => Buf.payload_addHeader room
    have totLen : packet.totLen = .ofNat 16 (8 + (payload p.chunks).length) := by
      apply BitVec.eq_of_toNat_eq
      rw [Buf.addHeader_totLen room, BitVec.toNat_add, total, BitVec.toNat_ofNat,
        BitVec.toNat_ofNat]
      omega
    obtain ⟨sum, start⟩ := Checksum.crc16InetHeader_spec ip.target localIp dest
      packet.totLen positive
    have length :
        (payload (packet.fill (header 0)).chunks).length = 8 + (payload p.chunks).length := by
      rw [whole, length_append]
      rfl
    obtain ⟨bound, value⟩ := Checksum.stored_spec (by omega) start computed
    rw [length] at bound value
    rw [sum, whole] at value
    refine ipOutputNetif_emits (d := ⟨localIp, dest, protoUdp, _⟩) ?_ (whole _) sends
    have place : ((header 0).take 6).length = if protoUdp = protoUdp then 6 else 16 := rfl
    apply Datagram.stamped_of positive place fits (fun _ => ?_) bound
    · rw [value, totLen]
      rfl
    · rw [totLen, udpStore_eq]
      simp
    · exact (UShort.ofBytes_high_low packet.totLen).trans totLen

end Ip

/-- A call of a function that sends transport segments. -/
inductive TransportCall
  | tcpOutputSegment (s : SocketId) (seg : TcpSegment)
  | tcpOutput (s : SocketId)
  | tcpRst (seqno ackno : ULong) (localIp remoteIp : IpAddr) (localPort remotePort : UShort)
  | udpSendNetif (s : UdpSocketId) (p : Buf) (dest : IpAddr) (port : UShort) (netif : NetifId)
      (localIp gateway : IpAddr)

namespace TransportCall

def run (ip : Ip) : TransportCall → Option Ip
  | tcpOutputSegment s seg => ip.tcpOutputSegment s seg
  | tcpOutput s => ip.tcpOutput s
  | tcpRst seqno ackno localIp remoteIp localPort remotePort =>
    ip.tcpRst seqno ackno localIp remoteIp localPort remotePort
  | udpSendNetif s p dest port netif localIp gateway =>
    ip.udpSendNetif s p dest port netif localIp gateway

/-- An `unsigned short` holds the lengths of the segments, and `tot_len` is that of the chain. -/
def Fits (ip : Ip) : TransportCall → Prop
  | tcpOutputSegment _ seg => seg.Fits
  | tcpOutput s => ∀ seg ∈ (ip.tcpSocket s).unsent, seg.Fits
  | tcpRst .. => True
  | udpSendNetif _ p _ _ _ _ _ =>
    p.totLen.toNat = (payload p.chunks).length ∧ 8 + (payload p.chunks).length < 65536

theorem emits {ip ip' : Ip} {call : TransportCall} (fits : call.Fits ip)
    (runs : call.run ip = some ip') : ip.Emits ip' := by
  cases call with
  | tcpOutputSegment s seg => exact Ip.tcpOutputSegment_emits fits runs
  | tcpOutput s => exact Ip.tcpOutput_emits fits runs
  | tcpRst => exact Ip.tcpRst_emits runs
  | udpSendNetif => exact Ip.udpSendNetif_emits fits.1 fits.2 runs

/-- Every segment given to an interface has the prescribed checksum and verifies at a receiver, in
any chain of buffers, exactly if the machines understand each other. -/
theorem delivered_iff {ip ip' : Ip} {call : TransportCall} (fits : call.Fits ip)
    (runs : call.run ip = some ip') :
    ∃ packets, ip'.sent = ip.sent ++ packets ∧ ∀ t ∈ packets, ∀ receiver received,
      payload received = t.datagram.segment →
      (t.datagram.Verifies receiver received ∧ t.datagram.Prescribed ↔
        t.datagram.Understood ip.target receiver received) := by
  obtain ⟨-, packets, sent, stamped⟩ := emits fits runs
  exact ⟨packets, sent, fun t member receiver received whole => (stamped t member).delivered whole⟩

/-- A machine with an interface 10.0.0.1/24 and memory for a buffer. -/
def machine (target : Target) : Ip :=
  ({ target, wideShift := fun _ => 0, memory := [true] } : Ip).routeAddNetif #v[10, 0, 0, 13] 24
    (some 0)

def reset : TransportCall :=
  .tcpRst 1 2 #v[10, 0, 0, 13] #v[10, 0, 0, 14] 80 1024

theorem delivered_iff_reset :
    ∃ ip', reset.run (machine .i386) = some ip' ∧
      ∃ packets, ip'.sent = (machine .i386).sent ++ packets ∧
        ∀ t ∈ packets, ∀ receiver received, payload received = t.datagram.segment →
          (t.datagram.Verifies receiver received ∧ t.datagram.Prescribed ↔
            t.datagram.Understood (machine .i386).target receiver received) := by
  obtain ⟨ip', runs⟩ : ∃ ip', reset.run (machine .i386) = some ip' :=
    isSome_iff_exists.mp (by decide +kernel)
  exact ⟨ip', runs, @delivered_iff _ _ reset trivial runs⟩

/-- The reset of a big-endian machine does not have the prescribed checksum. -/
theorem reset_bigEndian :
    ¬∀ (ip ip' : Ip) (call : TransportCall), call.Fits ip → call.run ip = some ip' →
      ∀ t ∈ ip'.sent.drop ip.sent.length, ∀ receiver received,
        payload received = t.datagram.segment →
        t.datagram.Verifies receiver received ∧ t.datagram.Prescribed := by
  intro all
  obtain ⟨ip', runs⟩ : ∃ ip', reset.run (machine (.portable true)) = some ip' :=
    isSome_iff_exists.mp (by decide +kernel)
  have wrong : ∀ ip' ∈ reset.run (machine (.portable true)),
      ∃ t ∈ ip'.sent, ¬t.datagram.Prescribed := by
    unfold Datagram.Prescribed
    decide +kernel
  obtain ⟨t, member, notPrescribed⟩ := wrong ip' runs
  have whole : payload [{ bytes := t.datagram.segment }] = t.datagram.segment := by
    simp [payload]
  exact notPrescribed (all _ ip' reset trivial runs t member .i386 _ whole).2

end TransportCall
end Uos
