import Uos.Library.Arenas
import Uos.Library.Turns
import Uos.Net.Tcp.SendQueue

/-!
# The allocations of `tcp_enqueue`

The function with the arena that it takes its segments and buffers from.  It ends unless a peer has
set the segment size to zero and memory never runs out.
-/

namespace Uos

open List Option

/-- A segment in the local queue of `tcp_enqueue`, with the addresses of its record and its
buffer. -/
structure Made where
  seg : Nat
  buf : Nat
  record : TcpSegment

namespace Made

/-- What `tcp_segment_free` frees. -/
def addresses (made : Made) : List Nat :=
  [made.buf, made.seg]

end Made

abbrev records (queue : List Made) : List TcpSegment :=
  queue.map (·.record)

/-- What the loop of `tcp_enqueue` works on. -/
structure Making where
  arena : Arena
  data : List UChar
  seqno : ULong
  queue : List Made

/-- `tcp_segments_free`, for a queue whose last segment may lack its buffer. -/
def tcpSegmentsFree (arena : Arena) (queue : List Made) (last : Option Nat) : Arena :=
  arena.freeAll (queue.flatMap Made.addresses ++ last.toList)

namespace TcpSocket

/-- A turn of the loop of `tcp_enqueue`. -/
def enqueueTurn (socket : TcpSocket) (flags : TcpFlags) (options : List UChar) (making : Making) :
    Making ⊕ (Arena × Option (List Made)) :=
  if making.queue ≠ [] ∧ making.data = [] then .inr (making.arena, some making.queue)
  else
    let seglen := min making.data.length socket.mss.toNat
    match making.arena.alloc with
    | (none, arena) => .inr (tcpSegmentsFree arena making.queue none, none)
    | (some seg, arena) =>
      match arena.alloc with
      | (none, arena) => .inr (tcpSegmentsFree arena making.queue (some seg), none)
      | (some buf, arena) =>
        .inl
          { arena
            data := making.data.drop seglen
            seqno := making.seqno + .ofNat 32 seglen
            queue := making.queue ++
              [⟨seg, buf, socket.newSegment flags options making.data making.seqno⟩] }

/-- The record of the first new segment, if it is chained to the last unsent one. -/
def chained (socket : TcpSocket) (flags : TcpFlags) (queue : List Made) : Option Nat :=
  match socket.unsent.getLast?, queue with
  | some last, first :: _ =>
    if Ip.chains socket flags last first.record then some first.seg else none
  | _, _ => none

/-- `tcp_enqueue`, with a bound on the turns of its loop.  Returns the arena, the socket and whether
it succeeded. -/
def enqueueIn (turns : Nat) (arena : Arena) (socket : TcpSocket) (data : List UChar)
    (flags : TcpFlags) (options : List UChar) : Option (Arena × TcpSocket × Bool) :=
  if socket.sndBuf.toNat < data.length then some (arena, socket, false)
  else if tcpSndQueuelen ≤ socket.sndQueuelen then some (arena, socket, false)
  else if !Ip.queueKept socket then none
  else do
    let (arena, made) ←
      loopTurns (socket.enqueueTurn flags options) turns ⟨arena, data, socket.sndLbb, []⟩
    match made with
    | none => if Ip.queueKept socket then some (arena, socket, false) else none
    | some queue =>
      let arena := arena.freeAll (socket.chained flags queue).toList
      let socket :=
        { socket with
          unsent := Ip.appendQueue socket flags (records queue)
          sndLbb := socket.sndLbb + .ofNat 32 data.length + flagLen flags
          sndBuf := socket.sndBuf - .ofNat 16 data.length - (flagLen flags).setWidth 16
          sndQueuelen := socket.sndQueuelen + .ofNat 8 queue.length
          history := { socket.history with written := socket.history.written ++ data } }
      if Ip.queueKept socket then some (arena, socket, true) else none

variable {socket socket' : TcpSocket} {flags : TcpFlags} {options data : List UChar} {turns : Nat}
  {making next : Making} {arena arena' : Arena} {result : Option (List Made)}

theorem enqueueTurn_cases (socket : TcpSocket) (flags : TcpFlags) (options : List UChar)
    (making : Making) :
    (making.queue ≠ [] ∧ making.data = []) ∧
        socket.enqueueTurn flags options making = .inr (making.arena, some making.queue) ∨
      ¬(making.queue ≠ [] ∧ making.data = []) ∧
        ((∃ arena, making.arena.alloc = (none, arena) ∧
            socket.enqueueTurn flags options making =
              .inr (tcpSegmentsFree arena making.queue none, none)) ∨
          ∃ seg given, making.arena.alloc = (some seg, given) ∧
            ((∃ arena, given.alloc = (none, arena) ∧
                socket.enqueueTurn flags options making =
                  .inr (tcpSegmentsFree arena making.queue (some seg), none)) ∨
              ∃ buf arena, given.alloc = (some buf, arena) ∧
                socket.enqueueTurn flags options making =
                  .inl
                    { arena
                      data := making.data.drop (min making.data.length socket.mss.toNat)
                      seqno := making.seqno + .ofNat 32 (min making.data.length socket.mss.toNat)
                      queue := making.queue ++ [⟨seg, buf,
                        socket.newSegment flags options making.data making.seqno⟩] })) := by
  rw [enqueueTurn]
  split
  · rename_i done
    exact .inl ⟨done, rfl⟩
  · rename_i more
    refine .inr ⟨more, ?_⟩
    split
    · rename_i arena refuses
      exact .inl ⟨arena, refuses, rfl⟩
    · rename_i seg given allocates
      refine .inr ⟨seg, given, allocates, ?_⟩
      split
      · rename_i arena refuses
        exact .inl ⟨arena, refuses, rfl⟩
      · rename_i buf arena allocates'
        exact .inr ⟨buf, arena, allocates', rfl⟩

theorem enqueueTurns_refines
    (ends : loopTurns (socket.enqueueTurn flags options) turns making = some (arena', result)) :
    ∃ answers, making.arena.Answers answers arena' ∧ ∀ memory,
      Ip.enqueueLoop socket flags options (answers ++ memory) making.data making.seqno
        (records making.queue) = (memory, result.map records) := by
  induction turns generalizing making with
  | zero => cases ends
  | succ turns ih =>
    have started : records making.queue ≠ [] ∧ making.data = [] ↔
        making.queue ≠ [] ∧ making.data = [] := by
      rw [records, Ne, map_eq_nil_iff]
    rcases socket.enqueueTurn_cases flags options making with ⟨done, stops⟩ | ⟨more, ⟨next,
      refuses, stops⟩ | ⟨seg, given, allocates, ⟨next, refuses, stops⟩ | ⟨buf, next, allocates',
      leads⟩⟩⟩
    · rw [loopTurns_stop stops] at ends
      obtain ⟨rfl, rfl⟩ := Prod.mk.inj (Option.some.inj ends)
      refine ⟨[], .refl _, fun memory => ?_⟩
      rw [Ip.enqueueLoop.eq_def]
      dsimp only
      rw [if_pos (started.mpr done)]
      rfl
    · rw [loopTurns_stop stops] at ends
      obtain ⟨rfl, rfl⟩ := Prod.mk.inj (Option.some.inj ends)
      obtain ⟨fails, meets, asked, -⟩ := Arena.alloc_none refuses
      refine ⟨[false], .cons fails meets asked (.freeAll _ _), fun memory => ?_⟩
      rw [Ip.enqueueLoop.eq_def]
      dsimp only
      rw [if_neg (mt started.mp more)]
      rfl
    · rw [loopTurns_stop stops] at ends
      obtain ⟨rfl, rfl⟩ := Prod.mk.inj (Option.some.inj ends)
      obtain ⟨rfl, first, meets, asked, -⟩ := Arena.alloc_some allocates
      obtain ⟨fails, meets', asked', -⟩ := Arena.alloc_none refuses
      refine ⟨[true, false], .cons first meets asked (.cons fails meets' asked' (.freeAll _ _)),
        fun memory => ?_⟩
      rw [Ip.enqueueLoop.eq_def]
      dsimp only
      rw [if_neg (mt started.mp more)]
      rfl
    · rw [Leads.loopTurns leads] at ends
      obtain ⟨answers, given', refines⟩ := ih ends
      obtain ⟨rfl, first, meets, asked, -⟩ := Arena.alloc_some allocates
      obtain ⟨rfl, second, meets', asked', -⟩ := Arena.alloc_some allocates'
      refine ⟨true :: true :: answers,
        .cons first meets asked (.cons second meets' asked' given'),
        fun memory => ?_⟩
      rw [Ip.enqueueLoop.eq_def]
      dsimp only
      rw [if_neg (mt started.mp more)]
      have rest := refines memory
      rw [records, map_append] at rest
      exact rest

theorem enqueueTurns_live {base : Arena}
    (holds : base.Holds making.arena (making.queue.flatMap Made.addresses))
    (ends : loopTurns (socket.enqueueTurn flags options) turns making = some (arena', none)) :
    arena'.live = base.live := by
  induction turns generalizing making with
  | zero => cases ends
  | succ turns ih =>
    rcases socket.enqueueTurn_cases flags options making with ⟨done, stops⟩ | ⟨more, ⟨next,
      refuses, stops⟩ | ⟨seg, given, allocates, ⟨next, refuses, stops⟩ | ⟨buf, next, allocates',
      leads⟩⟩⟩
    · rw [loopTurns_stop stops] at ends
      cases ends
    · rw [loopTurns_stop stops] at ends
      cases ends
      apply Arena.Holds.freeAll
      exact (holds.refuse refuses).of_mem (by simp)
    · rw [loopTurns_stop stops] at ends
      cases ends
      exact ((holds.alloc allocates).refuse refuses).freeAll
    · rw [Leads.loopTurns leads] at ends
      refine ih (((holds.alloc allocates).alloc allocates').of_mem fun a => ?_) ends
      simp only [flatMap_append, mem_append, flatMap_cons, flatMap_nil,
        Made.addresses, mem_cons, not_mem_nil, or_false]
      tauto

theorem enqueueTurn_stops_or_leads (socket : TcpSocket) (flags : TcpFlags) (options : List UChar)
    (making : Making) :
    (∃ result, socket.enqueueTurn flags options making = .inr result) ∨
      ∃ next, socket.enqueueTurn flags options making = .inl next ∧
        next.data = making.data.drop (min making.data.length socket.mss.toNat) ∧
        next.queue ≠ [] ∧ next.arena.meets = making.arena.meets ∧
        next.arena.asked = making.arena.asked + 2 ∧
        making.arena.meets making.arena.asked = true ∧
        making.arena.meets (making.arena.asked + 1) = true := by
  rcases socket.enqueueTurn_cases flags options making with ⟨-, stops⟩ | ⟨-, ⟨next, -, stops⟩ |
    ⟨seg, given, allocates, ⟨next, -, stops⟩ | ⟨buf, next, allocates', leads⟩⟩⟩
  · exact .inl ⟨_, stops⟩
  · exact .inl ⟨_, stops⟩
  · exact .inl ⟨_, stops⟩
  · obtain ⟨-, first, meets, asked, -⟩ := Arena.alloc_some allocates
    obtain ⟨-, second, meets', asked', -⟩ := Arena.alloc_some allocates'
    rw [meets, asked] at second
    refine .inr ⟨_, leads, rfl, by simp, meets'.trans meets, ?_, first, second⟩
    rw [asked', asked]

/-- The loop ends. -/
abbrev Ends (socket : TcpSocket) (flags : TcpFlags) (options : List UChar) (making : Making) :
    Prop :=
  ∃ turns, (loopTurns (socket.enqueueTurn flags options) turns making).isSome = true

theorem ends_of_stop {result : Arena × Option (List Made)}
    (stops : socket.enqueueTurn flags options making = .inr result) :
    socket.Ends flags options making :=
  ⟨1, by rw [loopTurns_stop stops, isSome_some]⟩

theorem ends_of_next (leads : socket.enqueueTurn flags options making = .inl next)
    (ends : socket.Ends flags options next) : socket.Ends flags options making := by
  obtain ⟨turns, ends⟩ := ends
  exact ⟨turns + 1, by rw [Leads.loopTurns leads, ends]⟩

theorem ends_of_empty (empty : making.data = []) : socket.Ends flags options making := by
  rcases socket.enqueueTurn_stops_or_leads flags options making with ⟨result, stops⟩ | ⟨next,
    leads, data, queue, -⟩
  · exact ends_of_stop stops
  · refine ends_of_next leads ?_
    rcases socket.enqueueTurn_cases flags options next with ⟨-, stops⟩ | ⟨more, -⟩
    · exact ends_of_stop stops
    · exact absurd ⟨queue, by rw [data, empty, drop_nil]⟩ more

theorem ends_of_size (size : socket.mss ≠ 0) : socket.Ends flags options making := by
  have positive : 0 < socket.mss.toNat := by
    refine Nat.pos_of_ne_zero fun zero => size ?_
    exact BitVec.eq_of_toNat_eq zero
  induction length : making.data.length using Nat.strong_induction_on generalizing making with
  | _ left ih =>
    rcases eq_or_ne making.data [] with empty | some
    · exact ends_of_empty empty
    have long : 0 < making.data.length := length_pos_of_ne_nil some
    rcases socket.enqueueTurn_stops_or_leads flags options making with ⟨result, stops⟩ | ⟨next,
      leads, data, -⟩
    · exact ends_of_stop stops
    · refine ends_of_next leads (ih next.data.length ?_ rfl)
      rw [data, length_drop]
      omega

theorem ends_of_failure {i : Nat} (later : making.arena.asked ≤ i)
    (fails : making.arena.meets i = false) : socket.Ends flags options making := by
  induction left : i - making.arena.asked using Nat.strong_induction_on generalizing making with
  | _ left ih =>
    rcases socket.enqueueTurn_stops_or_leads flags options making with ⟨result, stops⟩ | ⟨next,
      leads, -, -, meets, asked, first, second⟩
    · exact ends_of_stop stops
    · have apart : i ≠ making.arena.asked := by
        rintro rfl
        rw [first] at fails
        contradiction
      have apart' : i ≠ making.arena.asked + 1 := by
        rintro rfl
        rw [second] at fails
        contradiction
      refine ends_of_next leads (ih (i - next.arena.asked) ?_ ?_ ?_ rfl)
      · omega
      · omega
      · rwa [meets]

theorem not_ends (zero : socket.mss = 0) (some : making.data ≠ [])
    (memory : ∀ i, making.arena.asked ≤ i → making.arena.meets i = true) :
    ¬socket.Ends flags options making := by
  rintro ⟨turns, ends⟩
  induction turns generalizing making with
  | zero => cases ends
  | succ turns ih =>
    rcases socket.enqueueTurn_cases flags options making with ⟨done, -⟩ | ⟨-, ⟨next,
      refuses, -⟩ | ⟨seg, given, allocates, ⟨next, refuses, -⟩ | ⟨buf, next, allocates',
      leads⟩⟩⟩
    · exact some done.2
    · have fails := (Arena.alloc_none refuses).1
      rw [memory _ le_rfl] at fails
      contradiction
    · obtain ⟨-, -, meets, asked, -⟩ := Arena.alloc_some allocates
      have fails := (Arena.alloc_none refuses).1
      rw [meets, memory _ (by omega)] at fails
      contradiction
    · obtain ⟨-, -, meets, asked, -⟩ := Arena.alloc_some allocates
      obtain ⟨-, -, meets', asked', -⟩ := Arena.alloc_some allocates'
      rw [Leads.loopTurns leads] at ends
      refine ih ?_ (fun i later => ?_) ends
      · simpa [zero] using some
      · rw [meets', meets]
        change next.asked ≤ i at later
        exact memory i (by omega)

theorem ends_iff : socket.Ends flags options making ↔
    making.data = [] ∨ socket.mss ≠ 0 ∨
      ∃ i, making.arena.asked ≤ i ∧ making.arena.meets i = false := by
  constructor
  · intro ends
    apply not_not.mp
    intro nothing
    simp only [not_or, not_exists, not_and, Bool.not_eq_false, not_not] at nothing
    exact not_ends nothing.2.1 nothing.1 nothing.2.2 ends
  · rintro (empty | size | ⟨i, later, fails⟩)
    · exact ends_of_empty empty
    · exact ends_of_size size
    · exact ends_of_failure later fails

def queued (segments : List TcpSegment) : List UChar :=
  segments.flatMap fun seg => payload seg.chunks

def Consecutive : ULong → List TcpSegment → Prop
  | _, [] => True
  | seqno, seg :: rest => seg.seqno = seqno ∧ Consecutive (seqno + seg.len.setWidth 32) rest

/-- New segments are behind the old ones, where the first new and the last old one may be merged if
neither carries SYN or FIN. -/
inductive Joins (mss : UShort) : List TcpSegment → List TcpSegment → List TcpSegment → Prop
  | behind {old new all : List TcpSegment} (marks : Remarks (old ++ new) all) :
      Joins mss old new all
  | merged {init rest all : List TcpSegment} {last first : TcpSegment}
      (plain : flagLen last.flags = 0) (plain' : flagLen first.flags = 0)
      (fits : last.len.toNat + first.len.toNat ≤ mss.toNat)
      (marks : Remarks (init ++
        { last with len := last.len + first.len, chunks := last.chunks ++ first.chunks } :: rest)
        all) : Joins mss (init ++ [last]) (first :: rest) all

/-- Data was appended to the queue of a socket. -/
structure Appended (socket : TcpSocket) (flags : TcpFlags) (data : List UChar)
    (socket' : TcpSocket) : Prop where
  unacked : socket'.unacked = socket.unacked
  payload : queued socket'.unsent = queued socket.unsent ++ data
  segments : ∃ new, Consecutive socket.sndLbb new ∧
    (∀ seg ∈ new, seg.flags = flags ∧ seg.len.toNat ≤ socket.mss.toNat ∧
      (Uos.payload seg.chunks).length = seg.len.toNat) ∧
    Joins socket.mss socket.unsent new socket'.unsent

/-- `tcp_enqueue` ends, appends its data if it succeeds, and leaves everything if it fails. -/
structure EnqueuesRight (arena : Arena) (socket : TcpSocket) (data : List UChar)
    (flags : TcpFlags) (options : List UChar) : Prop where
  ends : ∃ turns, (enqueueIn turns arena socket data flags options).isSome = true
  done : ∀ {turns arena' socket'},
    enqueueIn turns arena socket data flags options = some (arena', socket', true) →
      Appended socket flags data socket'
  failed : ∀ {turns arena' socket'},
    enqueueIn turns arena socket data flags options = some (arena', socket', false) →
      socket' = socket ∧ arena'.live = arena.live

variable {queue : List TcpSegment} {seqno : ULong}

theorem newSegment_payload (socket : TcpSocket) (flags : TcpFlags) (options data : List UChar)
    (seqno : ULong) :
    Uos.payload (socket.newSegment flags options data seqno).chunks =
      data.take (min data.length socket.mss.toNat) := by
  rw [newSegment, Uos.payload, flatMap_cons, flatMap_nil, append_nil]

theorem Cuts.spec (cuts : Cuts socket flags options data seqno queue) :
    Consecutive seqno queue ∧ queued queue = data ∧
      ∀ seg ∈ queue, seg.flags = flags ∧ seg.len.toNat ≤ socket.mss.toNat ∧
        (Uos.payload seg.chunks).length = seg.len.toNat := by
  induction cuts with
  | done => exact ⟨trivial, rfl, fun _ member => (nomatch member)⟩
  | @piece data seqno queue nonempty rest ih =>
    obtain ⟨consecutive, whole, each⟩ := ih
    refine ⟨⟨rfl, ?_⟩, ?_, fun seg member => ?_⟩
    · rwa [newSegment_width]
    · rw [queued, flatMap_cons, ← queued, whole, newSegment_payload]
      exact take_append_drop _ data
    · rcases mem_cons.mp member with rfl | later
      · refine ⟨rfl, ?_, ?_⟩
        · rw [newSegment_len]
          exact Nat.min_le_right _ _
        · rw [newSegment_len, newSegment_payload, length_take]
          omega
      · exact each seg later

theorem Segments.spec (segments : socket.Segments flags options data queue) :
    Consecutive socket.sndLbb queue ∧ queued queue = data ∧
      ∀ seg ∈ queue, seg.flags = flags ∧ seg.len.toNat ≤ socket.mss.toNat ∧
        (Uos.payload seg.chunks).length = seg.len.toNat := by
  rcases segments with ⟨rfl, rfl⟩ | ⟨-, cuts⟩
  · have len := socket.newSegment_len flags options [] socket.sndLbb
    refine ⟨⟨rfl, trivial⟩, rfl, fun seg member => ?_⟩
    obtain rfl := mem_singleton.mp member
    refine ⟨rfl, ?_, ?_⟩
    · rw [len]
      exact Nat.min_le_right _ _
    · rw [len]
      exact (Nat.zero_min _).symm
  · exact cuts.spec

theorem queued_append (first second : List TcpSegment) :
    queued (first ++ second) = queued first ++ queued second :=
  flatMap_append

theorem queued_remarks {segments segments' : List TcpSegment}
    (remarks : Remarks segments segments') : queued segments' = queued segments := by
  induction remarks with
  | nil => rfl
  | cons marks _ ih =>
    rw [queued, flatMap_cons, ← queued, ih, marks.chunks]
    rfl

theorem Joins.queued {mss : UShort} {old new all : List TcpSegment}
    (joins : Joins mss old new all) :
    queued all = TcpSocket.queued old ++ TcpSocket.queued new := by
  cases joins with
  | behind marks => rw [queued_remarks marks, queued_append]
  | @merged init rest _ last first plain plain' fits marks =>
    rw [queued_remarks marks, queued_append, queued_append, append_assoc]
    congr 1
    simp only [TcpSocket.queued, flatMap_cons, flatMap_nil, append_nil,
      Uos.payload, flatMap_append, append_assoc]

theorem appendQueue_joins (sameFlags : ∀ seg ∈ queue, seg.flags = flags) :
    Joins socket.mss socket.unsent queue (Ip.appendQueue socket flags queue) := by
  rcases Ip.appendQueue_cases socket flags queue with plain | ⟨init, last, first, rest, unsent,
    rfl, joins, merged⟩
  · rw [plain]
    exact .behind (.append (.refl _) (Ip.push_remarks queue))
  · obtain ⟨none, flagless, -⟩ := Ip.chains_spec joins
    simp only [Ip.chains, Bool.and_eq_true, decide_eq_true_eq] at joins
    rw [merged, unsent]
    refine .merged none ?_ joins.2 (.append (.refl _) (.cons (.refl _) (Ip.push_remarks rest)))
    rwa [sameFlags first mem_cons_self]

theorem Segments.nonempty (segments : socket.Segments flags options data queue) : queue ≠ [] := by
  rintro rfl
  have length := segments.length
  rw [pieceCount, length_nil] at length
  omega

theorem queueKept_of_unsent (nonempty : queue ≠ []) (unsent : socket.unsent =
    Ip.appendQueue socket' flags queue) : Ip.queueKept socket = true := by
  have some : socket.unsent ≠ [] := by
    rw [unsent]
    rcases Ip.appendQueue_cases socket' flags queue with plain | ⟨init, last, first, rest, -, -, -,
      merged⟩
    · rw [plain]
      intro none
      have marks := (append_eq_nil_iff.mp none).2 ▸ Ip.push_remarks queue
      cases marks
      exact nonempty rfl
    · rw [merged]
      simp
  rw [Ip.queueKept, Bool.or_eq_true]
  exact .inr (by simpa using some)

abbrev start (socket : TcpSocket) (arena : Arena) (data : List UChar) : Making :=
  ⟨arena, data, socket.sndLbb, []⟩

/-- The call of `tcp_enqueue` can be made, and comes to an end. -/
def Finishes (arena : Arena) (socket : TcpSocket) (data : List UChar) : Prop :=
  socket.sndBuf.toNat < data.length ∨ tcpSndQueuelen ≤ socket.sndQueuelen ∨ data = [] ∨
    socket.mss ≠ 0 ∨ ∃ i, arena.asked ≤ i ∧ arena.meets i = false

theorem enqueueTurns_segments {made : List Made}
    (ends : loopTurns (socket.enqueueTurn flags options) turns (socket.start arena data) =
      some (arena', some made)) : socket.Segments flags options data (records made) := by
  obtain ⟨answers, -, refines⟩ := enqueueTurns_refines ends
  exact enqueueLoop_segments (refines [])

theorem enqueueIn_isSome (room : ¬socket.sndBuf.toNat < data.length)
    (short : ¬tcpSndQueuelen ≤ socket.sndQueuelen) (kept : Ip.queueKept socket = true) :
    (enqueueIn turns arena socket data flags options).isSome =
      (loopTurns (socket.enqueueTurn flags options) turns (socket.start arena data)).isSome := by
  rw [enqueueIn, if_neg room, if_neg short, if_neg (by rw [kept]; decide)]
  cases ends : loopTurns (socket.enqueueTurn flags options) turns (socket.start arena data) with
  | none => rfl
  | some result =>
    obtain ⟨last, _ | made⟩ := result
    · simp only [bind_eq_bind, bind_some, kept, if_true, isSome_some]
    · have segments := enqueueTurns_segments ends
      simp only [bind_eq_bind, bind_some]
      rw [if_pos]
      · rfl
      · exact queueKept_of_unsent segments.nonempty rfl

theorem enqueueIn_ends_iff (kept : Ip.queueKept socket = true) :
    (∃ turns, (enqueueIn turns arena socket data flags options).isSome = true) ↔
      Finishes arena socket data := by
  rcases Nat.lt_or_ge socket.sndBuf.toNat data.length with tooMuch | room
  · exact iff_of_true ⟨0, by rw [enqueueIn, if_pos tooMuch]; rfl⟩ (.inl tooMuch)
  rcases em (tcpSndQueuelen ≤ socket.sndQueuelen) with full | short
  · refine iff_of_true ⟨0, ?_⟩ (.inr (.inl full))
    rw [enqueueIn, if_neg (not_lt.mpr room), if_pos full]
    rfl
  · have ends : socket.Ends flags options (socket.start arena data) ↔ _ := ends_iff
    rw [Finishes, or_iff_right (not_lt.mpr room), or_iff_right short, ← ends]
    simp only [Ends, enqueueIn_isSome (not_lt.mpr room) short kept]

theorem enqueueIn_cases {enqueued : Bool}
    (call : enqueueIn turns arena socket data flags options = some (arena', socket', enqueued)) :
    enqueued = false ∧ socket' = socket ∧ arena'.live = arena.live ∨
      enqueued = true ∧ Appended socket flags data socket' := by
  rw [enqueueIn] at call
  split at call
  · cases call
    exact .inl ⟨rfl, rfl, rfl⟩
  split at call
  · cases call
    exact .inl ⟨rfl, rfl, rfl⟩
  split at call
  · contradiction
  simp only [bind_eq_bind, bind_eq_some_iff] at call
  obtain ⟨⟨last, _ | made⟩, ends, call⟩ := call
  · simp only at call
    split at call
    · cases call
      exact .inl ⟨rfl, rfl, enqueueTurns_live (.refl arena) ends⟩
    · contradiction
  · simp only at call
    split at call
    · cases call
      have segments := enqueueTurns_segments ends
      obtain ⟨consecutive, whole, each⟩ := segments.spec
      have joins : Joins socket.mss socket.unsent (records made)
          (Ip.appendQueue socket flags (records made)) :=
        appendQueue_joins fun seg member => (each seg member).1
      exact .inr ⟨rfl, rfl, joins.queued.trans (by rw [whole]), records made, consecutive, each,
        joins⟩
    · contradiction

/-- A call that returns does what the stack's own `tcp_enqueue` does with the answers of the
arena. -/
theorem tcpEnqueue_refines {ip : Ip} {s : SocketId} {enqueued : Bool}
    (call : enqueueIn turns arena (ip.tcpSocket s) data flags options =
      some (arena', socket', enqueued)) :
    ∃ answers, arena.Answers answers arena' ∧ ∀ memory,
      ∃ ip', ({ ip with memory := answers ++ memory } : Ip).tcpEnqueue s data flags options =
        some (ip', enqueued) ∧ ip'.tcpSocket s = socket' ∧ ip'.memory = memory := by
  rw [enqueueIn] at call
  split at call
  · rename_i tooMuch
    cases call
    refine ⟨[], .refl arena, fun memory => ⟨{ ip with memory }, ?_, rfl, rfl⟩⟩
    rw [Ip.tcpEnqueue, if_pos tooMuch]
    rfl
  rename_i room
  split at call
  · rename_i full
    cases call
    refine ⟨[], .refl arena, fun memory => ⟨{ ip with memory }, ?_, rfl, rfl⟩⟩
    rw [Ip.tcpEnqueue, if_neg room, if_pos full]
    rfl
  rename_i short
  split at call
  · contradiction
  rename_i law
  simp only [bind_eq_bind, bind_eq_some_iff] at call
  obtain ⟨⟨last, made⟩, ends, call⟩ := call
  obtain ⟨answers, given, refines⟩ := enqueueTurns_refines ends
  have stack (memory : List Bool) : Ip.enqueueLoop (ip.tcpSocket s) flags options
      (answers ++ memory) data (ip.tcpSocket s).sndLbb [] = (memory, made.map records) :=
    refines memory
  cases made with
  | none =>
    simp only at call
    split at call
    · rename_i kept
      cases call
      refine ⟨answers, given, fun memory => ⟨{ ip with memory }, ?_, rfl, rfl⟩⟩
      rw [Ip.tcpEnqueue, if_neg room, if_neg short, if_neg law]
      simp only [stack, map_none, kept, if_true]
    · contradiction
  | some made =>
    simp only at call
    split at call
    · rename_i kept
      cases call
      refine ⟨answers, given.freed _, fun memory =>
        ⟨({ ip with memory } : Ip).setTcp s _, ?_, Ip.setTcp_self _ s _, rfl⟩⟩
      rw [Ip.tcpEnqueue, if_neg room, if_neg short, if_neg law]
      simp only [stack, map_some, length_map, kept, if_true]
    · contradiction

def enqueuing : Ip where
  target := .i386
  wideShift := fun _ => 0
  tcpSocket := fun _ => { sndBuf := tcpSndBuf, mss := tcpMss }

theorem tcpEnqueue_refines_byte :
    ∃ answers, ∀ memory, ∃ ip', ({ enqueuing with memory := answers ++ memory } : Ip).tcpEnqueue 0
      [65] 0 [] = some (ip', true) := by
  have sends : (enqueueIn 2 ⟨fun _ => true, 0, ∅, by simp⟩ (enqueuing.tcpSocket 0) [65] 0 []).map
      (·.2.2) = some true := by decide +kernel
  obtain ⟨result, call, same⟩ := map_eq_some_iff.mp sends
  obtain ⟨answers, -, stack⟩ := tcpEnqueue_refines call
  exact ⟨answers, fun memory => (stack memory).imp fun _ sent => same ▸ sent.1⟩

/-- `tcp_enqueue` is right if and only if it comes to an end. -/
theorem tcpEnqueue_right_iff (kept : Ip.queueKept socket = true) :
    EnqueuesRight arena socket data flags options ↔ Finishes arena socket data := by
  rw [← enqueueIn_ends_iff kept]
  refine ⟨EnqueuesRight.ends, fun ends => ⟨ends, fun call => ?_, fun call => ?_⟩⟩
  · rcases enqueueIn_cases call with ⟨failed, -⟩ | ⟨-, appended⟩
    · contradiction
    · exact appended
  · rcases enqueueIn_cases call with ⟨-, kept⟩ | ⟨done, -⟩
    · exact kept
    · contradiction

theorem tcpEnqueue_right_byte :
    EnqueuesRight ⟨fun _ => true, 0, ∅, by simp⟩ { sndBuf := tcpSndBuf, mss := tcpMss } [65] 0 [] ∧
      Finishes ⟨fun _ => true, 0, ∅, by simp⟩ { sndBuf := tcpSndBuf, mss := tcpMss } [65] := by
  have finishes : Finishes ⟨fun _ => true, 0, ∅, by simp⟩ { sndBuf := tcpSndBuf, mss := tcpMss }
      [65] := .inr (.inr (.inr (.inl (by decide))))
  exact ⟨(tcpEnqueue_right_iff (by decide)).mpr finishes, finishes⟩

/-- A peer that sets the segment size to zero keeps `tcp_enqueue` in its loop as long as there is
memory. -/
theorem tcpEnqueue_loops :
    ¬∀ (arena : Arena) (socket : TcpSocket) (data : List UChar) (flags : TcpFlags)
      (options : List UChar), Ip.queueKept socket = true →
        EnqueuesRight arena socket data flags options := by
  intro right
  have kept : Ip.queueKept { sndBuf := tcpSndBuf, mss := 0 } = true := by decide
  have ends := (right ⟨fun _ => true, 0, ∅, by simp⟩ { sndBuf := tcpSndBuf, mss := 0 } [65] 0 []
    kept).ends
  rcases (enqueueIn_ends_iff kept).mp ends with tooMuch | full | empty | size | ⟨i, -, fails⟩
  · exact absurd tooMuch (by decide)
  · exact absurd full (by decide)
  · cases empty
  · exact size rfl
  · cases fails

end TcpSocket
end Uos
