import Mathlib.Order.Nat
import Mathlib.Tactic.Cases
import Uos.Net.Tcp.Stream

/-!
# Telnet input

How `net/telnet.c` takes characters out of a TCP stream, and what the bytes of the stream stand for.
-/

namespace Uos

open List

/-- A packet with data; `prompt` says whether it has arrived when the code looks for a byte behind
the packet in front of it. -/
structure TelnetPacket where
  first : UChar
  rest : List UChar
  prompt : Bool

/-- What a `tcp_stream_t` still receives: the bytes that are left in `inbuf`, and the packets. -/
structure TelnetInput where
  inbuf : List UChar := []
  packets : List TelnetPacket

namespace TelnetInput

/-- `tcp_stream_getchar`; nothing at the end of the stream. -/
def getchar (s : TelnetInput) : Option UChar × TelnetInput :=
  match s.inbuf, s.packets with
  | c :: inbuf, _ => (some c, { s with inbuf })
  | [], p :: packets => (some p.first, { inbuf := p.rest, packets })
  | [], [] => (none, s)

/-- `tcp_stream_peekchar`; nothing where no byte has arrived. -/
def peekchar (s : TelnetInput) : Option UChar × TelnetInput :=
  match s.inbuf, s.packets with
  | c :: _, _ => (some c, s)
  | [], p :: packets =>
    if p.prompt = true then (some p.first, { inbuf := p.first :: p.rest, packets })
    else (none, s)
  | [], [] => (none, s)

/-- The bytes of a stream, each with whether it can be seen from the byte in front of it. -/
def symbols (s : TelnetInput) : List (UChar × Bool) :=
  s.inbuf.map (·, true) ++
    s.packets.flatMap fun p => (p.first, p.prompt) :: p.rest.map (·, true)

def bytes (s : TelnetInput) : List UChar :=
  s.symbols.map Prod.fst

end TelnetInput

/-- `IAC` -/
def telnetIac : UChar := 255

/-- `DONT` -/
def telnetDont : UChar := 254

/-- `DO` -/
def telnetDo : UChar := 253

/-- `WONT` -/
def telnetWont : UChar := 252

/-- `WILL` -/
def telnetWill : UChar := 251

/-- `SB` -/
def telnetSb : UChar := 250

/-- `AYT` -/
def telnetAyt : UChar := 246

/-- `NOP` -/
def telnetNop : UChar := 241

/-- The options that are accepted: `TELOPT_BINARY`, `TELOPT_ECHO`, `TELOPT_SGA`. -/
def teloptAccepted : List UChar := [0, 1, 3]

/-- `\r` -/
def telnetCr : UChar := 13

/-- `\n` -/
def telnetLf : UChar := 10

/-- A `telnet_t`: the input and the output of its stream, and its options. -/
structure Telnet where
  ts : TelnetInput
  output : List UChar := []
  local_option : UChar → Bool := fun _ => false
  remote_option : UChar → Bool := fun _ => false

namespace Telnet

/-- `getchar` of the stream. -/
def getchar (u : Telnet) : Option UChar × Telnet :=
  (u.ts.getchar.1, { u with ts := u.ts.getchar.2 })

/-- `peekchar` of the stream. -/
def peekchar (u : Telnet) : Option UChar × Telnet :=
  (u.ts.peekchar.1, { u with ts := u.ts.peekchar.2 })

/-- `reply` -/
def reply (u : Telnet) (cmd opt : UChar) : Telnet :=
  { u with output := u.output ++ [telnetIac, cmd, opt] }

/-- `will_option` -/
def willOption (u : Telnet) (opt : UChar) : Telnet :=
  if opt ∈ teloptAccepted then
    { u with remote_option := Function.update u.remote_option opt true }.reply telnetDo opt
  else u.reply telnetDont opt

/-- `wont_option` -/
def wontOption (u : Telnet) (opt : UChar) : Telnet :=
  if opt ∈ teloptAccepted then
    { u with remote_option := Function.update u.remote_option opt false }.reply telnetDont opt
  else u.reply telnetDont opt

/-- `do_option` -/
def doOption (u : Telnet) (opt : UChar) : Telnet :=
  if opt ∈ teloptAccepted then
    { u with local_option := Function.update u.local_option opt true }.reply telnetWill opt
  else u.reply telnetWont opt

/-- `dont_option` -/
def dontOption (u : Telnet) (opt : UChar) : Telnet :=
  if opt ∈ teloptAccepted then
    { u with local_option := Function.update u.local_option opt false }.reply telnetWont opt
  else u.reply telnetWont opt

/-- The option behind a command, which changes something if the option is not set as it says. -/
def option (u : Telnet) (set : Telnet → UChar → Bool) (change : Telnet → UChar → Telnet) :
    Telnet :=
  match u.getchar with
  | (some c, u) => if set u c = true then u else change u c
  | (none, u) => u

def subnegotiation : Nat → Telnet → Telnet
  | 0, u => u
  | i + 1, u =>
    match u.getchar with
    | (some c, u) => if c = telnetIac then u.getchar.2 else u.subnegotiation i
    | (none, u) => u.subnegotiation i

/-- `telnet_command` -/
def telnetCommand (u : Telnet) (c : UChar) : Telnet :=
  if c = telnetAyt then { u with output := u.output ++ [telnetIac, telnetNop] }
  else if c = telnetWill then u.option (fun u c => u.remote_option c) willOption
  else if c = telnetWont then u.option (fun u c => !u.remote_option c) wontOption
  else if c = telnetDo then u.option (fun u c => u.local_option c) doOption
  else if c = telnetDont then u.option (fun u c => !u.local_option c) dontOption
  else if c = telnetSb then u.subnegotiation 128
  else u

/-- What `telnet_getchar` makes of a character that may be a carriage return: it returns a newline,
or goes on with a character, which it has only looked at if the other one was a carriage return. -/
def lineEnd (u : Telnet) (c : UChar) : (UChar ⊕ UChar) × Telnet :=
  if c = telnetCr then
    match u.peekchar with
    | (none, u) => (.inl telnetLf, u)
    | (some c, u) =>
      if c = 0 ∨ c = telnetLf then (.inl telnetLf, u.getchar.2) else (.inr c, u)
  else (.inr c, u)

/-- The loop of `telnet_getchar`, with a bound on its turns. -/
def getcharFrom : Nat → Telnet → Option UChar × Telnet
  | 0, u => (none, u)
  | turns + 1, u =>
    match u.getchar with
    | (none, u) => (none, u)
    | (some c, u) =>
      match u.lineEnd c with
      | (.inl c, u) => (some c, u)
      | (.inr c, u) =>
        if c = telnetIac then
          match u.getchar with
          | (none, u) => (none, u)
          | (some c, u) =>
            if c ≠ telnetIac then getcharFrom turns (u.telnetCommand c) else (some c, u)
        else (some c, u)

/-- `telnet_getchar`; every turn takes a byte. -/
def telnetGetchar (u : Telnet) : Option UChar × Telnet :=
  u.getcharFrom (u.ts.bytes.length + 1)

/-- The characters that are returned until the end of the stream. -/
inductive Drains : Telnet → List UChar → Prop
  | eof {u u' : Telnet} (ends : u.telnetGetchar = (none, u')) : Drains u []
  | char {u u' : Telnet} {c : UChar} {chars : List UChar} (returns : u.telnetGetchar = (some c, u'))
      (later : Drains u' chars) : Drains u (c :: chars)

end Telnet

/-- Where a reader of the bytes stands: in the data, behind a carriage return, behind an IAC, in
front of an option, in a sub-negotiation, or behind an IAC in one. -/
inductive TelnetMode
  | data
  | carriageReturn
  | command
  | option
  | negotiation
  | negotiationCommand
  deriving DecidableEq

namespace TelnetMode

/-- `SE` -/
def telnetSe : UChar := 240

def next : TelnetMode → UChar → TelnetMode
  | data, c =>
    if c = telnetCr then carriageReturn else if c = telnetIac then command else data
  | carriageReturn, c =>
    if c = 0 ∨ c = telnetLf then data
    else if c = telnetCr then carriageReturn
    else if c = telnetIac then command
    else data
  | command, c =>
    if c = telnetWill ∨ c = telnetWont ∨ c = telnetDo ∨ c = telnetDont then option
    else if c = telnetSb then negotiation
    else data
  | option, _ => data
  | negotiation, c => if c = telnetIac then negotiationCommand else negotiation
  | negotiationCommand, c => if c = telnetSe then data else negotiation

def emit : TelnetMode → UChar → List UChar
  | data, c => if c = telnetCr ∨ c = telnetIac then [] else [c]
  | carriageReturn, c =>
    if c = 0 ∨ c = telnetLf then [telnetLf]
    else if c = telnetCr ∨ c = telnetIac then [telnetCr]
    else [telnetCr, c]
  | command, c => if c = telnetIac then [telnetIac] else []
  | option, _ | negotiation, _ | negotiationCommand, _ => []

/-- What bytes stand for: IAC IAC for 255, CR NUL and CR LF for a newline, commands for nothing, and
each other byte for itself. -/
def decode : TelnetMode → List UChar → List UChar
  | carriageReturn, [] => [telnetCr]
  | _, [] => []
  | mode, c :: bytes => mode.emit c ++ (mode.next c).decode bytes

/-- The sub-negotiations in some bytes have at most 128 bytes each, and no IAC but in front of the
SE at their end. -/
def Regular : TelnetMode → Nat → List UChar → Prop
  | _, _, [] => True
  | negotiation, read, c :: bytes =>
    if c = telnetIac then negotiationCommand.Regular 0 bytes
    else read < 128 ∧ negotiation.Regular (read + 1) bytes
  | negotiationCommand, _, c :: bytes => c = telnetSe ∧ data.Regular 0 bytes
  | mode, _, c :: bytes => (mode.next c).Regular 0 bytes

/-- Behind each carriage return in the data a NUL, a newline or a carriage return can be seen at
once. -/
def Prompt : TelnetMode → List (UChar × Bool) → Prop
  | carriageReturn, [] => False
  | carriageReturn, (c, arrived) :: symbols =>
    arrived = true ∧ (c = 0 ∨ c = telnetLf ∨ c = telnetCr) ∧
      (carriageReturn.next c).Prompt symbols
  | _, [] => True
  | mode, (c, _) :: symbols => (mode.next c).Prompt symbols

end TelnetMode
namespace TelnetInput

variable {s : TelnetInput} {c : UChar} {arrived : Bool} {rest : List (UChar × Bool)}

theorem symbols_packet (p : TelnetPacket) (packets : List TelnetPacket) :
    symbols { inbuf := [], packets := p :: packets } =
      (p.first, p.prompt) :: symbols { inbuf := p.rest, packets } := by
  simp [symbols]

theorem getchar_nil (ends : s.symbols = []) : s.getchar.1 = none := by
  obtain ⟨_ | ⟨b, inbuf⟩, _ | ⟨p, packets⟩⟩ := s
  · rfl
  all_goals simp [symbols] at ends

theorem symbols_getchar_nil (ends : s.symbols = []) : s.getchar.2.symbols = [] := by
  obtain ⟨_ | ⟨b, inbuf⟩, _ | ⟨p, packets⟩⟩ := s
  · rfl
  all_goals simp [symbols] at ends

/-- `tcp_stream_getchar` takes the first byte. -/
theorem getchar_cons (known : s.symbols = (c, arrived) :: rest) :
    s.getchar.1 = some c ∧ s.getchar.2.symbols = rest := by
  obtain ⟨_ | ⟨b, inbuf⟩, packets⟩ := s
  · cases packets with
    | nil => cases known
    | cons p packets =>
      rw [symbols_packet] at known
      cases known
      exact ⟨rfl, rfl⟩
  · cases known
    exact ⟨rfl, rfl⟩

/-- `tcp_stream_peekchar` leaves the stream as it is. -/
theorem symbols_peekchar (s : TelnetInput) : s.peekchar.2.symbols = s.symbols := by
  obtain ⟨_ | ⟨b, inbuf⟩, _ | ⟨p, packets⟩⟩ := s
  · rfl
  · rw [peekchar]
    dsimp only
    split_ifs with prompt
    · simp [symbols, prompt]
    · rfl
  all_goals rfl

/-- `tcp_stream_peekchar` sees the first byte if it has arrived. -/
theorem peekchar_eq (s : TelnetInput) :
    s.peekchar.1 = (s.symbols.head?.filter fun symbol => symbol.2).map Prod.fst := by
  obtain ⟨_ | ⟨b, inbuf⟩, _ | ⟨p, packets⟩⟩ := s
  · rfl
  · rw [peekchar, symbols_packet]
    dsimp only
    split_ifs with prompt
    · rw [List.head?_cons, prompt]
      rfl
    · rw [List.head?_cons, (Bool.not_eq_true _).mp prompt]
      rfl
  all_goals rfl

end TelnetInput

namespace Telnet

variable {u u' : Telnet} {c d : UChar} {arrived : Bool} {rest : List (UChar × Bool)}

def skipNegotiation : Nat → List (UChar × Bool) → List (UChar × Bool)
  | 0, symbols => symbols
  | _ + 1, [] => []
  | i + 1, (c, _) :: symbols =>
    if c = telnetIac then symbols.tail else skipNegotiation i symbols

def skip (c : UChar) (symbols : List (UChar × Bool)) : List (UChar × Bool) :=
  if c = telnetWill ∨ c = telnetWont ∨ c = telnetDo ∨ c = telnetDont then symbols.tail
  else if c = telnetSb then skipNegotiation 128 symbols
  else symbols

theorem symbols_getchar (u : Telnet) : u.getchar.2.ts.symbols = u.ts.symbols.tail := by
  cases known : u.ts.symbols with
  | nil => exact TelnetInput.symbols_getchar_nil known
  | cons symbol rest => exact (TelnetInput.getchar_cons known).2

theorem symbols_option (u : Telnet) (set : Telnet → UChar → Bool)
    {change : Telnet → UChar → Telnet} (keeps : ∀ u c, (change u c).ts = u.ts) :
    (u.option set change).ts.symbols = u.ts.symbols.tail := by
  have behind := u.symbols_getchar
  rw [option]
  generalize u.getchar = answer at behind ⊢
  obtain ⟨_ | c, u'⟩ := answer
  · exact behind
  · dsimp only
    split_ifs
    · exact behind
    · rw [keeps]
      exact behind

theorem symbols_subnegotiation (i : Nat) (u : Telnet) :
    (u.subnegotiation i).ts.symbols = skipNegotiation i u.ts.symbols := by
  induction i generalizing u with
  | zero => rfl
  | succ i ih =>
    have behind := u.symbols_getchar
    rw [subnegotiation]
    cases known : u.ts.symbols with
    | nil =>
      have ends : u.getchar.1 = none := TelnetInput.getchar_nil known
      rw [known] at behind
      generalize u.getchar = answer at behind ends ⊢
      obtain ⟨first, u'⟩ := answer
      obtain rfl : first = none := ends
      dsimp only at behind ⊢
      rw [ih, behind, skipNegotiation]
      cases i <;> rfl
    | cons symbol rest =>
      obtain ⟨c, arrived⟩ := symbol
      have first : u.getchar.1 = some c := (TelnetInput.getchar_cons known).1
      rw [known] at behind
      generalize u.getchar = answer at behind first ⊢
      obtain ⟨taken, u'⟩ := answer
      obtain rfl : taken = some c := first
      dsimp only at behind ⊢
      rw [skipNegotiation]
      split_ifs
      · rw [symbols_getchar, behind]
        rfl
      · rw [ih, behind]
        rfl

theorem symbols_telnetCommand (u : Telnet) (c : UChar) :
    (u.telnetCommand c).ts.symbols = skip c u.ts.symbols := by
  have changes : (∀ u c, (willOption u c).ts = u.ts) ∧ (∀ u c, (wontOption u c).ts = u.ts) ∧
      (∀ u c, (doOption u c).ts = u.ts) ∧ ∀ u c, (dontOption u c).ts = u.ts := by
    refine ⟨fun u c => ?_, fun u c => ?_, fun u c => ?_, fun u c => ?_⟩
    · rw [willOption]
      split_ifs <;> rfl
    · rw [wontOption]
      split_ifs <;> rfl
    · rw [doOption]
      split_ifs <;> rfl
    · rw [dontOption]
      split_ifs <;> rfl
  obtain ⟨will, wont, does, dont⟩ := changes
  rw [telnetCommand, skip]
  split_ifs with ayt will' wont' do' dont' sb <;> subst_vars
  all_goals
    simp_all [symbols_option, symbols_subnegotiation, telnetAyt, telnetWill, telnetWont, telnetDo,
      telnetDont, telnetSb]

theorem length_skipNegotiation (i : Nat) (symbols : List (UChar × Bool)) :
    (skipNegotiation i symbols).length ≤ symbols.length := by
  induction i generalizing symbols with
  | zero => exact le_rfl
  | succ i ih =>
    cases symbols with
    | nil => exact le_rfl
    | cons symbol symbols =>
      rw [skipNegotiation]
      split_ifs
      · rw [length_tail, length_cons]
        omega
      · exact (ih symbols).trans (Nat.le_succ _)

theorem length_skip (c : UChar) (symbols : List (UChar × Bool)) :
    (skip c symbols).length ≤ symbols.length := by
  rw [skip]
  split_ifs
  · rw [length_tail]
    omega
  · exact length_skipNegotiation 128 symbols
  · exact le_rfl

theorem length_bytes (s : TelnetInput) : s.bytes.length = s.symbols.length :=
  length_map ..

theorem getchar_cons (known : u.ts.symbols = (c, arrived) :: rest) :
    ∃ u', u.getchar = (some c, u') ∧ u'.ts.symbols = rest := by
  obtain ⟨first, behind⟩ := TelnetInput.getchar_cons known
  exact ⟨_, Prod.ext first rfl, behind⟩

theorem getchar_nil (ends : u.ts.symbols = []) : ∃ u', u.getchar = (none, u') :=
  ⟨_, Prod.ext (TelnetInput.getchar_nil ends) rfl⟩

theorem telnetGetchar_nil (ends : u.ts.symbols = []) : ∃ u', u.telnetGetchar = (none, u') := by
  obtain ⟨u', taken⟩ := getchar_nil ends
  refine ⟨u', ?_⟩
  rw [telnetGetchar, getcharFrom, taken]

theorem lineEnd_other (other : c ≠ telnetCr) (u : Telnet) : u.lineEnd c = (.inr c, u) :=
  if_neg other

theorem telnetGetchar_plain (known : u.ts.symbols = (c, arrived) :: rest)
    (line : c ≠ telnetCr) (plain : c ≠ telnetIac) :
    ∃ u', u.telnetGetchar = (some c, u') ∧ u'.ts.symbols = rest := by
  obtain ⟨u', taken, behind⟩ := getchar_cons known
  refine ⟨u', ?_, behind⟩
  rw [telnetGetchar, getcharFrom, taken]
  dsimp only
  rw [lineEnd_other line]
  exact if_neg plain

theorem iac_ne : telnetIac ≠ telnetCr := by
  decide

theorem telnetGetchar_iac (known : u.ts.symbols = [(telnetIac, arrived)]) :
    ∃ u', u.telnetGetchar = (none, u') := by
  obtain ⟨u', taken, behind⟩ := getchar_cons known
  obtain ⟨u'', ends⟩ := getchar_nil behind
  refine ⟨u'', ?_⟩
  rw [telnetGetchar, getcharFrom, taken]
  dsimp only
  rw [lineEnd_other iac_ne]
  dsimp only
  rw [if_pos rfl, ends]

theorem telnetGetchar_escape {arrived' : Bool}
    (known : u.ts.symbols = (telnetIac, arrived) :: (telnetIac, arrived') :: rest) :
    ∃ u', u.telnetGetchar = (some telnetIac, u') ∧ u'.ts.symbols = rest := by
  obtain ⟨u', taken, behind⟩ := getchar_cons known
  obtain ⟨u'', taken', behind'⟩ := getchar_cons behind
  refine ⟨u'', ?_, behind'⟩
  rw [telnetGetchar, getcharFrom, taken]
  dsimp only
  rw [lineEnd_other iac_ne]
  dsimp only
  rw [if_pos rfl, taken']
  exact if_neg (not_not.mpr rfl)

theorem length_lineEnd (u : Telnet) (c : UChar) :
    (u.lineEnd c).2.ts.symbols.length ≤ u.ts.symbols.length := by
  have seen : u.peekchar.2.ts.symbols = u.ts.symbols := TelnetInput.symbols_peekchar u.ts
  rw [lineEnd]
  split_ifs
  · generalize u.peekchar = answer at seen ⊢
    obtain ⟨_ | d, u'⟩ := answer
    · exact (congrArg List.length seen).le
    · dsimp only at seen ⊢
      split_ifs
      · rw [symbols_getchar, seen, length_tail]
        exact Nat.sub_le ..
      · exact (congrArg List.length seen).le
  · exact le_rfl

theorem getcharFrom_enough {n m : Nat} (enough : u.ts.symbols.length < n)
    (enough' : u.ts.symbols.length < m) : u.getcharFrom n = u.getcharFrom m := by
  induction n generalizing u m with
  | zero => cases enough
  | succ n ih =>
    cases m with
    | zero => cases enough'
    | succ m =>
      rw [getcharFrom, getcharFrom]
      cases known : u.ts.symbols with
      | nil =>
        obtain ⟨u', ends⟩ := getchar_nil known
        rw [ends]
      | cons symbol rest =>
        obtain ⟨c, arrived⟩ := symbol
        obtain ⟨u', taken, behind⟩ := getchar_cons known
        have shorter := u'.length_lineEnd c
        rw [known, length_cons] at enough enough'
        rw [behind] at shorter
        rw [taken]
        dsimp only
        generalize u'.lineEnd c = line at shorter ⊢
        obtain ⟨_ | d, u''⟩ := line
        · rfl
        · dsimp only at shorter ⊢
          split_ifs
          · have behind' := u''.symbols_getchar
            generalize u''.getchar = answer at behind' ⊢
            obtain ⟨_ | e, last⟩ := answer
            · rfl
            · dsimp only at behind' ⊢
              split_ifs
              · have less := length_skip e last.ts.symbols
                rw [← symbols_telnetCommand] at less
                rw [behind', length_tail] at less
                exact ih (by omega) (by omega)
              · rfl
          · rfl

theorem telnetGetchar_command {arrived' : Bool}
    (known : u.ts.symbols = (telnetIac, arrived) :: (c, arrived') :: rest)
    (command : c ≠ telnetIac) :
    ∃ u' : Telnet, u.telnetGetchar = u'.telnetGetchar ∧ u'.ts.symbols = skip c rest := by
  obtain ⟨u', taken, behind⟩ := getchar_cons known
  obtain ⟨u'', taken', behind'⟩ := getchar_cons behind
  have after : (u''.telnetCommand c).ts.symbols = skip c rest := by
    rw [symbols_telnetCommand, behind']
  refine ⟨u''.telnetCommand c, ?_, after⟩
  have shorter := length_skip c rest
  have length := congrArg List.length known
  simp only [length_cons] at length
  rw [telnetGetchar, getcharFrom, taken]
  dsimp only
  rw [lineEnd_other iac_ne]
  dsimp only
  rw [if_pos rfl, taken']
  dsimp only
  rw [if_pos command, telnetGetchar]
  apply getcharFrom_enough <;> rw [after]
  · rw [length_bytes]
    omega
  · rw [length_bytes, after]
    omega

theorem peekchar_seen (known : u.ts.symbols = (c, true) :: rest) :
    ∃ u', u.peekchar = (some c, u') ∧ u'.ts.symbols = (c, true) :: rest := by
  have seen : u.peekchar.1 = some c := by
    refine (TelnetInput.peekchar_eq u.ts).trans ?_
    rw [known]
    rfl
  exact ⟨_, Prod.ext seen rfl, (TelnetInput.symbols_peekchar u.ts).trans known⟩

theorem peekchar_unseen (unseen : ∀ c symbols, u.ts.symbols ≠ (c, true) :: symbols) :
    ∃ u', u.peekchar = (none, u') ∧ u'.ts.symbols = u.ts.symbols := by
  have nothing : u.peekchar.1 = none := by
    refine (TelnetInput.peekchar_eq u.ts).trans ?_
    rcases known : u.ts.symbols with _ | ⟨⟨c, _ | _⟩, symbols⟩
    · rfl
    · rfl
    · exact absurd known (unseen c symbols)
  exact ⟨_, Prod.ext nothing rfl, TelnetInput.symbols_peekchar u.ts⟩

theorem telnetGetchar_return_last (known : u.ts.symbols = (telnetCr, arrived) :: rest)
    (unseen : ∀ c symbols, rest ≠ (c, true) :: symbols) :
    ∃ u', u.telnetGetchar = (some telnetLf, u') ∧ u'.ts.symbols = rest := by
  obtain ⟨u', taken, behind⟩ := getchar_cons known
  obtain ⟨u'', nothing, same⟩ := @peekchar_unseen u' (by rwa [behind])
  refine ⟨u'', ?_, same.trans behind⟩
  rw [telnetGetchar, getcharFrom, taken]
  dsimp only
  rw [lineEnd, if_pos rfl, nothing]

theorem telnetGetchar_return_newline
    (known : u.ts.symbols = (telnetCr, arrived) :: (c, true) :: rest)
    (ends : c = 0 ∨ c = telnetLf) :
    ∃ u', u.telnetGetchar = (some telnetLf, u') ∧ u'.ts.symbols = rest := by
  obtain ⟨u', taken, behind⟩ := getchar_cons known
  obtain ⟨u'', seen, same⟩ := peekchar_seen behind
  obtain ⟨last, dropped, behind'⟩ := getchar_cons same
  refine ⟨last, ?_, behind'⟩
  rw [telnetGetchar, getcharFrom, taken]
  dsimp only
  rw [lineEnd, if_pos rfl, seen]
  dsimp only
  rw [if_pos ends, dropped]

theorem telnetGetchar_return_other
    (known : u.ts.symbols = (telnetCr, arrived) :: (c, true) :: rest)
    (other : ¬(c = 0 ∨ c = telnetLf)) :
    ∃ u', u.telnetGetchar = (some c, u') ∧
      u'.ts.symbols = if c = telnetIac then rest else (c, true) :: rest := by
  obtain ⟨u', taken, behind⟩ := getchar_cons known
  obtain ⟨u'', seen, same⟩ := peekchar_seen behind
  rw [telnetGetchar, getcharFrom, taken]
  dsimp only
  rw [lineEnd, if_pos rfl, seen]
  dsimp only
  rw [if_neg other]
  dsimp only
  rcases eq_or_ne c telnetIac with rfl | plain
  · obtain ⟨last, taken', behind'⟩ := getchar_cons same
    rw [if_pos rfl, if_pos rfl, taken']
    exact ⟨last, if_neg (not_not.mpr rfl), behind'⟩
  · rw [if_neg plain, if_neg plain]
    exact ⟨u'', rfl, same⟩

theorem Drains.unique {chars chars' : List UChar} (drains : u.Drains chars)
    (drains' : u.Drains chars') : chars = chars' := by
  induction drains generalizing chars' with
  | eof ends =>
    cases drains' with
    | eof => rfl
    | char returns =>
      rw [ends] at returns
      cases returns
  | char returns later ih =>
    cases drains' with
    | eof ends =>
      rw [returns] at ends
      cases ends
    | char returns' later' =>
      rw [returns] at returns'
      cases returns'
      rw [ih later']

theorem drains_char (returns : u.telnetGetchar = (some c, u')) (chars : List UChar) :
    u.Drains chars ↔ ∃ later, chars = c :: later ∧ u'.Drains later := by
  constructor
  · intro drains
    cases drains with
    | eof ends =>
      rw [returns] at ends
      cases ends
    | char returns' later =>
      rw [returns] at returns'
      cases returns'
      exact ⟨_, rfl, later⟩
  · rintro ⟨later, rfl, drains⟩
    exact .char returns drains

theorem drains_cons (returns : u.telnetGetchar = (some c, u')) (chars : List UChar) :
    u.Drains (c :: chars) ↔ u'.Drains chars := by
  rw [drains_char returns]
  constructor
  · rintro ⟨later, same, drains⟩
    cases same
    exact drains
  · exact fun drains => ⟨chars, rfl, drains⟩

theorem not_drains_cons (returns : u.telnetGetchar = (some c, u')) (other : d ≠ c)
    (chars : List UChar) : ¬u.Drains (d :: chars) := by
  rw [drains_char returns]
  rintro ⟨later, same, -⟩
  exact other (List.cons.inj same).1

theorem drains_eof (ends : u.telnetGetchar = (none, u')) (chars : List UChar) :
    u.Drains chars ↔ chars = [] := by
  constructor
  · intro drains
    exact drains.unique (.eof ends)
  · rintro rfl
    exact .eof ends

theorem drains_again (same : u.telnetGetchar = u'.telnetGetchar) (chars : List UChar) :
    u.Drains chars ↔ u'.Drains chars := by
  constructor <;> intro drains <;> cases drains with
  | eof ends => exact .eof (by rwa [same] at *)
  | char returns later => exact .char (by rwa [same] at *) later

end Telnet
namespace TelnetMode

variable {c : UChar} {bytes : List UChar}

theorem next_plain (line : c ≠ telnetCr) (plain : c ≠ telnetIac) :
    next data c = data := by
  rw [next, if_neg line, if_neg plain]

theorem emit_plain (line : c ≠ telnetCr) (plain : c ≠ telnetIac) : emit data c = [c] := by
  rw [emit, if_neg (not_or.mpr ⟨line, plain⟩)]

theorem decode_plain (line : c ≠ telnetCr) (plain : c ≠ telnetIac)
    (bytes : List UChar) : decode data (c :: bytes) = c :: decode data bytes := by
  rw [decode, emit_plain line plain, next_plain line plain]
  rfl

theorem next_ends (ends : c = 0 ∨ c = telnetLf) : next carriageReturn c = data := by
  rw [next, if_pos ends]

theorem emit_ends (ends : c = 0 ∨ c = telnetLf) : emit carriageReturn c = [telnetLf] := by
  rw [emit, if_pos ends]

theorem decode_return (other : ¬(c = 0 ∨ c = telnetLf)) (bytes : List UChar) :
    ∃ chars, decode carriageReturn (c :: bytes) = telnetCr :: chars := by
  rw [decode, emit, if_neg other]
  split_ifs
  · exact ⟨_, rfl⟩
  · exact ⟨_, rfl⟩

variable {symbols : List (UChar × Bool)}

theorem negotiation_end (regular : negotiationCommand.Regular 0 (symbols.map Prod.fst)) :
    decode negotiationCommand (symbols.map Prod.fst) =
        decode data (symbols.tail.map Prod.fst) ∧
      decode command (symbols.map Prod.fst) = decode data (symbols.tail.map Prod.fst) ∧
      data.Regular 0 (symbols.tail.map Prod.fst) ∧
      command.Regular 0 (symbols.map Prod.fst) ∧
      (negotiationCommand.Prompt symbols ↔ data.Prompt symbols.tail) ∧
      (command.Prompt symbols ↔ data.Prompt symbols.tail) := by
  cases symbols with
  | nil => exact ⟨rfl, rfl, trivial, trivial, .rfl, .rfl⟩
  | cons symbol symbols =>
    obtain ⟨c, arrived⟩ := symbol
    obtain ⟨rfl, later⟩ := regular
    exact ⟨rfl, rfl, later, later, .rfl, .rfl⟩

open Telnet

theorem skipNegotiation_spec {read : Nat} (few : read ≤ 128)
    (regular : negotiation.Regular read (symbols.map Prod.fst)) :
    decode negotiation (symbols.map Prod.fst) =
        decode data ((skipNegotiation (128 - read) symbols).map Prod.fst) ∧
      data.Regular 0 ((skipNegotiation (128 - read) symbols).map Prod.fst) ∧
      (negotiation.Prompt symbols ↔ data.Prompt (skipNegotiation (128 - read) symbols)) := by
  induction symbols generalizing read with
  | nil =>
    have nothing : skipNegotiation (128 - read) [] = [] := by
      cases 128 - read <;> rfl
    rw [nothing]
    exact ⟨rfl, trivial, .rfl⟩
  | cons symbol symbols ih =>
    obtain ⟨c, arrived⟩ := symbol
    rw [map_cons, Regular] at regular
    split_ifs at regular with ends
    · dsimp only at ends
      subst ends
      obtain ⟨decoded, decoded', regular', regular_command, prompt, prompt'⟩ :=
        negotiation_end regular
      cases left : 128 - read with
      | zero => exact ⟨decoded.trans decoded'.symm, regular_command, prompt.trans prompt'.symm⟩
      | succ i => exact ⟨decoded, regular', prompt⟩
    · dsimp only at ends
      obtain ⟨more, later⟩ := regular
      obtain ⟨i, left⟩ : ∃ i, 128 - read = i + 1 := ⟨127 - read, by omega⟩
      have rest : 128 - (read + 1) = i := by omega
      have := ih more later
      rw [rest] at this
      rw [left, skipNegotiation, if_neg ends]
      have stays : next negotiation c = negotiation := if_neg ends
      have nothing : emit negotiation c = [] := rfl
      rw [map_cons, decode, Prompt, stays, nothing]
      · exact this
      all_goals simp

theorem skip_spec {arrived : Bool} (command_c : c ≠ telnetIac)
    (regular : command.Regular 0 (c :: symbols.map Prod.fst)) :
    decode command (c :: symbols.map Prod.fst) = decode data ((skip c symbols).map Prod.fst) ∧
      data.Regular 0 ((skip c symbols).map Prod.fst) ∧
      (command.Prompt ((c, arrived) :: symbols) ↔ data.Prompt (skip c symbols)) := by
  have nothing : emit command c = [] := if_neg command_c
  have decoded : decode command (c :: symbols.map Prod.fst) =
      decode (next command c) (symbols.map Prod.fst) := by
    rw [decode, nothing, nil_append]
  have regular' : (next command c).Regular 0 (symbols.map Prod.fst) := regular
  have prompt : command.Prompt ((c, arrived) :: symbols) ↔ (next command c).Prompt symbols := .rfl
  rw [decoded, prompt]
  rw [next] at regular' ⊢
  rw [skip]
  split_ifs at regular' ⊢
  · cases symbols with
    | nil => exact ⟨rfl, trivial, .rfl⟩
    | cons symbol symbols => exact ⟨rfl, regular', .rfl⟩
  · exact skipNegotiation_spec (Nat.zero_le 128) regular'
  · exact ⟨rfl, regular', .rfl⟩

end TelnetMode

namespace Telnet

open TelnetMode

variable {u : Telnet}

theorem drains_ahead {ahead chars : List UChar} (regular : data.Regular 0 u.ts.bytes)
    (present : ahead ≠ []) (ends : ∀ c ∈ ahead, c = 0 ∨ c = telnetLf) (drains : u.Drains chars) :
    ahead ++ chars ≠ decode data u.ts.bytes := by
  induction size : u.ts.symbols.length using Nat.strong_induction_on
    generalizing u ahead chars with
  | _ n ih =>
    obtain ⟨a, ahead, rfl⟩ := exists_cons_of_ne_nil present
    have first := ends a mem_cons_self
    have others := fun c member => ends c (mem_cons_of_mem a member)
    have first_ne : a ≠ telnetCr ∧ a ≠ telnetIac := by
      rcases first with rfl | rfl <;> decide
    rw [TelnetInput.bytes] at regular ⊢
    intro same
    rcases known : u.ts.symbols with _ | ⟨⟨c, arrived⟩, rest⟩
    · rw [known] at same
      cases same
    rw [known, length_cons] at size
    rw [known, map_cons] at same regular
    have one_more : ∀ {u' : Telnet} {more later : List UChar}, u'.ts.symbols.length < n →
        data.Regular 0 u'.ts.bytes → more ≠ [] → (∀ c ∈ more, c = 0 ∨ c = telnetLf) →
        u'.Drains later → ahead ++ (more ++ later) ≠ decode data u'.ts.bytes := by
      intro u' more later less regular' some more_ends drains'
      rw [← append_assoc]
      refine ih _ less regular' (append_ne_nil_of_right_ne_nil _ some) ?_ drains' rfl
      intro c member
      exact (mem_append.mp member).elim (others c) (more_ends c)
    rcases eq_or_ne c telnetCr with rfl | line
    · rcases rest with _ | ⟨⟨d, arrived'⟩, rest⟩
      · obtain ⟨same, -⟩ := List.cons.inj same
        exact first_ne.1 same
      rcases Decidable.em (d = 0 ∨ d = telnetLf) with line_end | other
      · have plain : d ≠ telnetCr ∧ d ≠ telnetIac := by
          rcases line_end with rfl | rfl <;> decide
        have decoded : decode data (telnetCr :: ((d, arrived') :: rest).map Prod.fst) =
            telnetLf :: decode data (rest.map Prod.fst) := by
          rw [map_cons]
          change decode .carriageReturn (d :: rest.map Prod.fst) = _
          rw [decode, emit_ends line_end, next_ends line_end]
          rfl
        have regular' : data.Regular 0 (rest.map Prod.fst) := by
          change (next .carriageReturn d).Regular 0 (rest.map Prod.fst) at regular
          rwa [next_ends line_end] at regular
        rw [length_cons] at size
        cases arrived' with
        | true =>
          obtain ⟨u', returns, behind⟩ := telnetGetchar_return_newline known line_end
          obtain ⟨later, rfl, drains'⟩ := (drains_char returns chars).mp drains
          rw [decoded] at same
          rw [← behind] at same regular' size
          exact one_more (by omega) regular' (cons_ne_nil telnetLf []) (by simp) drains'
            (List.cons.inj same).2
        | false =>
          obtain ⟨u', returns, behind⟩ := telnetGetchar_return_last known (by simp)
          obtain ⟨later, rfl, drains'⟩ := (drains_char returns chars).mp drains
          obtain ⟨u'', returns', behind'⟩ := telnetGetchar_plain behind plain.1 plain.2
          obtain ⟨later, rfl, drains''⟩ := (drains_char returns' later).mp drains'
          rw [decoded] at same
          rw [← behind'] at same regular' size
          exact one_more (by omega) regular' (cons_ne_nil telnetLf [d])
            (by simpa using line_end) drains'' (List.cons.inj same).2
      · obtain ⟨others, decoded⟩ := decode_return other (rest.map Prod.fst)
        obtain ⟨same, -⟩ := List.cons.inj (same.trans decoded)
        exact first_ne.1 same
    rcases eq_or_ne c telnetIac with rfl | plain
    · rcases rest with _ | ⟨⟨d, arrived'⟩, rest⟩
      · cases same
      · rcases eq_or_ne d telnetIac with rfl | command
        · obtain ⟨same, -⟩ := List.cons.inj same
          exact first_ne.2 same
        · obtain ⟨u', again, behind⟩ := telnetGetchar_command known command
          obtain ⟨decoded, regular', -⟩ := @skip_spec d rest arrived' command regular
          have shorter := length_skip d rest
          rw [length_cons] at size
          rw [← behind] at regular' decoded shorter
          exact ih _ (by omega) regular' present ends ((drains_again again chars).mp drains) rfl
            (same.trans decoded)
    · obtain ⟨u', returns, behind⟩ := telnetGetchar_plain known line plain
      obtain ⟨later, rfl, drains'⟩ := (drains_char returns chars).mp drains
      have decoded := decode_plain line plain (rest.map Prod.fst)
      have regular' : (next data c).Regular 0 (rest.map Prod.fst) := regular
      rw [next_plain line plain] at regular'
      obtain ⟨rfl, same⟩ := List.cons.inj (same.trans decoded)
      rw [← behind] at same regular' size
      exact one_more (by omega) regular' (cons_ne_nil a []) (by simpa using first) drains'
        same

/-- Two packets: a character, CR LF and an option, and a character and CR NUL. -/
def twoPackets : Telnet where
  ts := { packets := [⟨65, [13, 10, 255, 251, 1], true⟩, ⟨66, [13, 0], false⟩] }

end Telnet

def TelnetPacket.of (prompt : Bool) : List UChar → Option TelnetPacket
  | [] => none
  | first :: rest => some { first, rest, prompt }

namespace TelnetInput

variable {session : StreamSession} {s : SocketId} {later : List TelnetPacket}

/-- What a stream over a socket still receives, with the packets that have not arrived. -/
def ofSession (session : StreamSession) (s : SocketId) (later : List TelnetPacket) :
    TelnetInput where
  inbuf := session.u.unread
  packets := (session.ip.tcpSocket s).queue.filterMap
    (fun p => TelnetPacket.of true (payload p.buf.chunks)) ++ later

theorem symbols_ofSession (session : StreamSession) (s : SocketId) (later : List TelnetPacket) :
    (ofSession session s later).symbols =
      (session.pending s).map (·, true) ++ symbols { packets := later } := by
  have queued : ∀ queue : List TcpReceived,
      (queue.filterMap fun p => TelnetPacket.of true (payload p.buf.chunks)).flatMap
          (fun p => (p.first, p.prompt) :: p.rest.map (·, true)) =
        (queue.flatMap fun p => payload p.buf.chunks).map (·, true) := by
    intro queue
    induction queue with
    | nil => rfl
    | cons p queue ih =>
      rw [flatMap_cons, map_append, ← ih]
      rcases known : payload p.buf.chunks with _ | ⟨first, rest⟩
      · simp [TelnetPacket.of, known]
      · simp [TelnetPacket.of, known]
  simp [symbols, ofSession, StreamSession.pending, queued]

/-- `tcp_stream_peekchar` of the TCP stack does what it does here. -/
theorem peekchar_ofSession (peeks : session.PeeksNext s)
    (unseen : ∀ p ∈ later.head?, p.prompt = false) :
    ∃ answer u' ip', session.u.peekchar session.ip = some (answer, u', ip') ∧
      answer = .returned ((ofSession session s later).peekchar.1.elim (-1) fun c => c.toNat) ∧
      (ofSession ⟨u', ip', session.returned⟩ s later).symbols =
        (ofSession session s later).peekchar.2.symbols := by
  obtain ⟨answer, u', ip', called, same, returned⟩ := peeks
  refine ⟨answer, u', ip', called, ?_, ?_⟩
  · rw [peekchar_eq, symbols_ofSession, returned]
    cases session.pending s with
    | cons c rest => rfl
    | nil =>
      cases later with
      | nil => rfl
      | cons p later =>
        have hidden := unseen p rfl
        rw [symbols_packet, hidden]
        rfl
  · rw [symbols_peekchar, symbols_ofSession, symbols_ofSession, same]

/-- So does `tcp_stream_getchar`. -/
theorem getchar_ofSession {start : StreamSession} (starts : StreamSession.Starts s start)
    (run : StreamSession.Run s start session) (filled : session.Filled s) {c : UChar}
    {rest : List UChar} (pending : session.pending s = c :: rest) :
    ∃ u' ip', session.u.getchar session.ip = some (.returned (c.setWidth 16), u', ip') ∧
      (ofSession session s later).getchar.1 = some c ∧
      (ofSession ⟨u', ip', session.returned ++ [c]⟩ s later).symbols =
        (ofSession session s later).getchar.2.symbols := by
  obtain ⟨answer, u', ip', called, returned⟩ :=
    (StreamSession.getsNext_iff (StreamSession.run_sound starts run)).mpr filled
  rw [pending] at returned
  obtain ⟨rfl, behind⟩ := returned
  have known := symbols_ofSession session s later
  rw [pending] at known
  obtain ⟨first, same⟩ := getchar_cons known
  refine ⟨u', ip', called, first, ?_⟩
  rw [same, symbols_ofSession, behind]
  rfl

open StreamSession in
theorem getchar_ofSession_twoBytes :
    ∃ u' ip', filledStream.u.getchar filledStream.ip = some (.returned 1, u', ip') ∧
      (ofSession filledStream 0 []).getchar.1 = some 1 ∧
      (ofSession ⟨u', ip', [1]⟩ 0 []).symbols = (ofSession filledStream 0 []).getchar.2.symbols :=
  @getchar_ofSession filledStream 0 [] _ (connected_starts 2)
    (afterSegment_run .established (by decide +kernel))
    ⟨_, _, rfl, cons_ne_nil _ _⟩ 1 [2] (by decide +kernel)

end TelnetInput
end Uos
