import Uos.Net.Tcp.Sending

/-!
# The retransmission time-out

With samples of up to 120 ticks, the 16 bits of the estimator are enough, also for the time-outs
that are doubled from it.
-/

namespace Uos

open BitVec

/-- Eight times the mean of the round-trip times, and four times their deviation. -/
structure RoundTripTime where
  mean : Int
  deviation : Int

namespace RoundTripTime

def sample (time : RoundTripTime) (m : Int) : RoundTripTime where
  mean := time.mean + (m - time.mean / 8)
  deviation :=
    time.deviation +
      ((if m - time.mean / 8 < 0 then -(m - time.mean / 8) else m - time.mean / 8) -
        time.deviation / 4)

def timeout (time : RoundTripTime) : Int :=
  time.mean / 8 + time.deviation

/-- The bounds that samples of up to 120 ticks keep: the deviation is small while the mean is near
one of its ends, since it must have been there for some time. -/
structure Bounded (time : RoundTripTime) : Prop where
  nonneg : 0 ≤ time.mean
  mean : time.mean ≤ 967
  deviation : 3 ≤ time.deviation
  low : time.deviation ≤ time.mean + 8
  high : time.deviation + time.mean ≤ 976
  top : time.deviation ≤ 360

variable {time : RoundTripTime} {m : Int}

theorem Bounded.sample (bounded : time.Bounded) (nonneg : 0 ≤ m) (small : m ≤ 120) :
    (time.sample m).Bounded := by
  obtain ⟨positive, mean, deviation, low, high, top⟩ := bounded
  simp only [RoundTripTime.sample]
  split <;> constructor <;> simp only [] <;> omega

theorem Bounded.timeout (bounded : time.Bounded) : 3 ≤ time.timeout ∧ time.timeout ≤ 480 := by
  obtain ⟨positive, mean, deviation, low, high, top⟩ := bounded
  rw [RoundTripTime.timeout]
  omega

end RoundTripTime

namespace BitVecBounds

theorem add_toInt {w : Nat} {x y : BitVec w} (low : -2 ^ (w - 1) ≤ x.toInt + y.toInt)
    (high : x.toInt + y.toInt < 2 ^ (w - 1)) : (x + y).toInt = x.toInt + y.toInt := by
  apply toInt_add_of_not_saddOverflow
  simp only [BitVec.saddOverflow, Bool.or_eq_true, decide_eq_true_iff]
  omega

theorem sub_toInt {w : Nat} {x y : BitVec w} (low : -2 ^ (w - 1) ≤ x.toInt - y.toInt)
    (high : x.toInt - y.toInt < 2 ^ (w - 1)) : (x - y).toInt = x.toInt - y.toInt := by
  apply toInt_sub_of_not_ssubOverflow
  simp only [BitVec.ssubOverflow, Bool.or_eq_true, decide_eq_true_iff]
  omega

theorem toNat_toInt {w : Nat} {x : BitVec w} (nonneg : 0 ≤ x.toInt) :
    (x.toNat : Int) = x.toInt := by
  have bound := x.isLt
  rw [toInt_eq_toNat_cond] at nonneg ⊢
  split
  · rfl
  · rename_i large
    rw [if_neg large] at nonneg
    omega

theorem narrow_toInt {x : BitVec 32} (low : -32768 ≤ x.toInt) (high : x.toInt < 32768) :
    (x.setWidth 16).toInt = x.toInt := by
  have bound := x.isLt
  rw [toInt_eq_toNat_cond] at low high ⊢
  rw [toInt_eq_toNat_cond, toNat_setWidth]
  split at low <;> split <;> simp_all only [reduceIte] <;> omega

theorem magnitude_toInt {x : BitVec 32} (low : -32768 ≤ x.toInt) (high : x.toInt < 32768) :
    (if x.slt 0 then -x else x).toInt = if x.toInt < 0 then -x.toInt else x.toInt := by
  have sign : x.slt 0 = decide (x.toInt < 0) := rfl
  rw [sign]
  rcases lt_or_ge x.toInt 0 with negative | positive
  · rw [decide_eq_true negative, if_pos rfl, if_pos negative, ← BitVec.zero_sub]
    rw [sub_toInt] <;> rw [toInt_zero] <;> omega
  · rw [decide_eq_false (not_lt.mpr positive), if_neg (by decide), if_neg (not_lt.mpr positive)]

end BitVecBounds

namespace TcpSocket

open BitVecBounds

def roundTripTime (socket : TcpSocket) : RoundTripTime :=
  ⟨socket.sa.toInt, socket.sv.toInt⟩

def elapsed (socket : TcpSocket) (ticks : ULong) : Nat :=
  (ticks - socket.rttest.setWidth 32).toNat

variable {socket socket' : TcpSocket} {ticks ackno : ULong}

theorem mean_toInt : ((socket.sa.sshiftRight 3).signExtend 32).toInt = socket.sa.toInt / 8 := by
  rw [toInt_signExtend_of_le (by decide), toInt_sshiftRight]
  exact Int.shiftRight_eq_div_pow _ 3

theorem deviation_toInt :
    ((socket.sv.sshiftRight 2).signExtend 32).toInt = socket.sv.toInt / 4 := by
  rw [toInt_signExtend_of_le (by decide), toInt_sshiftRight]
  exact Int.shiftRight_eq_div_pow _ 2

theorem roundTrip_toNat (bounded : socket.roundTripTime.Bounded) :
    (socket.roundTrip.toNat : Int) = socket.roundTripTime.timeout := by
  obtain ⟨least, most⟩ := bounded.timeout
  have sum : socket.roundTrip.toInt = socket.roundTripTime.timeout := by
    have wide : (socket.sv.signExtend 32).toInt = socket.sv.toInt :=
      toInt_signExtend_of_le (by decide)
    have timeout : socket.roundTripTime.timeout = socket.sa.toInt / 8 + socket.sv.toInt := rfl
    rw [roundTrip, add_toInt] <;> rw [mean_toInt, wide] <;> omega
  rw [toNat_toInt (by omega), sum]

def difference (socket : TcpSocket) (ticks : ULong) : BitVec 32 :=
  ticks - socket.rttest.setWidth 32 - (socket.sa.sshiftRight 3).signExtend 32

theorem difference_toInt (bounded : socket.roundTripTime.Bounded)
    (small : socket.elapsed ticks ≤ 120) :
    (socket.difference ticks).toInt = socket.elapsed ticks - socket.sa.toInt / 8 := by
  have positive : 0 ≤ socket.sa.toInt := bounded.nonneg
  have mean : socket.sa.toInt ≤ 967 := bounded.mean
  have sample : (ticks - socket.rttest.setWidth 32).toInt = socket.elapsed ticks := by
    rw [elapsed] at small ⊢
    exact toInt_eq_toNat_of_lt (by omega)
  rw [difference]
  rw [sub_toInt] <;> rw [sample, mean_toInt] <;> omega

theorem estimate_taken (timed : socket.rttest ≠ 0) (beyond : seqLt socket.rtseq ackno = true) :
    (socket.estimate ticks ackno).sa = socket.sa + (socket.difference ticks).setWidth 16 ∧
      (socket.estimate ticks ackno).sv = socket.sv +
        ((if (socket.difference ticks).slt 0 then -socket.difference ticks
          else socket.difference ticks) - (socket.sv.sshiftRight 2).signExtend 32).setWidth 16 ∧
      (socket.estimate ticks ackno).rto =
        (socket.estimate ticks ackno).roundTrip.setWidth 16 := by
  have taken : (socket.rttest ≠ 0 && seqLt socket.rtseq ackno) = true := by
    rw [beyond, Bool.and_true]
    exact decide_eq_true timed
  rw [estimate, if_pos taken]
  exact ⟨rfl, rfl, rfl⟩

theorem estimate_sample (bounded : socket.roundTripTime.Bounded) (timed : socket.rttest ≠ 0)
    (beyond : seqLt socket.rtseq ackno = true) (small : socket.elapsed ticks ≤ 120) :
    (socket.estimate ticks ackno).roundTripTime =
      socket.roundTripTime.sample (socket.elapsed ticks) := by
  obtain ⟨sa, sv, -⟩ := @estimate_taken socket ticks ackno timed beyond
  have difference := difference_toInt bounded small
  obtain ⟨positive, mean, deviation, low, high, top⟩ := bounded
  simp only [roundTripTime] at positive mean deviation low high top
  have change : ((socket.difference ticks).setWidth 16).toInt =
      socket.elapsed ticks - socket.sa.toInt / 8 := by
    rw [narrow_toInt] <;> omega
  have magnitude := magnitude_toInt (x := socket.difference ticks) (by omega) (by omega)
  rw [difference] at magnitude
  simp only [roundTripTime, RoundTripTime.sample, RoundTripTime.mk.injEq]
  constructor
  · rw [sa, add_toInt] <;> rw [change] <;> omega
  · have spread : ((if (socket.difference ticks).slt 0 then -socket.difference ticks
        else socket.difference ticks) - (socket.sv.sshiftRight 2).signExtend 32).toInt =
          (if (socket.elapsed ticks : Int) - socket.sa.toInt / 8 < 0 then
            -((socket.elapsed ticks : Int) - socket.sa.toInt / 8)
          else (socket.elapsed ticks : Int) - socket.sa.toInt / 8) - socket.sv.toInt / 4 := by
      rw [sub_toInt] <;> rw [magnitude, deviation_toInt] <;> split <;> omega
    have narrow := narrow_toInt (by rw [spread]; split <;> omega) (by rw [spread]; split <;> omega)
    rw [sv, add_toInt] <;> rw [narrow, spread] <;> split <;> omega

theorem rto_toNat {rto : UShort} (bounded : socket.roundTripTime.Bounded)
    (same : rto = socket.roundTrip.setWidth 16) :
    (rto.toNat : Int) = socket.roundTripTime.timeout := by
  have sum := roundTrip_toNat bounded
  have most := bounded.timeout.2
  rw [same, toNat_setWidth]
  omega

theorem tcpBackoff_le {nrtx : UChar} (small : nrtx.toNat < 12) :
    tcpBackoff nrtx ≤ tcpBackoff (nrtx + 1) ∧ tcpBackoff nrtx ≤ 7 := by
  obtain ⟨value, below, rfl⟩ : ∃ value < 12, nrtx = .ofNat 8 value :=
    ⟨nrtx.toNat, small, (ofNat_toNat 8 nrtx).symm⟩
  have all : ∀ value < 12, tcpBackoff (.ofNat 8 value) ≤ tcpBackoff (.ofNat 8 value + 1) ∧
      tcpBackoff (.ofNat 8 value) ≤ 7 := by decide
  exact all value below

theorem backOff_rto (bounded : socket.roundTripTime.Bounded) (small : socket.nrtx.toNat < 12)
    (state : socket.state ≠ .synSent) :
    (socket.backOff.rto.toNat : Int) =
      socket.roundTripTime.timeout * 2 ^ tcpBackoff socket.nrtx := by
  have sum := roundTrip_toNat bounded
  have most := bounded.timeout.2
  have shift := (tcpBackoff_le small).2
  have power : 2 ^ tcpBackoff socket.nrtx ≤ 2 ^ 7 := Nat.pow_le_pow_right (by decide) shift
  have product : socket.roundTrip.toNat * 2 ^ tcpBackoff socket.nrtx ≤ 480 * 2 ^ 7 :=
    Nat.mul_le_mul (by omega) power
  rw [backOff, if_pos state, toNat_setWidth, toNat_shiftLeft, Nat.shiftLeft_eq,
    Nat.mod_eq_of_lt (by omega : _ < 2 ^ 32), Nat.mod_eq_of_lt (by omega : _ < 2 ^ 16), ← sum]
  push_cast
  rfl

/-- What may happen to the time-out of a socket. -/
inductive TimeoutStep (socket : TcpSocket) : TcpSocket → Prop
  /-- Something else changes. -/
  | other {socket' : TcpSocket} (sa : socket'.sa = socket.sa) (sv : socket'.sv = socket.sv)
      (rto : socket'.rto = socket.rto) (nrtx : socket'.nrtx = socket.nrtx) :
      TimeoutStep socket socket'
  /-- A segment arrives; if it ends a measurement, that took no more than 120 ticks. -/
  | sample (ticks ackno : ULong)
      (small : socket.rttest ≠ 0 → seqLt socket.rtseq ackno = true → socket.elapsed ticks ≤ 120) :
      TimeoutStep socket (socket.estimate ticks ackno)
  /-- New data is acknowledged. -/
  | acknowledge {socket' : TcpSocket} (ackno : ULong)
      (accepts : socket.acknowledge ackno = some socket') : TimeoutStep socket socket'
  /-- The retransmission timer expires. -/
  | timeout (patient : socket.gaveUp = false) :
      TimeoutStep socket { socket.backOff with nrtx := socket.nrtx + 1 }

/-- What the estimator and the time-out of a socket promise. -/
structure Timely (socket : TcpSocket) : Prop where
  bounded : socket.roundTripTime.Bounded
  nrtx : socket.nrtx.toNat ≤ 12
  least : 3 ≤ socket.rto.toNat
  most : (socket.rto.toNat : Int) ≤ socket.roundTripTime.timeout * 2 ^ tcpBackoff socket.nrtx

theorem Timely.congr (timely : socket.Timely) (sa : socket'.sa = socket.sa)
    (sv : socket'.sv = socket.sv) (rto : socket'.rto = socket.rto)
    (nrtx : socket'.nrtx = socket.nrtx) : socket'.Timely := by
  obtain ⟨bounded, small, least, most⟩ := timely
  have time : socket'.roundTripTime = socket.roundTripTime := by rw [roundTripTime, sa, sv]; rfl
  exact ⟨time ▸ bounded, nrtx ▸ small, rto ▸ least, by rw [rto, time, nrtx]; exact most⟩

theorem Timely.fresh (bounded : socket.roundTripTime.Bounded) (small : socket.nrtx.toNat ≤ 12)
    (rto : socket.rto = socket.roundTrip.setWidth 16) : socket.Timely := by
  have sum := rto_toNat bounded rto
  have least := bounded.timeout.1
  have power : (1 : Int) ≤ 2 ^ tcpBackoff socket.nrtx := one_le_pow₀ (by decide)
  refine ⟨bounded, small, by omega, ?_⟩
  rw [sum]
  exact le_mul_of_one_le_right (by omega) power

theorem acknowledge_time (acks : socket.acknowledge ackno = some socket') :
    socket'.sa = socket.sa ∧ socket'.sv = socket.sv ∧ socket'.nrtx = 0 ∧
      socket'.rto = socket.roundTrip.setWidth 16 := by
  have finish (reset : TcpSocket) (sa : reset.sa = socket.sa) (sv : reset.sv = socket.sv)
      (nrtx : reset.nrtx = 0) (rto : reset.rto = socket.roundTrip.setWidth 16)
      (frees : freeUnacked ackno reset.unacked reset = some socket') :
      socket'.sa = socket.sa ∧ socket'.sv = socket.sv ∧ socket'.nrtx = 0 ∧
        socket'.rto = socket.roundTrip.setWidth 16 := by
    obtain ⟨freed, kept, -, rfl⟩ := freeUnacked_spec frees rfl
    exact ⟨sa, sv, nrtx, rto⟩
  simp only [acknowledge] at acks
  refine finish _ ?_ ?_ ?_ ?_ acks <;> split <;> split <;> rfl

theorem Timely.sample (timely : socket.Timely) (timed : socket.rttest ≠ 0)
    (beyond : seqLt socket.rtseq ackno = true) (small : socket.elapsed ticks ≤ 120) :
    (socket.estimate ticks ackno).Timely := by
  have same := estimate_sample timely.bounded timed beyond small
  have bounded := timely.bounded.sample (Int.natCast_nonneg _) (Int.ofNat_le.mpr small)
  have nrtx : (socket.estimate ticks ackno).nrtx = socket.nrtx := by
    simp only [estimate]
    split <;> rfl
  refine .fresh ?_ ?_ (estimate_taken timed beyond).2.2
  · rw [same]
    exact bounded
  · rw [nrtx]
    exact timely.nrtx

theorem estimate_untaken (other : ¬(socket.rttest ≠ 0 ∧ seqLt socket.rtseq ackno = true)) :
    socket.estimate ticks ackno = socket := by
  rw [estimate, if_neg]
  simpa only [Bool.and_eq_true, decide_eq_true_eq] using other

theorem Timely.patient (timely : socket.Timely) (patient : socket.gaveUp = false) :
    socket.nrtx.toNat < 12 := by
  have other : socket.nrtx ≠ 12 := by
    intro twelve
    simp [gaveUp, twelve, tcpMaxrtx] at patient
  have twelve : socket.nrtx.toNat ≠ 12 := fun same => other (eq_of_toNat_eq same)
  exact lt_of_le_of_ne timely.nrtx twelve

theorem Timely.backOff (timely : socket.Timely) (patient : socket.gaveUp = false) :
    ({ socket.backOff with nrtx := socket.nrtx + 1 } : TcpSocket).Timely := by
  have below := timely.patient patient
  obtain ⟨bounded, small, least, most⟩ := timely
  have next : (socket.nrtx + 1).toNat = socket.nrtx.toNat + 1 := by bv_omega
  have positive := bounded.timeout.1
  have grows : (2 : Int) ^ tcpBackoff socket.nrtx ≤ 2 ^ tcpBackoff (socket.nrtx + 1) :=
    pow_le_pow_right₀ (by decide) (tcpBackoff_le below).1
  have later : socket.roundTripTime.timeout * 2 ^ tcpBackoff socket.nrtx ≤
      socket.roundTripTime.timeout * 2 ^ tcpBackoff (socket.nrtx + 1) :=
    Int.mul_le_mul_of_nonneg_left grows (by omega)
  have time : ({ socket.backOff with nrtx := socket.nrtx + 1 } : TcpSocket).roundTripTime =
      socket.roundTripTime := by
    simp only [TcpSocket.backOff, roundTripTime]
    split <;> rfl
  have rto : socket.backOff.rto.toNat = socket.rto.toNat ∨
      (socket.backOff.rto.toNat : Int) =
        socket.roundTripTime.timeout * 2 ^ tcpBackoff socket.nrtx := by
    rcases eq_or_ne socket.state .synSent with connecting | connected
    · rw [TcpSocket.backOff, if_neg (not_not.mpr connecting)]
      exact .inl rfl
    · exact .inr (backOff_rto bounded below connected)
  have power : (1 : Int) ≤ 2 ^ tcpBackoff socket.nrtx := one_le_pow₀ (by decide)
  have least' : socket.roundTripTime.timeout ≤
      socket.roundTripTime.timeout * 2 ^ tcpBackoff socket.nrtx :=
    le_mul_of_one_le_right (by omega) power
  refine ⟨time ▸ bounded, ?_, ?_, ?_⟩
  · change (socket.nrtx + 1).toNat ≤ 12
    omega
  · change 3 ≤ socket.backOff.rto.toNat
    omega
  · rw [time]
    change (socket.backOff.rto.toNat : Int) ≤ socket.roundTripTime.timeout *
      2 ^ tcpBackoff (socket.nrtx + 1)
    omega

theorem Timely.step (timely : socket.Timely) (step : TimeoutStep socket socket') :
    socket'.Timely := by
  cases step with
  | other sa sv rto nrtx => exact timely.congr sa sv rto nrtx
  | sample ticks ackno small =>
    rcases em (socket.rttest ≠ 0 ∧ seqLt socket.rtseq ackno = true) with taken | untaken
    · exact timely.sample taken.1 taken.2 (small taken.1 taken.2)
    · rw [estimate_untaken untaken]
      exact timely
  | acknowledge ackno accepts =>
    obtain ⟨sa, sv, nrtx, rto⟩ := acknowledge_time accepts
    have time : socket'.roundTripTime = socket.roundTripTime := by rw [roundTripTime, sa, sv]; rfl
    have sum : socket'.roundTrip = socket.roundTrip := by rw [roundTrip, sa, sv]; rfl
    refine .fresh (time ▸ timely.bounded) ?_ (sum ▸ rto)
    rw [nrtx]
    decide
  | timeout patient => exact timely.backOff patient

theorem allocated_timely (iss ticks : ULong) : (allocated iss ticks).Timely := by
  have time : (allocated iss ticks).roundTripTime = ⟨0, 6⟩ := rfl
  have sum : (allocated iss ticks).roundTrip = 6 := by
    change (BitVec.sshiftRight (0 : UShort) 3).signExtend 32 + BitVec.signExtend 32 (6 : UShort) = 6
    decide
  refine .fresh ?_ (Nat.zero_le _) (by rw [sum]; rfl)
  rw [time]
  constructor <;> decide

/-- From the allocation of a socket on, the estimator and the time-outs are those of numbers without
a bound, the time-out is at least three ticks, and each retransmission makes it no shorter. -/
theorem timeout_never_collapses (iss start : ULong)
    (run : Relation.ReflTransGen TimeoutStep (allocated iss start) socket) :
    0 ≤ socket.sa.toInt ∧ 3 ≤ socket.sv.toInt ∧ 3 ≤ socket.rto.toNat ∧
      (∀ ticks ackno, socket.rttest ≠ 0 → seqLt socket.rtseq ackno = true →
        socket.elapsed ticks ≤ 120 →
          (socket.estimate ticks ackno).roundTripTime =
              socket.roundTripTime.sample (socket.elapsed ticks) ∧
            ((socket.estimate ticks ackno).rto.toNat : Int) =
              (socket.roundTripTime.sample (socket.elapsed ticks)).timeout) ∧
      (socket.state ≠ .synSent → socket.gaveUp = false →
        socket.rto.toNat ≤ socket.backOff.rto.toNat ∧
          (socket.backOff.rto.toNat : Int) =
            socket.roundTripTime.timeout * 2 ^ tcpBackoff socket.nrtx) := by
  have timely : socket.Timely :=
    run_invariant Timely (fun kept step => kept.step step) (allocated_timely iss start) run
  refine ⟨timely.bounded.nonneg, timely.bounded.deviation, timely.least, ?_, ?_⟩
  · intro ticks ackno timed beyond small
    have same := estimate_sample timely.bounded timed beyond small
    have sampled := timely.sample timed beyond small
    rw [← same]
    exact ⟨rfl, rto_toNat sampled.bounded (estimate_taken timed beyond).2.2⟩
  · intro connected patient
    have below := timely.patient patient
    have doubled := backOff_rto timely.bounded below connected
    have most := timely.most
    exact ⟨by omega, doubled⟩

def measuring : TcpSocket :=
  { allocated 0 0 with state := .established, rttest := 1 }

theorem measured_never_collapses :
    0 ≤ (measuring.estimate 100 1).sa.toInt ∧ 3 ≤ (measuring.estimate 100 1).sv.toInt ∧
      (measuring.estimate 100 1).rto.toNat ≤ (measuring.estimate 100 1).backOff.rto.toNat := by
  have timed : TimeoutStep (allocated 0 0) measuring := .other rfl rfl rfl rfl
  have sampled : TimeoutStep measuring (measuring.estimate 100 1) :=
    .sample 100 1 fun _ _ => by decide
  obtain ⟨sa, sv, -, -, timeout⟩ :=
    timeout_never_collapses 0 0 ((Relation.ReflTransGen.single timed).tail sampled)
  exact ⟨sa, sv, (timeout (by decide) (by decide)).1⟩

end TcpSocket

namespace Ip

open TcpSocket

end Ip
end Uos
