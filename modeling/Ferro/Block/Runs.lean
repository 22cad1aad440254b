import Ferro.Block.Commands

/-!
# The protocol over runs of the driver

Initializations, and transfers with the card of the last one, in any order.
-/

namespace Ferro.Sd

open Monitor (Guards)

variable {h : Host} {α : Type} {P : Line → Prop} {E : Line → Prop} {reg : HostReg} {v : UInt32} {fuel : Nat}
  {timeoutTicks : UInt64} {phase : Phase} {hz : Nat} {size : UInt32}

/-! ## One access -/

/-- A program for the registers of the commands, wherever it starts. -/
theorem guards_lift {x : Controller → Driver α} {Q : α → Line → Prop}
    (hx : ∀ c before, (busMonitor before).Guards (fun l _ => P l) (x c) (fun a l _ => Q a l) fun l _ => E l) :
    hostMonitor.Guards (fun l _ => P l) (lift h x) (fun a l _ => Q a l) fun l _ => E l := by
  rintro b r b' ⟨l, hl, hP⟩ hrun
  obtain ⟨⟨r', b₁⟩, hx₁, he⟩ := Option.map_eq_some_iff.mp hrun
  cases he
  have hstart : (busMonitor b.trace).Watched (fun l _ => P l) ⟨b.status, []⟩ := by
    have htrace : (busMonitor b.trace).trace ⟨b.status, []⟩ = b.trace := List.append_nil _
    exact ⟨l, by rw [htrace]; exact hl, hP⟩
  have hend := hx _ b.trace hstart hx₁
  cases r' with
  | ok a => exact hend
  | error e => exact hend

theorem guards_readHost {Q : UInt32 → Line → Prop}
    (hread : ∀ l v, P l → ∃ l', l.step (.read reg v) = some l' ∧ Q v l') :
    hostMonitor.Guards (fun l _ => P l) (readHost h reg) (fun v l _ => Q v l) fun l _ => E l :=
  Guards.step (fun b => .read reg (h.value b.trace reg)) (fun _ => rfl) fun l _ hl => hread l _ hl

theorem guards_writeHost {Q : Line → Prop} (hwrite : ∀ l, P l → ∃ l', l.step (.write reg v) = some l' ∧ Q l') :
    hostMonitor.Guards (fun l _ => P l) (writeHost reg v) (fun _ l _ => Q l) fun l _ => E l :=
  Guards.step (fun _ => .write reg v) (fun _ => rfl) fun l _ hl => hwrite l hl

theorem guards_ticksHost : hostMonitor.Guards (fun l _ => P l) (lift h ticks) (fun _ l _ => P l) fun l _ => E l :=
  guards_lift fun _ _ => guards_ticks fun _ _ hl _ _ => hl

/-- A wait that reads a register, as it is for the registers of the commands. -/
theorem guards_waitWhileHost {p : UInt32 → Bool} {Q : Line → Prop} (hE : ∀ l, P l → E l)
    (hread : ∀ l v, P l → ∃ l', l.step (.read reg v) = some l' ∧ if p v = true then P l' else Q l') :
    hostMonitor.Guards (fun l _ => P l) (waitWhileHost h fuel timeoutTicks do return p (← readHost h reg))
      (fun _ l _ => Q l) fun l _ => E l := by
  have hloop (deadline : UInt64) : hostMonitor.Guards (fun l _ => P l)
      (waitLoopHost h deadline (do return p (← readHost h reg)) fuel) (fun _ l _ => Q l) fun l _ => E l := by
    induction fuel with
    | zero => exact .stuck
    | succ fuel ih =>
        have hcond : hostMonitor.Guards (fun l _ => P l) (do return p (← readHost h reg))
            (fun again l _ => if again = true then P l else Q l) fun l _ => E l :=
          (guards_readHost hread).bind fun v => .pure fun l b hl => hl
        refine hcond.bind fun again => .ite (fun hagain => ?_) fun hagain => .pure fun l b hl => ?_
        · subst hagain
          exact guards_ticksHost.bind fun n => .ite (fun _ => .throw fun l _ hl => hE l hl) fun _ => ih
        · rwa [if_neg hagain] at hl
  exact guards_ticksHost.bind fun n => hloop _

/-! ## The clock -/

theorem step_clock {l : Line} {clock : Clock} (hreset : v ≠ resetAllBit) (hwrite : l.clock.write v = some clock) :
    l.step (.write .clockTimeoutReset v) = some { l with clock } := by
  simp only [Line.step, hreset, if_false, hwrite, Option.map_some]

theorem guards_resetAll : hostMonitor.Guards (fun _ _ => True) (resetAll h fuel) (fun _ l _ => l = .unknown .off)
    fun _ _ => True := by
  refine Guards.bind (Q := fun _ l _ => l = .unknown .resetting) (guards_writeHost fun l _ => ?_) fun _ => ?_
  · have hstep : l.step (.write .clockTimeoutReset resetAllBit) = some (.unknown .resetting) := by
      simp only [Line.step, if_true]
    exact ⟨_, hstep, rfl⟩
  refine guards_waitWhileHost (fun _ _ => trivial) fun l v hl => ⟨_, rfl, ?_⟩
  subst hl
  by_cases hv : v &&& resetAllBit = 0
  · simp [hv, Line.unknown, Clock.read]
  · simp [hv, Line.unknown, Clock.read]

/-- While the clock is set. -/
structure Line.Clocked (phase : Phase) (size : UInt32) (clock : Clock) (l : Line) : Prop where
  enabled : l.enabled = 0xFFFFFFFF
  clock : l.clock = clock
  size : l.size = size
  phase : l.phase = phase

/-- The clock may be set. -/
structure Line.Prepared (phase : Phase) (size : UInt32) (l : Line) : Prop extends l.Clocked phase size l.clock where
  ready : l.clock ≠ .resetting

theorem Line.Settled.prepared {l : Line} (hl : l.Settled phase hz size) : l.Prepared phase size where
  enabled := hl.enabled
  clock := rfl
  size := hl.size
  phase := hl.phase
  ready hreset := by
    have hclock := hl.clock
    rw [hreset] at hclock
    exact hclock

/-- The divisor fits in its bits, beside those for the clocks. -/
theorem clockCtrl_fields {bits : UInt32} (hbits : bits = 0b001 ∨ bits = 0b101) : ∀ d < 80,
    let clockCtrl : UInt32 := (UInt32.ofNat d <<< 8) ||| bits
    clockCtrl ≠ resetAllBit ∧ clockCtrl ≠ 0 ∧ clockCtrl >>> 16 = 0 ∧ clockCtrl &&& 0xFF = bits ∧
      clockCtrl >>> 8 = UInt32.ofNat d := by
  rcases hbits with rfl | rfl
  · decide
  · decide

/-- What `set_clock` computes: with a whole number of MHz and of steps of 200 kHz the rounded quotient is exact. -/
structure Divides (mhz : UInt32) (hz : Nat) (divisor : UInt32) : Prop where
  lt : divisor.toNat < 80
  le : mhz.toNat * 1000000 ≤ hz * (2 * divisor.toNat)

theorem guards_divisorLoop {mhz divisor : UInt32} {base targetHz : UInt64} {k : Nat} (hmhz : mhz.toNat < 64)
    (hbase : base.toNat = max (mhz.toNat * 1000000) 1) (htarget : targetHz.toNat = 200000 * k) (hk : 2 ≤ k)
    (hdivisor : 0 < divisor.toNat ∧ divisor.toNat < 80) :
    hostMonitor.Guards (fun l _ => P l) (divisorLoop base targetHz fuel divisor)
      (fun divisor l _ => ∃ _ : Divides mhz targetHz.toNat divisor, P l) fun l _ => E l := by
  induction fuel generalizing divisor with
  | zero => exact .stuck
  | succ fuel ih =>
      have htwo : (2 * divisor.toUInt64).toNat = 2 * divisor.toNat := by
        have h2 : (2 : UInt64).toNat = 2 := rfl
        rw [UInt64.toNat_mul, h2, UInt32.toNat_toUInt64]
        omega
      have hlt : base / (2 * divisor.toUInt64) > targetHz ↔ targetHz.toNat < base.toNat / (2 * divisor.toNat) := by
        rw [gt_iff_lt, UInt64.lt_iff_toNat_lt, UInt64.toNat_div, htwo]
      refine .ite (fun hfast => ih ?_) fun hslow => .pure fun l b hl => ⟨⟨hdivisor.2, ?_⟩, hl⟩
      · rw [hlt, htarget] at hfast
        have hle : 400001 * (2 * divisor.toNat) ≤ base.toNat :=
          (Nat.le_div_iff_mul_le (by omega)).mp (show 400001 ≤ base.toNat / (2 * divisor.toNat) by omega)
        have hsucc : (divisor + 1).toNat = divisor.toNat + 1 := by
          have h1 : (1 : UInt32).toNat = 1 := rfl
          rw [UInt32.toNat_add, h1]
          omega
        omega
      · rw [hlt, htarget, Nat.not_lt, ← Nat.lt_succ_iff, Nat.div_lt_iff_lt_mul (by omega)] at hslow
        rw [Nat.succ_mul, Nat.mul_assoc] at hslow
        rw [htarget, Nat.mul_assoc]
        omega

theorem guards_baseClockHz {clock : Clock} : hostMonitor.Guards (fun l _ => l.Clocked phase size clock) (baseClockHz h)
    (fun hz l _ => ∃ mhz : UInt32, ∃ _ : mhz.toNat < 64 ∧ hz = mhz.toUInt64 * 1000000,
      l.mhz = mhz ∧ l.Clocked phase size clock) fun l _ => E l := by
  refine Guards.bind (Q := fun (caps : UInt32) (l : Line) _ => l.mhz = (caps >>> 8) &&& 0x3F ∧ l.Clocked phase size clock)
    (guards_readHost fun l caps hl => ⟨_, rfl, rfl, hl.enabled, hl.clock, hl.size, hl.phase⟩) fun caps => ?_
  refine .pure fun l b hl => ⟨_, ⟨?_, rfl⟩, hl⟩
  have h63 : (0x3F : UInt32).toNat = 63 := rfl
  have hle : ((caps >>> 8) &&& 0x3F).toNat ≤ 63 := by
    rw [UInt32.toNat_and, h63]
    exact Nat.and_le_right
  omega

theorem toNat_base {mhz : UInt32} (hmhz : mhz.toNat < 64) :
    (max (mhz.toUInt64 * 1000000) 1).toNat = max (mhz.toNat * 1000000) 1 := by
  have hmul : (mhz.toUInt64 * 1000000).toNat = mhz.toNat * 1000000 := by
    have hmega : (1000000 : UInt64).toNat = 1000000 := rfl
    rw [UInt64.toNat_mul, UInt32.toNat_toUInt64, hmega]
    omega
  have hmax : max (mhz.toUInt64 * 1000000) 1 = if mhz.toUInt64 * 1000000 ≤ 1 then 1 else mhz.toUInt64 * 1000000 := rfl
  have hone : (1 : UInt64).toNat = 1 := rfl
  rw [hmax]
  split
  · next hle =>
    rw [UInt64.le_iff_toNat_le, hmul, hone] at hle
    rw [hone]
    omega
  · next hgt =>
    rw [UInt64.le_iff_toNat_le, hmul, hone] at hgt
    rw [hmul]
    omega

/-- What is written for a divisor: the clock alone, and with the clock of the card. -/
theorem Divides.fields {mhz divisor : UInt32} (hdivides : Divides mhz hz divisor) :
    (∀ l : Line, l.clock = .off → l.step (.write .clockTimeoutReset ((divisor <<< 8) ||| ((1 : UInt32) <<< 0))) =
      some { l with clock := .starting divisor }) ∧
    ∀ l : Line, l.clock = .stable divisor →
      l.step (.write .clockTimeoutReset ((divisor <<< 8) ||| ((1 : UInt32) <<< 0) ||| ((1 : UInt32) <<< 2))) =
        some { l with clock := .running divisor } := by
  have hfields {bits : UInt32} (hbits : bits = 0b001 ∨ bits = 0b101) := clockCtrl_fields hbits divisor.toNat hdivides.lt
  simp only [UInt32.ofNat_toNat] at hfields
  refine ⟨fun l hclock => ?_, fun l hclock => ?_⟩
  · obtain ⟨hreset, hzero, htimeout, hbits, hdivisor⟩ := hfields (.inl rfl)
    have hwrite : l.clock.write ((divisor <<< 8) ||| 0b001) = some (.starting divisor) := by
      simp [hclock, Clock.write, hzero, htimeout, hbits, hdivisor]
    exact step_clock hreset hwrite
  · obtain ⟨hreset, hzero, htimeout, hbits, hdivisor⟩ := hfields (.inr rfl)
    have hwrite : l.clock.write ((divisor <<< 8) ||| 0b101) = some (.running divisor) := by
      simp [hclock, Clock.write, hzero, htimeout, hbits, hdivisor]
    rw [UInt32.or_assoc]
    exact step_clock hreset hwrite

/-- The clock of the card is off, and on again, not faster than asked for. -/
theorem guards_setClock {targetHz : UInt64} {k : Nat} (htarget : targetHz.toNat = 200000 * k) (hk : 2 ≤ k) :
    hostMonitor.Guards (fun l _ => l.Prepared phase size) (setClock h fuel targetHz)
      (fun _ l _ => l.Settled phase targetHz.toNat size) fun _ _ => True := by
  refine Guards.bind (Q := fun _ l _ => l.Clocked phase size .off) (guards_writeHost fun l hl => ?_) fun _ => ?_
  · exact ⟨_, step_clock (by decide) (if_pos ⟨rfl, hl.ready⟩), hl.enabled, rfl, hl.size, hl.phase⟩
  refine guards_baseClockHz.bind fun hz => .of_exists fun mhz => .of_exists fun hmhz => ?_
  obtain ⟨hlt, rfl⟩ := hmhz
  refine (guards_divisorLoop hlt (toNat_base hlt) htarget hk ⟨by decide, by decide⟩).bind fun divisor =>
    .of_exists fun hdivides => ?_
  obtain ⟨hstart, hrun⟩ := hdivides.fields
  refine Guards.bind (Q := fun _ l _ => l.mhz = mhz ∧ l.Clocked phase size (.starting divisor))
    (guards_writeHost fun l hl => ?_) fun _ => ?_
  · obtain ⟨rfl, hl⟩ := hl
    have hstep := hstart l hl.clock
    exact ⟨_, hstep, rfl, hl.enabled, rfl, hl.size, hl.phase⟩
  refine Guards.bind (Q := fun _ l _ => l.mhz = mhz ∧ l.Clocked phase size (.stable divisor))
    (guards_waitWhileHost (fun _ _ => trivial) fun l v hl => ?_) fun _ => ?_
  · obtain ⟨rfl, hl⟩ := hl
    refine ⟨_, rfl, ?_⟩
    split
    · next hv =>
      refine ⟨rfl, hl.enabled, ?_, hl.size, hl.phase⟩
      simp [hl.clock, Clock.read, of_decide_eq_true hv]
    · next hv =>
      refine ⟨rfl, hl.enabled, ?_, hl.size, hl.phase⟩
      simp [hl.clock, Clock.read, show v &&& _ ≠ 0 from fun h0 => hv (decide_eq_true h0)]
  · refine guards_writeHost fun l hl => ?_
    obtain ⟨rfl, hl⟩ := hl
    have hstep := hrun l hl.clock
    exact ⟨_, hstep, hl.enabled, hdivides.le, hl.size, hl.phase⟩

/-! ## The initialization -/

theorem guards_request {index : UInt8} {arg : UInt32} {resp : RespType} {f : UInt32 → Phase}
    (hserve : phase.serve (.decode (commandWord index resp .none) arg) = some f)
    (hdata : (Request.decode (commandWord index resp .none) arg).data = .none) (hhz : hz ≤ phase.limit) :
    hostMonitor.Guards (fun l _ => l.Settled phase hz size) (request h fuel index arg resp)
      (fun r l _ => l.Settled (f r) hz size) fun _ _ => True := by
  refine Guards.bind (Q := fun r l _ => l.Settled (f (r.getD 0 0)) hz size) (guards_lift fun c before => ?_) fun r =>
    .pure fun l b hl => hl
  exact (guards_sendCommand hserve hhz fun hne => absurd hdata hne).mono (fun _ _ hl => hl) (fun _ _ _ hl => hl.1)
    fun _ _ _ => trivial

/-- Whether the card takes numbers of blocks, from the register that tells that it is ready. -/
def ccs (ocr : UInt32) : Bool := ocr &&& ((1 : UInt32) <<< 30) ≠ 0

theorem guards_readyLoop {deadline : UInt64} {rounds : Nat} (hhz : hz ≤ 400000) :
    hostMonitor.Guards (fun l _ => l.Settled .supplied hz size) (readyLoop h fuel deadline rounds)
      (fun ocr l _ => l.Settled (.ready (ccs ocr)) hz size) fun _ _ => True := by
  induction rounds with
  | zero => exact .stuck
  | succ rounds ih =>
      have happlication : Phase.supplied.serve (.decode (commandWord 55 .r1 .none) 0) = some fun _ => .application := rfl
      refine (guards_request happlication rfl hhz).bind fun _ => ?_
      have hready : Phase.application.serve (.decode (commandWord 41 .r1 .none) 0x40FF8000) = some fun r3 =>
          if r3 &&& ((1 : UInt32) <<< 31) = 0 then .supplied else .ready (ccs r3) := rfl
      refine (guards_request hready rfl hhz).bind fun r3 => .ite (fun hbusy => .pure fun l b hl => ?_) fun hbusy => ?_
      · rwa [if_neg hbusy] at hl
      · rw [if_pos (not_not.mp hbusy)]
        exact guards_ticksHost.bind fun n => .ite (fun _ => .throw fun _ _ _ => trivial) fun _ => ih

theorem serve_select (rca : UInt32) (blocks : Bool) :
    (Phase.standby rca blocks).serve ⟨7, 0b10, .none, rca⟩ = some fun _ => .transfer rca blocks :=
  (if_neg (by simp)).trans (if_pos rfl)

theorem guards_init : hostMonitor.Guards (fun _ _ => True) (init h fuel)
    (fun card l _ => l.Settled (.transfer card.rca card.blockAddressed) 25000000 0) fun _ _ => True := by
  refine guards_resetAll.bind fun _ => ?_
  refine Guards.bind (Q := fun _ l _ => l.Prepared .unknown 0) (guards_writeHost fun l hl => ?_) fun _ => ?_
  · subst hl
    exact ⟨_, rfl, ⟨rfl, rfl, rfl, rfl⟩, by simp [Line.unknown]⟩
  refine (guards_setClock (k := 2) rfl (by decide)).bind fun _ => ?_
  have hidle : Phase.unknown.serve (.decode (commandWord 0 .none .none) 0) = some fun _ => .idle := rfl
  refine (guards_request hidle rfl (Nat.le_refl _)).bind fun _ => ?_
  have hsupplied : Phase.idle.serve (.decode (commandWord 8 .r1 .none) 0x1AA) = some fun r7 =>
      if r7 &&& 0xFF = 0xAA then .supplied else .idle := rfl
  refine (guards_request hsupplied rfl (Nat.le_refl _)).bind fun r7 => .ite (fun _ => ?_) fun hecho => ?_
  · exact Guards.bind (Q := fun _ _ _ => False) (.throw fun _ _ _ => trivial) fun _ => .of_not fun _ _ h => h
  rw [if_pos (not_not.mp hecho)]
  refine guards_ticksHost.bind fun n => (guards_readyLoop (Nat.le_refl _)).bind fun ocr => ?_
  have hidentified : (Phase.ready (ccs ocr)).serve (.decode (commandWord 2 .r2 .none) 0) =
      some fun _ => .identified (ccs ocr) := rfl
  refine (guards_request hidentified rfl (Nat.le_refl _)).bind fun _ => ?_
  have hstandby : (Phase.identified (ccs ocr)).serve (.decode (commandWord 3 .r1 .none) 0) =
      some fun r6 => .standby (r6 &&& 0xFFFF0000) (ccs ocr) := rfl
  refine (guards_request hstandby rfl (Nat.le_refl _)).bind fun r6 => ?_
  refine Guards.bind ((guards_setClock (k := 125) rfl (by decide)).mono (fun l _ hl => hl.prepared) (fun _ _ _ hl => hl)
    fun _ _ hl => hl) fun _ => ?_
  have htransfer : (Phase.standby (r6 &&& 0xFFFF0000) (ccs ocr)).serve
      (.decode (commandWord 7 .r1 .none) (r6 &&& 0xFFFF0000)) =
        some fun _ => .transfer (r6 &&& 0xFFFF0000) (ccs ocr) := serve_select _ _
  exact (guards_request htransfer rfl (Nat.le_refl _)).bind fun _ => .pure fun l b hl => hl

/-! ## Runs -/

/-- The calls of the firmware in any order, failed ones included, with the card of the last initialization. After one that
failed there is no card. -/
inductive Run (h : Host) : Option InitializedCard → HostBus → Prop where
  | start (status : UInt32) : Run h none ⟨status, []⟩
  | init {old : Option InitializedCard} {b b' : HostBus} {fuel : Nat} {r : Except SdError InitializedCard}
      (hb : Run h old b) (hrun : (Sd.init h fuel).runs b = some (r, b')) : Run h r.toOption b'
  | readBlock {card : InitializedCard} {b b' : HostBus} {fuel : Nat} {lba : UInt32} {out : Sector}
      {r : Except SdError Sector} (hb : Run h (some card) b)
      (hrun : (lift h fun c => Sd.readBlock c fuel card.toCard lba out).runs b = some (r, b')) : Run h (some card) b'
  | writeBlock {card : InitializedCard} {b b' : HostBus} {fuel : Nat} {lba : UInt32} {block : Sector}
      {r : Except SdError Unit} (hb : Run h (some card) b)
      (hrun : (lift h fun c => Sd.writeBlock c fuel card.toCard lba block).runs b = some (r, b')) : Run h (some card) b'

/-- Where the line is with a card. -/
def Selected (card : Option InitializedCard) (l : Line) : Prop :=
  ∀ k, card = some k → ∃ size, l.Settled (.transfer k.rca k.blockAddressed) 25000000 size

/-- A transfer, failed or not, leaves the card selected. -/
theorem transfer_protocol {x : Controller → Driver α} {card : InitializedCard} {b b' : HostBus} {r : Except SdError α}
    (hx : ∀ size c before, (busMonitor before).Guards
      (fun l _ => l.Settled (.transfer card.rca card.blockAddressed) 25000000 size) (x c)
      (fun _ l _ => l.Settled (.transfer card.rca card.blockAddressed) 25000000 blockSize)
      fun l _ => l.Settled (.transfer card.rca card.blockAddressed) 25000000 blockSize)
    (hb : ∃ l, hostMonitor.run b.trace = some l ∧ Selected (some card) l) (hrun : (lift h x).runs b = some (r, b')) :
    ∃ l, hostMonitor.run b'.trace = some l ∧ Selected (some card) l := by
  obtain ⟨l, hl, hselected⟩ := hb
  obtain ⟨size, hsettled⟩ := hselected card rfl
  have hend : ∃ l', hostMonitor.run b'.trace = some l' ∧
      l'.Settled (.transfer card.rca card.blockAddressed) 25000000 blockSize := by
    have hafter := guards_lift (h := h) (hx size) ⟨l, hl, hsettled⟩ hrun
    cases r with
    | ok a => exact hafter
    | error e => exact hafter
  obtain ⟨l', hl', hsettled'⟩ := hend
  exact ⟨l', hl', fun k hk => by cases hk; exact ⟨_, hsettled'⟩⟩

/-- The index of the command in some accesses. -/
def issued (l : List Access) : Option UInt32 := l.findSome? fun a =>
  match a.op with
  | .write .transferCmd v => some (v >>> 24)
  | _ => none

/-- A card that answers at once, but the request for its voltage only the first time. -/
def answeringOnce : Host where
  controller before := { answering intTransferComplete with
    value := fun l reg =>
      match reg, issued l with
      | .resp0, some 8 => if before.any (fun op => op matches .access ⟨_, .write .arg1 0x1AA⟩) then 0 else 0x1AA
      | .resp0, some 41 => 0xC0FF8000
      | .resp0, some 3 => 0xAAAA0000
      | _, _ => 0 }
  value _
    | .clockTimeoutReset => (1 : UInt32) <<< 1
    | .capabilities => (52 : UInt32) <<< 8
    | .intStatusEnable => 0

-- the card from before an initialization that failed breaks the protocol
example : ((do
      let card ← init answeringOnce 80
      let _ ← (init answeringOnce 80).attempt
      lift answeringOnce fun c => readBlock c 1 card.toCard 5 (.fill 0) : HostDriver Sector).runs ⟨0, []⟩).any
        (fun p => (hostMonitor.run p.2.trace).isNone) = true := by
  decide +kernel

end Ferro.Sd
