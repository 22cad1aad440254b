import Ferro.Base.Arr
import Ferro.Base.Countdown
import Mathlib.Data.Nat.Bitwise

/-!
# The watchdog (`pm.rs`)

`SetWatchdogTimer` and `ResetSystem` write two registers of the power management. The watchdog counts down by itself, and
resets the machine at zero if that is what the other register asks for.
-/

namespace Ferro

namespace Pm

def pmPassword : UInt32 := 0x5A000000

def pmRstcWrcfgFullReset : UInt32 := 0x20

def pmRstcWrcfgMask : UInt32 := 0x30

/-- The countdown in 20 bits, the reset control in 24, and whether the machine has been reset. -/
structure Regs where
  wdog : UInt32
  rstc : UInt32
  reset : Bool
  wdog_lt : wdog.toNat < 2 ^ 20
  rstc_lt : rstc.toNat < 2 ^ 24

/-- The password is in the top byte of what is written; anything else is ignored. -/
def Regs.unlocked (v : UInt32) : Bool := v >>> 24 = pmPassword >>> 24

theorem toNat_mask_lt (v : UInt32) {k : UInt32} {n : Nat} (hk : k.toNat = 2 ^ n - 1) : (v &&& k).toNat < 2 ^ n := by
  rw [UInt32.toNat_and, hk, Nat.and_two_pow_sub_one_eq_mod]
  exact Nat.mod_lt _ (Nat.two_pow_pos n)

def Regs.writeWdog (r : Regs) (v : UInt32) : Regs :=
  if Regs.unlocked v then { r with wdog := v &&& 0xFFFFF, wdog_lt := toNat_mask_lt v rfl } else r

def Regs.writeRstc (r : Regs) (v : UInt32) : Regs :=
  if Regs.unlocked v then { r with rstc := v &&& 0xFFFFFF, rstc_lt := toNat_mask_lt v rfl } else r

/-- `pm::reset`, up to the loop at its end. -/
def reset (r : Regs) : Regs :=
  let r := r.writeWdog (pmPassword ||| 1)
  let rstc := r.rstc
  r.writeRstc (pmPassword ||| (rstc &&& ~~~pmRstcWrcfgMask) ||| pmRstcWrcfgFullReset)

def setWatchdog (timeoutSeconds : UInt64) (r : Regs) : Regs :=
  if timeoutSeconds = 0 then
    let rstc := r.rstc
    r.writeRstc (pmPassword ||| (rstc &&& ~~~pmRstcWrcfgMask))
  else
    let ticks := UInt32.ofNat (min (min (timeoutSeconds.toNat * 1000000) (2 ^ 64 - 1) / 16) 0xFFFFF)
    let r := r.writeWdog (pmPassword ||| ticks)
    let rstc := r.rstc
    r.writeRstc (pmPassword ||| (rstc &&& ~~~pmRstcWrcfgMask) ||| pmRstcWrcfgFullReset)

/-- One period of the watchdog. -/
def tick (r : Regs) : Regs :=
  if h : r.wdog.toNat = 0 then
    r
  else
    { r with
      wdog := UInt32.ofNat (r.wdog.toNat - 1)
      reset := r.reset || decide (r.wdog.toNat = 1) && decide (r.rstc &&& pmRstcWrcfgMask = pmRstcWrcfgFullReset)
      wdog_lt := by
        have := r.wdog_lt
        rw [UInt32.toNat_ofNat']
        omega }

/-- The calls that reach the registers, and the passing of time. After a reset nothing of it matters. -/
inductive Event where
  | setWatchdogTimer (timeout : UInt64)
  | resetSystem
  | tick
  deriving DecidableEq

def step (r : Regs) (e : Event) : Regs :=
  if r.reset then
    r
  else
    match e with
    | .setWatchdogTimer timeout => setWatchdog timeout r
    | .resetSystem => Pm.reset r
    | .tick => Pm.tick r

def run (r : Regs) (es : List Event) : Regs := es.foldl step r

/-! ## The registers -/

/-- The ticks of a call: 62500 for each second, up to what 20 bits hold. -/
def Event.countdown : Event → Countdown.Event
  | .setWatchdogTimer timeout => .set (min (timeout.toNat * 62500) 0xFFFFF)
  | .resetSystem => .set 1
  | .tick => .tick

/-- The registers count down like this. -/
def Follows (r : Regs) : Countdown → Prop
  | .fired => r.reset = true
  | .running n => r.reset = false ∧ r.wdog.toNat = n + 1 ∧ r.rstc &&& pmRstcWrcfgMask = pmRstcWrcfgFullReset
  | .off => r.reset = false ∧ (r.wdog.toNat = 0 ∨ r.rstc &&& pmRstcWrcfgMask ≠ pmRstcWrcfgFullReset)

variable {r : Regs}

theorem wdog_eq {n : Nat} (hn : n < 2 ^ 20) : Regs.unlocked (pmPassword ||| UInt32.ofNat n) = true ∧
    ((pmPassword ||| UInt32.ofNat n) &&& 0xFFFFF).toNat = n := by
  have hsum : (pmPassword ||| UInt32.ofNat n).toNat = 2 ^ 24 * 0x5A + n := by
    have hpass : pmPassword.toNat = 2 ^ 24 * 0x5A := rfl
    rw [UInt32.toNat_or, hpass, UInt32.toNat_ofNat', Nat.mod_eq_of_lt (by omega),
      ← Nat.two_pow_add_eq_or_of_lt (by omega)]
  have hmask : (0xFFFFF : UInt32).toNat = 2 ^ 20 - 1 := rfl
  have htop : (pmPassword >>> 24).toNat = 0x5A := rfl
  have hshift : (24 : UInt32).toNat % 32 = 24 := rfl
  constructor
  · refine decide_eq_true (UInt32.toNat_inj.mp ?_)
    rw [UInt32.toNat_shiftRight, hsum, htop, hshift, Nat.shiftRight_eq_div_pow]
    omega
  · rw [UInt32.toNat_and, hsum, hmask, Nat.and_two_pow_sub_one_eq_mod]
    omega

/-- The other bits of the reset control are written back, so that the password stays in front of them. -/
theorem unlocked_rstc (r : Regs) {k : UInt32} (hk : k.toNat < 2 ^ 24) :
    Regs.unlocked (pmPassword ||| (r.rstc &&& ~~~pmRstcWrcfgMask) ||| k) = true := by
  have hlow : ((r.rstc &&& ~~~pmRstcWrcfgMask) ||| k).toNat < 2 ^ 24 := by
    rw [UInt32.toNat_or, UInt32.toNat_and]
    exact Nat.or_lt_two_pow (Nat.lt_of_le_of_lt Nat.and_le_left r.rstc_lt) hk
  have hpass : pmPassword.toNat = 2 ^ 24 * 0x5A := rfl
  have htop : (pmPassword >>> 24).toNat = 0x5A := rfl
  have hshift : (24 : UInt32).toNat % 32 = 24 := rfl
  refine decide_eq_true (UInt32.toNat_inj.mp ?_)
  rw [UInt32.or_assoc, UInt32.toNat_shiftRight, htop, hshift, UInt32.toNat_or, hpass,
    ← Nat.two_pow_add_eq_or_of_lt hlow, Nat.shiftRight_eq_div_pow]
  omega

theorem or_and (a b c : UInt32) : (a ||| b) &&& c = a &&& c ||| b &&& c := by
  refine UInt32.toNat_inj.mp ?_
  simp only [UInt32.toNat_and, UInt32.toNat_or, Nat.and_or_distrib_right]

/-- What a write leaves in the two bits that say what happens at zero. -/
theorem wrcfg_eq (rstc k : UInt32) :
    ((pmPassword ||| (rstc &&& ~~~pmRstcWrcfgMask) ||| k) &&& 0xFFFFFF) &&& pmRstcWrcfgMask = k &&& pmRstcWrcfgMask := by
  have hmask : (0xFFFFFF : UInt32) &&& pmRstcWrcfgMask = pmRstcWrcfgMask := rfl
  have hnot : ~~~pmRstcWrcfgMask &&& pmRstcWrcfgMask = 0 := rfl
  have hpass : pmPassword &&& pmRstcWrcfgMask = 0 := rfl
  rw [UInt32.and_assoc, hmask, or_and, or_and, UInt32.and_assoc rstc, hnot, hpass, UInt32.and_zero, UInt32.or_zero,
    UInt32.zero_or]

theorem Regs.writeRstc_eq (r : Regs) {v : UInt32} (hv : unlocked v = true) :
    (r.writeRstc v).reset = r.reset ∧ (r.writeRstc v).rstc = v &&& 0xFFFFFF := by
  rw [writeRstc, if_pos hv]
  exact ⟨rfl, rfl⟩

/-- The registers after a call that arms the watchdog. -/
theorem armed (r : Regs) {n : Nat} (hn : n < 2 ^ 20) :
    let r' := (r.writeWdog (pmPassword ||| UInt32.ofNat n)).writeRstc
      (pmPassword ||| ((r.writeWdog (pmPassword ||| UInt32.ofNat n)).rstc &&& ~~~pmRstcWrcfgMask) |||
        pmRstcWrcfgFullReset)
    r'.reset = r.reset ∧ r'.wdog.toNat = n ∧ r'.rstc &&& pmRstcWrcfgMask = pmRstcWrcfgFullReset := by
  intro r'
  obtain ⟨hunlocked, hwdog⟩ := wdog_eq hn
  have hr : r' = (r.writeWdog (pmPassword ||| UInt32.ofNat n)).writeRstc
    (pmPassword ||| ((r.writeWdog (pmPassword ||| UInt32.ofNat n)).rstc &&& ~~~pmRstcWrcfgMask) |||
      pmRstcWrcfgFullReset) := rfl
  rw [hr, Regs.writeRstc, if_pos (unlocked_rstc _ (by decide)), Regs.writeWdog, if_pos hunlocked]
  exact ⟨rfl, hwdog, wrcfg_eq _ _⟩

/-- A call sets the countdown, or switches it off. -/
theorem follows_set (h : r.reset = false) (n : Nat) (hn : n < 2 ^ 20) (c : Countdown) (hc : c ≠ .fired) {r' : Regs}
    (hreset : r'.reset = r.reset) (hoff : n = 0 → r'.rstc &&& pmRstcWrcfgMask ≠ pmRstcWrcfgFullReset)
    (hon : n ≠ 0 → r'.wdog.toNat = n ∧ r'.rstc &&& pmRstcWrcfgMask = pmRstcWrcfgFullReset) :
    Follows r' (c.step (.set n)) := by
  have hreset' : r'.reset = false := hreset.trans h
  cases n with
  | zero => cases c <;> first | exact ⟨hreset', .inr (hoff rfl)⟩ | exact absurd rfl hc
  | succ n => cases c <;> first | exact ⟨hreset', hon (Nat.succ_ne_zero n)⟩ | exact absurd rfl hc

theorem setWatchdog_zero (r : Regs) :
    setWatchdog 0 r = r.writeRstc (pmPassword ||| (r.rstc &&& ~~~pmRstcWrcfgMask)) :=
  rfl

theorem follows_timer (h : r.reset = false) (c : Countdown) (hc : c ≠ .fired) (timeout : UInt64) :
    Follows (setWatchdog timeout r) (c.step (Event.setWatchdogTimer timeout).countdown) := by
  by_cases hzero : timeout = 0
  · subst hzero
    have hunlocked := unlocked_rstc r (k := 0) (by decide)
    rw [UInt32.or_zero] at hunlocked
    obtain ⟨hreset, hrstc⟩ := r.writeRstc_eq hunlocked
    have hcount : (Event.setWatchdogTimer 0).countdown = .set 0 := by simp [Event.countdown]
    rw [setWatchdog_zero, hcount]
    refine follows_set h 0 (by decide) c hc hreset (fun _ => ?_) fun hne => absurd rfl hne
    have hbits := wrcfg_eq r.rstc 0
    rw [UInt32.or_zero] at hbits
    rw [hrstc, hbits]
    decide
  · have hpos : timeout.toNat ≠ 0 := fun h0 => hzero (UInt64.toNat_inj.mp h0)
    have hticks : min (min (timeout.toNat * 1000000) (2 ^ 64 - 1) / 16) 0xFFFFF = min (timeout.toNat * 62500) 0xFFFFF := by
      omega
    have hlt : min (timeout.toNat * 62500) 0xFFFFF < 2 ^ 20 := by omega
    obtain ⟨hreset, hwdog, hrstc⟩ := armed r hlt
    rw [setWatchdog, if_neg hzero]
    simp only [hticks]
    exact follows_set h _ hlt c hc hreset (fun h0 => by omega) fun _ => ⟨hwdog, hrstc⟩

theorem follows_reset (h : r.reset = false) (c : Countdown) (hc : c ≠ .fired) :
    Follows (Pm.reset r) (c.step Event.resetSystem.countdown) := by
  obtain ⟨hreset, hwdog, hrstc⟩ := armed r (n := 1) (by decide)
  exact follows_set h 1 (by decide) c hc hreset (fun h0 => by omega) fun _ => ⟨hwdog, hrstc⟩

theorem follows_tick {c : Countdown} (h : Follows r c) (hc : c ≠ .fired) : Follows (tick r) (c.step .tick) := by
  have hlt := r.wdog_lt
  have hdown : r.wdog.toNat ≠ 0 → (tick r).wdog.toNat = r.wdog.toNat - 1 ∧ (tick r).rstc = r.rstc ∧
      (tick r).reset = (r.reset || decide (r.wdog.toNat = 1) &&
        decide (r.rstc &&& pmRstcWrcfgMask = pmRstcWrcfgFullReset)) := by
    intro hne
    rw [tick, dif_neg hne]
    refine ⟨?_, rfl, rfl⟩
    rw [UInt32.toNat_ofNat']
    omega
  cases c with
  | fired => exact absurd rfl hc
  | off =>
      obtain ⟨hreset, hzero | hrstc⟩ := h
      · have hsame : tick r = r := by rw [tick, dif_pos hzero]
        rw [hsame]
        exact ⟨hreset, .inl hzero⟩
      · by_cases hne : r.wdog.toNat = 0
        · have hsame : tick r = r := by rw [tick, dif_pos hne]
          rw [hsame]
          exact ⟨hreset, .inl hne⟩
        · obtain ⟨-, hsame, htick⟩ := hdown hne
          refine ⟨?_, .inr (by rw [hsame]; exact hrstc)⟩
          rw [htick, hreset, decide_eq_false hrstc, Bool.and_false, Bool.or_false]
  | running n =>
      obtain ⟨hreset, hwdog, hrstc⟩ := h
      obtain ⟨hless, hsame, htick⟩ := hdown (by omega)
      cases n with
      | zero =>
          show (tick r).reset = true
          rw [htick, decide_eq_true hwdog, decide_eq_true hrstc, Bool.and_self, Bool.or_true]
      | succ n =>
          refine ⟨?_, by omega, by rw [hsame]; exact hrstc⟩
          rw [htick, hreset, decide_eq_false (by omega), Bool.false_and, Bool.or_false]

theorem follows_step {c : Countdown} (h : Follows r c) (e : Event) : Follows (step r e) (c.step e.countdown) := by
  by_cases hc : c = .fired
  · subst hc
    have hreset : r.reset = true := h
    have hstay : step r e = r := by simp only [step, hreset, if_true]
    rw [hstay]
    cases e <;> exact hreset
  · have hreset : r.reset = false := by
      cases c with
      | fired => exact absurd rfl hc
      | off => exact h.1
      | running n => exact h.1
    cases e with
    | setWatchdogTimer timeout =>
        have hstep : step r (.setWatchdogTimer timeout) = setWatchdog timeout r := by simp [step, hreset]
        rw [hstep]
        exact follows_timer hreset c hc timeout
    | resetSystem =>
        have hstep : step r .resetSystem = Pm.reset r := by simp [step, hreset]
        rw [hstep]
        exact follows_reset hreset c hc
    | tick =>
        have hstep : step r .tick = Pm.tick r := by simp [step, hreset]
        rw [hstep]
        exact follows_tick h hc

theorem follows_run {c : Countdown} (h : Follows r c) (es : List Event) :
    Follows (run r es) (c.run (es.map Event.countdown)) := by
  induction es generalizing r c with
  | nil => exact h
  | cons e es ih => exact ih (follows_step h e)

theorem follows_fired {c : Countdown} (h : Follows r c) : r.reset = true ↔ c = .fired := by
  cases c with
  | fired => exact iff_of_true h rfl
  | off => exact iff_of_false (by rw [h.1]; exact Bool.false_ne_true) nofun
  | running n => exact iff_of_false (by rw [h.1]; exact Bool.false_ne_true) nofun

/-- With a watchdog that is not armed at first, the machine is reset iff a call that asks for it is followed by its ticks
before another call: 62500 for each second, but never more than 1048575. -/
theorem reset_iff (hreset : r.reset = false) (hoff : r.rstc &&& pmRstcWrcfgMask ≠ pmRstcWrcfgFullReset)
    (es : List Event) : (run r es).reset = true ↔
      ∃ pre e post n, es = pre ++ e :: (List.replicate n .tick ++ post) ∧ n ≠ 0 ∧
        ((∃ timeout : UInt64, e = .setWatchdogTimer timeout ∧ n = min (timeout.toNat * 62500) 1048575) ∨
          e = .resetSystem ∧ n = 1) := by
  have hfollows : Follows r .off := ⟨hreset, .inr hoff⟩
  rw [follows_fired (follows_run hfollows es), Countdown.off_fires_iff]
  constructor
  · rintro ⟨pre, n, post, hes⟩
    obtain ⟨pre', rest, rfl, -, hrest⟩ := List.map_eq_append_iff.mp hes
    obtain ⟨e, rest', rfl, hset, hrest'⟩ := List.map_eq_cons_iff.mp hrest
    obtain ⟨ticks, post', rfl, hticks, -⟩ := List.map_eq_append_iff.mp hrest'
    have htick (x : Event) (hx : x.countdown = .tick) : x = .tick := by
      cases x <;> first | rfl | cases hx
    have hall : ticks = List.replicate (n + 1) .tick := by
      refine List.eq_replicate_iff.mpr ⟨by simpa using congrArg List.length hticks, fun x hx => htick x ?_⟩
      exact List.eq_of_mem_replicate (hticks ▸ List.mem_map_of_mem hx)
    refine ⟨pre', e, post', n + 1, by rw [hall], Nat.succ_ne_zero n, ?_⟩
    cases e with
    | setWatchdogTimer timeout => exact .inl ⟨timeout, rfl, (Countdown.Event.set.inj hset).symm⟩
    | resetSystem => exact .inr ⟨rfl, (Countdown.Event.set.inj hset).symm⟩
    | tick => cases hset
  · rintro ⟨pre, e, post, n, rfl, hn, he⟩
    obtain ⟨n, rfl⟩ : ∃ k, n = k + 1 := ⟨n - 1, by omega⟩
    have hset : e.countdown = .set (n + 1) := by
      rcases he with ⟨timeout, rfl, hmin⟩ | ⟨rfl, hone⟩
      · rw [Event.countdown, hmin]
      · rw [Event.countdown, hone]
    refine ⟨pre.map Event.countdown, n, post.map Event.countdown, ?_⟩
    simp only [List.map_append, List.map_cons, List.map_replicate, hset]
    rfl

/-- A timeout of five minutes, switched off after 20 seconds: the machine has been reset by then. -/
theorem reset_iff_five_minutes :
    (run ⟨0, 0x102, false, by decide, by decide⟩
      (.setWatchdogTimer 300 :: (List.replicate 1048575 .tick ++
        (List.replicate 201425 .tick ++ [.setWatchdogTimer 0])))).reset = true :=
  (reset_iff rfl (by decide) _).mpr ⟨[], _, _, _, rfl, by decide, .inl ⟨300, rfl, by decide⟩⟩

end Pm

end Ferro
