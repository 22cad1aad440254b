import Ferro.Boot.Signals
import Ferro.Boot.Ticks

/-!
# Timers

`SetTimer` accepts every live event, but only a timer is reported when its time has come. Whatever the calls of a run, a
timer is not reported before that, and not again before its period has passed.
-/

namespace Ferro

def timerRelative : UInt32 := 2

open Events

namespace Boot

variable {image : Image} {s s₁ s₂ : Boot} {e n t : UInt64} {i : Fin maxEvents} {log pre mid post : List Made}
  {r : Reading} {x y : Made} {clock : Clock} {timerType : UInt32} {ticks period : UInt64} {tick : Nat}

/-! ## Armed timers fire -/

/-- The slot of an event after `SetTimer` armed it. -/
def armed (slot : EventSlot) (n ticks : UInt64) (timerType : UInt32) : EventSlot :=
  { slot with
    timerDeadline := n + ticks
    timerPeriod := if timerType = timerPeriodic then max ticks 1 else 0 }

theorem setTimer_success (h : s.step image (.setTimer clock n e timerType t) = some (.just .success, s₁)) :
    ∃ i, eventToIndex e = some i ∧ (s.events.get i).inUse = true ∧
      ((timerType = timerCancel ∧
          s₁.events.get i = { s.events.get i with timerPeriod := 0, timerDeadline := 0 }) ∨
        (timerType ≠ timerCancel ∧ ∃ ticks, microsToTicks clock (t / 10) = some ticks ∧
          s₁.events.get i = armed (s.events.get i) n ticks timerType)) := by
  obtain ⟨⟨st, events⟩, hset, h⟩ := Option.map_eq_some_iff.mp h
  cases h
  unfold Events.setTimer at hset
  split at hset
  · cases hset
  · rename_i i hi
    dsimp only at hset
    split at hset
    · cases hset
    · rename_i huse
      rw [Bool.not_eq_true', Bool.not_eq_false] at huse
      refine ⟨i, hi, huse, ?_⟩
      split at hset
      · rename_i hcancel
        cases hset
        exact .inl ⟨hcancel, Arr.get_set_self _ _ _⟩
      · rename_i harm
        obtain ⟨ticks, hticks, hset⟩ := Option.map_eq_some_iff.mp hset
        cases hset
        exact .inr ⟨harm, ticks, hticks, Arr.get_set_self _ _ _⟩

theorem checkEvent_success_live (hi : eventToIndex e = some i) (huse : (s.events.get i).inUse = true) :
    (s.checkEvent r e).1 = .just .success ↔ (s.events.get i).ready r = true := by
  rw [checkEvent_success_iff]
  constructor
  · rintro ⟨j, hj, _, hr⟩
    cases hi.symm.trans hj
    exact hr
  · intro hr
    exact ⟨i, hi, huse, hr⟩

theorem setTimer_armed (h : s.step image (.setTimer clock n e timerType t) = some (.just .success, s₁))
    (htype : timerType = timerPeriodic ∨ timerType = timerRelative) (hi : eventToIndex e = some i)
    (hticks : microsToTicks clock (t / 10) = some ticks) :
    (s.events.get i).inUse = true ∧ s₁.events.get i = armed (s.events.get i) n ticks timerType := by
  obtain ⟨j, hj, huse, ⟨hcancel, _⟩ | ⟨_, ticks', hticks', hslot⟩⟩ := setTimer_success h
  · rcases htype with rfl | rfl <;> exact absurd hcancel (by decide)
  · cases hi.symm.trans hj
    cases hticks.symm.trans hticks'
    exact ⟨huse, hslot⟩

/-- An armed slot when its time has come: a timer is ready, and the other kinds are as ready as they were. -/
theorem ready_armed_iff {slot : EventSlot} (hn : 1 ≤ n.toNat) (hle : n.toNat + ticks.toNat ≤ r.ticks.toNat) :
    (armed slot n ticks timerType).ready r = true ↔
      slot.kind = .timer ∨ (slot.kind = .generic ∧ slot.signaled = true) ∨ slot.kind = .consoleIn ∧ r.key = true := by
  have hkind : (armed slot n ticks timerType).kind = slot.kind := rfl
  have hlt := r.ticks.toNat_lt
  have hsum : (n + ticks).toNat = n.toNat + ticks.toNat := by rw [UInt64.toNat_add, Nat.mod_eq_of_lt (by omega)]
  cases hk : slot.kind with
  | timer =>
      refine iff_of_true ((EventSlot.ready_timer (hkind.trans hk)).mpr ⟨.inl fun h0 => ?_, ?_⟩) (.inl rfl)
      · have h0 : (n + ticks).toNat = 0 := congrArg UInt64.toNat h0
        omega
      · rw [UInt64.le_iff_toNat_le]
        exact hsum.trans_le hle
  | generic => simp [EventSlot.ready, armed, hk]
  | consoleIn => simp [EventSlot.ready, armed, hk]

/-- `SetTimer` armed the event at tick `n ≥ 1`. From its time on, every `CheckEvent` before another call about the event
succeeds if and only if the event is a timer, or a generic one that is already signaled, or the time never comes. -/
theorem timer_fires_iff (h : s.step image (.setTimer clock n e timerType t) = some (.just .success, s₁))
    (htype : timerType = timerPeriodic ∨ timerType = timerRelative) (hn : 1 ≤ n) (hi : eventToIndex e = some i)
    (hticks : microsToTicks clock (t / 10) = some ticks) :
    (∀ log s₂ r, Run image s₁ log s₂ → (∀ x ∈ log, ¬ x.call.OnEvent e) → n.toNat + ticks.toNat ≤ r.ticks.toNat →
      (s₂.checkEvent r e).1 = .just .success) ↔
    (s.events.get i).kind = .timer ∨ ((s.events.get i).kind = .generic ∧ (s.events.get i).signaled = true) ∨
      2 ^ 64 ≤ n.toNat + ticks.toNat := by
  obtain ⟨huse, hslot⟩ := setTimer_armed h htype hi hticks
  have huse₁ : (s₁.events.get i).inUse = true := by rw [hslot]; exact huse
  have hpos : 1 ≤ n.toNat := UInt64.le_iff_toNat_le.mp hn
  constructor
  · intro hfires
    by_contra hno
    simp only [not_or, Nat.not_le] at hno
    obtain ⟨hkind, hunsignaled, hlt⟩ := hno
    -- a check at the very tick, with no key pressed
    have htick : (UInt64.ofNat (n.toNat + ticks.toNat)).toNat = n.toNat + ticks.toNat := by
      rw [UInt64.toNat_ofNat', Nat.mod_eq_of_lt hlt]
    have hready := (checkEvent_success_live hi huse₁).mp
      (hfires [] s₁ ⟨.ofNat (n.toNat + ticks.toNat), false⟩ rfl (by simp) htick.ge)
    rw [hslot, ready_armed_iff hpos htick.ge] at hready
    rcases hready with hk | hgeneric | ⟨_, hkey⟩
    · exact hkind hk
    · exact hunsignaled hgeneric
    · cases hkey
  · intro hcase log s₂ r hlog hno hle
    have he : e = indexToEvent i := eventToIndex_eq_some.mp hi
    have hslot₂ : s₂.events.get i = armed (s.events.get i) n ticks timerType := by
      rw [hlog.others (he ▸ hno) huse₁, hslot]
    have huse₂ : (s₂.events.get i).inUse = true := by rw [hslot₂]; exact huse
    rw [checkEvent_success_live hi huse₂, hslot₂, ready_armed_iff hpos hle]
    rcases hcase with hk | hgeneric | hover
    · exact .inl hk
    · exact .inr (.inl hgeneric)
    · have hlt := r.ticks.toNat_lt
      omega

theorem microsToTicks_clock100Hz : microsToTicks clock100Hz (100000 / 10) = some 1 := by decide

theorem setTimer_withEvent (kind : Kind) : ∃ s₁, (withEvent kind false).step Memory.onePage
    (.setTimer clock100Hz 1 1 timerRelative 100000) = some (.just .success, s₁) ∧
      s₁.events.get ⟨0, by decide⟩ = armed { emptySlot with inUse := true, kind } 1 1 timerRelative := by
  have hi : eventToIndex 1 = some ⟨0, by decide⟩ := rfl
  have hslot : (withEvent kind false).events.get ⟨0, by decide⟩ = { emptySlot with inUse := true, kind } :=
    Arr.get_set_self _ _ _
  simp only [step, Boot.setTimer, Events.setTimer, hi, hslot, microsToTicks_clock100Hz]
  exact ⟨_, rfl, Arr.get_set_self _ _ _⟩

/-- A one-shot timer of one tick, set at tick 1 and checked at tick 2. -/
theorem timer_fires_bare : ∃ s₁, (withEvent .timer false).step Memory.onePage
    (.setTimer clock100Hz 1 1 timerRelative 100000) = some (.just .success, s₁) ∧
      (s₁.checkEvent ⟨2, false⟩ 1).1 = .just .success := by
  obtain ⟨s₁, hset, _⟩ := setTimer_withEvent .timer
  have hfires := (timer_fires_iff hset (.inr rfl) (by decide) rfl microsToTicks_clock100Hz).mpr (.inl rfl)
  exact ⟨s₁, hset, hfires [] s₁ ⟨2, false⟩ rfl (by simp) (by decide)⟩

/-- `SetTimer` returns success for an event that is not a timer, and no `CheckEvent` ever reports it. -/
theorem timer_generic_lost : ∃ s₁,
    Run Memory.onePage bare [⟨bare, .createEvent 0 none 0 true, .word .success (some 1), withEvent .generic false⟩,
      ⟨withEvent .generic false, .setTimer clock100Hz 1 1 timerRelative 100000, .just .success, s₁⟩] s₁ ∧
    ∀ r, (s₁.checkEvent r 1).1 = .just .notReady := by
  obtain ⟨s₁, hset, hslot⟩ := setTimer_withEvent .generic
  have hi : eventToIndex 1 = some ⟨0, by decide⟩ := rfl
  refine ⟨s₁, ⟨rfl, rfl, rfl, hset, rfl⟩, fun r => ?_⟩
  have hready : (s₁.events.get ⟨0, by decide⟩).ready r = false := by rw [hslot]; rfl
  rw [checkEvent, check_eq hi (by rw [hslot]; rfl), hready]
  rfl

/-! ## Timers are not reported early

A call is seen from one slot: it arms it, resets it (which arming is a case of), reports its event, or none of them. -/

/-- `SetTimer` for the event in the slot, at tick `n`, with a time of `ticks` ticks. The period of a one-shot is 0. -/
def Made.Arms (x : Made) (i : Fin maxEvents) (n ticks period : UInt64) : Prop :=
  ∃ clock timerType t, x.call = .setTimer clock n (indexToEvent i) timerType t ∧ x.reply = .just .success ∧
    timerType ≠ timerCancel ∧ microsToTicks clock (t / 10) = some ticks ∧
    period = if timerType = timerPeriodic then max ticks 1 else 0

/-- `SetTimer` of any type, or `CloseEvent`, for the event in the slot. -/
def Made.Resets (x : Made) (i : Fin maxEvents) : Prop :=
  x.reply = .just .success ∧
    ((∃ clock n timerType t, x.call = .setTimer clock n (indexToEvent i) timerType t) ∨
      x.call = .closeEvent (indexToEvent i))

/-- `CheckEvent` or `WaitForEvent` reports the event in the slot with the reading `r`, for a wait the last it made. -/
def Made.Reports (x : Made) (i : Fin maxEvents) (r : Reading) : Prop :=
  (x.call = .checkEvent r (indexToEvent i) ∧ x.reply = .just .success) ∨
    ∃ before after n ptr index idx, x.call = .waitForEvent (before ++ r :: after) n (some ptr) index ∧
      x.before.waitForEvent before n (some ptr) index = none ∧
      x.before.waitForEvent (before ++ [r]) n (some ptr) index = some (x.reply, x.after) ∧
      x.reply = .word .success (some (.ofNat idx)) ∧ idx < n.toNat ∧ ptr idx = indexToEvent i

/-- The firmware's sums of the tick counter and a number of ticks do not overflow. A report makes one only for a timer. -/
structure Made.NoOverflow (x : Made) : Prop where
  arms (i : Fin maxEvents) (n ticks period : UInt64) : x.Arms i n ticks period → n.toNat + ticks.toNat < 2 ^ 64
  reports (i : Fin maxEvents) (r : Reading) : x.Reports i r → (x.before.events.get i).kind = .timer →
    r.ticks.toNat + (x.before.events.get i).timerPeriod.toNat < 2 ^ 64

/-- After these calls the timer in the slot can be reported at `tick`. The last call that reset it armed it, its time has
passed, and since then a one-shot was not reported, and a periodic timer not within its period. -/
def DueAt (log : List Made) (i : Fin maxEvents) (period : UInt64) (tick : Nat) : Prop :=
  ∃ pre arm mid n ticks, log = pre ++ arm :: mid ∧ arm.Arms i n ticks period ∧ (∀ y ∈ mid, ¬ y.Resets i) ∧
    n.toNat + ticks.toNat ≤ tick ∧
    ∀ y ∈ mid, ∀ r, y.Reports i r → period ≠ 0 ∧ r.ticks.toNat + period.toNat ≤ tick

theorem indexToEvent_inj {i j : Fin maxEvents} (h : indexToEvent i = indexToEvent j) : i = j := by
  have hi := eventToIndex_indexToEvent i
  rw [h, eventToIndex_indexToEvent] at hi
  exact (Option.some.inj hi).symm

theorem reports_slot (hx : x.before.step image x.call = some (x.reply, x.after)) (h : x.Reports i r) :
    (x.before.events.get i).ready r = true ∧ x.after.events.get i = (x.before.events.get i).reported r := by
  rcases h with ⟨hcall, hreply⟩ | ⟨before, after, n, ptr, index, idx, _, hnone, hlast, hreply, hlt, hidx⟩
  · rw [hcall, hreply] at hx
    have hi := eventToIndex_indexToEvent i
    obtain ⟨j, hj, huse, hr⟩ := checkEvent_success_iff.mp (congrArg Prod.fst (Option.some.inj hx))
    cases hi.symm.trans hj
    have hafter : x.after = (x.before.checkEvent r (indexToEvent i)).2 := total_eq hx
    rw [hafter, checkEvent_ready hi huse hr]
    exact ⟨hr, Arr.get_set_self _ _ _⟩
  · rw [hreply] at hlast
    obtain ⟨idx', j, hout, hlt', hn, hj, hr, hafter⟩ := waitForEvent_last hnone hlast
    have hsame : idx = idx' := by
      have hout := congrArg UInt64.toNat (Option.some.inj hout)
      rw [UInt64.toNat_ofNat', UInt64.toNat_ofNat'] at hout
      omega
    subst hsame
    cases indexToEvent_inj (hidx.symm.trans hj)
    rw [hafter]
    exact ⟨hr, Arr.get_set_self _ _ _⟩

theorem not_armed_emptySlot {kind : Kind} {fn : Option UInt64} {ctx : UInt64} {inUse : Bool} :
    ¬ ({ emptySlot with inUse, kind, notifyFn := fn, notifyCtx := ctx } : EventSlot).Armed := by
  simp [EventSlot.Armed, emptySlot]

/-- A reset leaves the timer disarmed, or armed by this call. -/
theorem resets_slot (hx : x.before.step image x.call = some (x.reply, x.after)) (h : x.Resets i) :
    ¬ (x.after.events.get i).Armed ∨ ∃ n ticks period, x.Arms i n ticks period ∧
      (x.after.events.get i).timerDeadline = n + ticks ∧ (x.after.events.get i).timerPeriod = period := by
  have hi := eventToIndex_indexToEvent i
  obtain ⟨hreply, ⟨clock, n, timerType, t, hcall⟩ | hcall⟩ := h
  · rw [hcall, hreply] at hx
    obtain ⟨j, hj, huse, ⟨_, hslot⟩ | ⟨harm, ticks, hticks, hslot⟩⟩ := setTimer_success hx
    · cases hi.symm.trans hj
      rw [hslot]
      exact .inl (by simp [EventSlot.Armed])
    · cases hi.symm.trans hj
      rw [hslot]
      exact .inr ⟨n, ticks, _, ⟨clock, timerType, t, hcall, hreply, harm, hticks, rfl⟩, rfl, rfl⟩
  · rw [hcall, hreply] at hx
    have hst := congrArg Prod.fst (Option.some.inj hx)
    rw [total_eq hx]
    cases huse : (x.before.events.get i).inUse with
    | false => simp [closeEvent, close, hi, huse] at hst
    | true =>
        simp only [closeEvent, close, hi, huse, if_true, Arr.get_set_self]
        exact .inl (by simp [EventSlot.Armed, emptySlot])

theorem create_timer (tbl : Table) (kind : Kind) (fn : Option UInt64) (ctx : UInt64) :
    ¬ ((create tbl kind fn ctx).2.get i).Armed ∨ (create tbl kind fn ctx).2.get i = tbl.get i := by
  unfold create
  split
  · rename_i j _
    by_cases hj : i = j
    · subst hj
      dsimp only
      rw [Arr.get_set_self]
      exact .inl not_armed_emptySlot
    · exact .inr (Arr.get_set_of_ne _ _ hj)
  · exact .inr rfl

theorem createEvent_timer (eventType : UInt32) (fn : Option UInt64) (ctx : UInt64) (event : OutPtr) :
    ¬ ((s.createEvent eventType fn ctx event).2.events.get i).Armed ∨
      (s.createEvent eventType fn ctx event).2.events.get i = s.events.get i := by
  unfold createEvent
  split
  · exact .inr rfl
  · dsimp only
    have htimer := create_timer (i := i) s.events (if eventType &&& evtTimer ≠ 0 then .timer else .generic) fn ctx
    split
    · rename_i hcreate
      rwa [hcreate] at htimer
    · rename_i hcreate
      rwa [hcreate] at htimer

/-- The two slots have one kind, and one timer. -/
structure SameTimer (slot slot' : EventSlot) : Prop where
  kind : slot'.kind = slot.kind
  deadline : slot'.timerDeadline = slot.timerDeadline
  period : slot'.timerPeriod = slot.timerPeriod

theorem SameTimer.of_eq {slot slot' : EventSlot} (h : slot' = slot) : SameTimer slot slot' := by
  subst h
  exact ⟨rfl, rfl, rfl⟩

theorem signal_timer (tbl : Table) (e : UInt64) : SameTimer (tbl.get i) ((signal tbl e).2.get i) := by
  unfold signal
  split
  · exact .of_eq rfl
  · rename_i j _
    split
    · by_cases hj : i = j
      · subst hj
        dsimp only
        rw [Arr.get_set_self]
        exact ⟨rfl, rfl, rfl⟩
      · exact .of_eq (Arr.get_set_of_ne _ _ hj)
    · exact .of_eq rfl

/-- A call that neither resets nor reports leaves the timer, unless it makes a new event. -/
theorem keeps_timer (hx : x.before.step image x.call = some (x.reply, x.after)) (hno : ¬ x.Resets i)
    (hno' : ∀ r, ¬ x.Reports i r) : ¬ (x.after.events.get i).Armed ∨
      SameTimer (x.before.events.get i) (x.after.events.get i) := by
  have hother (ht : x.call.touches ≠ .events) : SameTimer (x.before.events.get i) (x.after.events.get i) :=
    .of_eq (by rw [(step_touches hx).frame.events ht])
  cases hcall : x.call with
  | createEvent eventType fn ctx event =>
      rw [hcall] at hx
      rw [total_eq hx]
      exact (createEvent_timer eventType fn ctx event).imp_right .of_eq
  | createEventEx eventType fn ctx event =>
      rw [hcall] at hx
      rw [total_eq hx]
      exact (createEvent_timer eventType fn ctx event).imp_right .of_eq
  | setTimer clock n event timerType t =>
      rw [hcall] at hx
      obtain ⟨⟨st, t'⟩, hset, h⟩ := Option.map_eq_some_iff.mp hx
      obtain ⟨hreply, hafter⟩ := Prod.mk.inj h
      rcases setTimer_same hset i with hsame | ⟨rfl, rfl⟩
      · exact .inr (.of_eq (by rw [← hafter]; exact hsame))
      · exact absurd ⟨hreply.symm, .inl ⟨clock, n, timerType, t, hcall⟩⟩ hno
  | closeEvent event =>
      rw [hcall] at hx
      have hreply : Reply.just (close x.before.events event).1 = x.reply := congrArg Prod.fst (Option.some.inj hx)
      rcases close_same x.before.events event i with hsame | ⟨hst, rfl⟩
      · rw [total_eq hx]
        exact .inr (.of_eq hsame)
      · exact absurd ⟨by rw [← hreply, hst], .inr hcall⟩ hno
  | checkEvent r event =>
      rw [hcall] at hx
      have hreply : Reply.just (check r x.before.events event).1 = x.reply := congrArg Prod.fst (Option.some.inj hx)
      rcases check_same r x.before.events event i with hsame | ⟨hst, rfl⟩
      · rw [total_eq hx]
        exact .inr (.of_eq hsame)
      · exact absurd (.inl ⟨hcall, by rw [← hreply, hst]⟩) (hno' r)
  | signalEvent event =>
      rw [hcall] at hx
      rw [total_eq hx]
      exact .inr (signal_timer x.before.events event)
  | waitForEvent readings n event index =>
      rw [hcall] at hx
      rcases waitForEvent_cases hx with ⟨_, heq⟩ | ⟨ptr, out, rfl, hreply⟩
      · exact .inr (.of_eq (by rw [heq]))
      · rw [hreply] at hx
        obtain ⟨before, r, after, rfl, hnone, hlast⟩ := waitForEvent_ends hx
        obtain ⟨idx, j, rfl, hlt, _, hidx, _, hafter⟩ := waitForEvent_last hnone hlast
        by_cases hj : i = j
        · subst hj
          refine absurd ?_ (hno' r)
          exact .inr ⟨before, after, n, ptr, index, idx, hcall, hnone, by rw [hreply]; exact hlast, hreply, hlt, hidx⟩
        · refine .inr (.of_eq ?_)
          rw [hafter]
          exact Arr.get_set_of_ne _ _ hj
  | _ => exact .inr (hother (by simp [hcall, Call.touches]))

theorem DueAt.mono (h : DueAt log i period tick) {tick' : Nat} (hle : tick ≤ tick') : DueAt log i period tick' := by
  obtain ⟨pre, arm, mid, n, ticks, hlog, harm, hno, hdue, hreports⟩ := h
  refine ⟨pre, arm, mid, n, ticks, hlog, harm, hno, hdue.trans hle, fun y hy r hr => ?_⟩
  obtain ⟨hp, hlast⟩ := hreports y hy r hr
  exact ⟨hp, hlast.trans hle⟩

theorem DueAt.snoc (h : DueAt log i period tick) (hno : ¬ x.Resets i)
    (hr : ∀ r, x.Reports i r → period ≠ 0 ∧ r.ticks.toNat + period.toNat ≤ tick) :
    DueAt (log ++ [x]) i period tick := by
  obtain ⟨pre, arm, mid, n, ticks, rfl, harm, hmid, hdue, hreports⟩ := h
  refine ⟨pre, arm, mid ++ [x], n, ticks, by simp, harm, fun y hy => ?_, hdue, fun y hy => ?_⟩
  · rcases List.mem_append.mp hy with hy | hy
    · exact hmid y hy
    · rw [List.mem_singleton.mp hy]
      exact hno
  · rcases List.mem_append.mp hy with hy | hy
    · exact hreports y hy
    · rw [List.mem_singleton.mp hy]
      exact hr

/-- A report of a timer that stays armed: it is periodic, and its next time is a period away. -/
theorem reports_armed (hx : x.before.step image x.call = some (x.reply, x.after)) (h : x.Reports i r)
    (hno : x.NoOverflow) (hk : (x.after.events.get i).kind = .timer) (ha : (x.after.events.get i).Armed) :
    (x.before.events.get i).kind = .timer ∧ (x.before.events.get i).Armed ∧
      (x.before.events.get i).timerDeadline.toNat ≤ r.ticks.toNat ∧
      (x.after.events.get i).timerPeriod = (x.before.events.get i).timerPeriod ∧
      (x.after.events.get i).timerPeriod ≠ 0 ∧
      (x.after.events.get i).timerDeadline.toNat = r.ticks.toNat + (x.after.events.get i).timerPeriod.toNat := by
  obtain ⟨hr, hslot⟩ := reports_slot hx h
  rw [hslot, EventSlot.kind_reported] at hk
  have hsum := hno.reports i r h hk
  obtain ⟨harmed, hle⟩ := (EventSlot.ready_timer hk).mp hr
  rw [hslot, EventSlot.reported_timer hk] at ha ⊢
  have hpos : 0 < (x.before.events.get i).timerPeriod := by
    by_contra hzero
    have hzero' : (x.before.events.get i).timerPeriod = 0 := by
      rw [UInt64.lt_iff_toNat_lt] at hzero
      exact UInt64.toNat_inj.mp (Nat.eq_zero_of_not_pos hzero)
    simp [EventSlot.Armed, hzero'] at ha
  refine ⟨hk, harmed, UInt64.le_iff_toNat_le.mp hle, rfl, ?_, ?_⟩
  · intro h0
    simp only at h0
    rw [h0] at hpos
    exact absurd hpos (by decide)
  · simp only [if_pos hpos]
    rw [UInt64.toNat_add, Nat.mod_eq_of_lt hsum]

/-- An armed timer is due at its deadline. -/
theorem Run.armed {fbBase fbSize : UInt64} {mem : Mem} (h : Run image (init image fbBase fbSize mem) log s)
    (hno : ∀ x ∈ log, x.NoOverflow) (hk : (s.events.get i).kind = .timer) (ha : (s.events.get i).Armed) :
    DueAt log i (s.events.get i).timerPeriod (s.events.get i).timerDeadline.toNat := by
  induction log using List.reverseRecOn generalizing s with
  | nil =>
      cases h
      exact absurd ha (by simp [init, Events.empty, Arr.fill, emptySlot, EventSlot.Armed])
  | append_singleton log x ih =>
      obtain ⟨t, hlog, rfl, hx, rfl⟩ := Run.append.mp h
      have hnox := hno x (by simp)
      have ih := ih hlog fun y hy => hno y (by simp [hy])
      by_cases hreset : x.Resets i
      · rcases resets_slot hx hreset with hnot | ⟨n, ticks, period, harm, hdeadline, hperiod⟩
        · exact absurd ha hnot
        · have hsum := hnox.arms i n ticks period harm
          rw [hdeadline, hperiod, UInt64.toNat_add, Nat.mod_eq_of_lt hsum]
          exact ⟨log, x, [], n, ticks, rfl, harm, by simp, le_rfl, by simp⟩
      · by_cases hrep : ∃ r, x.Reports i r
        · obtain ⟨r, hr⟩ := hrep
          obtain ⟨hk', harmed, hle, hperiod, hpos, hnext⟩ := reports_armed hx hr hnox hk ha
          have hdue := ih hk' harmed
          rw [← hperiod] at hdue
          refine (hdue.mono (by omega)).snoc hreset fun r' hr' => ⟨hpos, ?_⟩
          obtain ⟨_, _, _, _, _, hnext'⟩ := reports_armed hx hr' hnox hk ha
          omega
        · have hrep' := not_exists.mp hrep
          rcases keeps_timer hx hreset hrep' with hnot | ⟨hkind, hdeadline, hperiod⟩
          · exact absurd ha hnot
          · have harmed : (x.before.events.get i).Armed := by
              rw [EventSlot.Armed, ← hdeadline, ← hperiod]
              exact ha
            rw [hdeadline, hperiod]
            exact (ih (hkind ▸ hk) harmed).snoc hreset fun r hr => absurd hr (hrep' r)

/-- Every report of a timer is due: in whatever order the calls of a run are made, the timer was armed by its last reset,
the time of that `SetTimer` has passed, and since then it was not reported, or, if it is periodic, not within a period. -/
theorem reports_due {fbBase fbSize : UInt64} {mem : Mem}
    (h : Run image (init image fbBase fbSize mem) (pre ++ x :: post) s) (hno : ∀ y ∈ pre ++ x :: post, y.NoOverflow)
    (hr : x.Reports i r) (hk : (x.before.events.get i).kind = .timer) :
    ∃ period, DueAt pre i period r.ticks.toNat := by
  obtain ⟨t, hpre, rfl, hx, _⟩ := Run.append.mp h
  obtain ⟨hready, _⟩ := reports_slot hx hr
  obtain ⟨harmed, hle⟩ := (EventSlot.ready_timer hk).mp hready
  have hdue := hpre.armed (fun y hy => hno y (by simp [hy])) hk harmed
  exact ⟨_, hdue.mono (UInt64.le_iff_toNat_le.mp hle)⟩

/-- A timer is created and set to one tick at tick 1. -/
def oneShot (s₁ : Boot) : List Made :=
  [⟨bare, .createEvent evtTimer none 0 true, .word .success (some 1), withEvent .timer false⟩,
    ⟨withEvent .timer false, .setTimer clock100Hz 1 1 timerRelative 100000, .just .success, s₁⟩]

theorem reports_due_bare : ∃ s₁ s₂,
    Run Memory.onePage bare (oneShot s₁ ++ ⟨s₁, .checkEvent ⟨2, false⟩ 1, .just .success, s₂⟩ :: []) s₂ ∧
    ∃ period, DueAt (oneShot s₁) ⟨0, by decide⟩ period 2 := by
  obtain ⟨s₁, hset, hslot⟩ := setTimer_withEvent .timer
  have hi : eventToIndex 1 = some ⟨0, by decide⟩ := rfl
  have hready : (s₁.events.get ⟨0, by decide⟩).ready ⟨2, false⟩ = true := by rw [hslot]; decide
  have hcheck := checkEvent_ready hi (by rw [hslot]; rfl) hready
  have hrun : Run Memory.onePage bare (oneShot s₁ ++ ⟨s₁, .checkEvent ⟨2, false⟩ 1, .just .success, _⟩ :: []) _ :=
    ⟨rfl, rfl, rfl, hset, rfl, congrArg some hcheck, rfl⟩
  refine ⟨s₁, _, hrun, reports_due (r := ⟨2, false⟩) hrun ?_ (.inl ⟨rfl, rfl⟩) (by rw [hslot]; rfl)⟩
  intro x hx
  simp only [oneShot, List.cons_append, List.nil_append, List.mem_cons, List.not_mem_nil, or_false] at hx
  rcases hx with rfl | rfl | rfl
  · constructor
    · rintro i n ticks period ⟨_, _, _, hcall, _⟩
      cases hcall
    · rintro i r (⟨hcall, _⟩ | ⟨_, _, _, _, _, _, hcall, _⟩) <;> cases hcall
  · constructor
    · rintro i n ticks period ⟨_, _, _, hcall, _, _, hticks, _⟩
      obtain ⟨rfl, rfl, _, _, rfl⟩ := Call.setTimer.inj hcall
      cases microsToTicks_clock100Hz.symm.trans hticks
      decide
    · rintro i r (⟨hcall, _⟩ | ⟨_, _, _, _, _, _, hcall, _⟩) <;> cases hcall
  · constructor
    · rintro i n ticks period ⟨_, _, _, hcall, _⟩
      cases hcall
    · rintro i r (⟨hcall, _⟩ | ⟨_, _, _, _, _, _, hcall, _⟩)
      · obtain ⟨hr, he⟩ := Call.checkEvent.inj hcall
        cases hi.symm.trans (eventToIndex_eq_some.mpr he)
        rw [hslot, ← hr]
        decide
      · cases hcall

end Boot

end Ferro
