import Ferro.Base.Slots
import Ferro.Types

/-!
# Events (`efi/events.rs`)

Each time an event's condition is tested, the tick counter and the console input have some value: a `Reading`. A wait
is given the readings of its tests, and has not ended when they run out. A notify function is code outside the
firmware; what it calls follows the call that ran it.
-/

namespace Ferro

def maxEvents : Nat := 16

def evtTimer : UInt32 := 0x80000000

def timerCancel : UInt32 := 0

def timerPeriodic : UInt32 := 1

namespace Events

inductive Kind where
  | generic
  | timer
  | consoleIn
  deriving DecidableEq

structure EventSlot where
  inUse : Bool
  kind : Kind
  signaled : Bool
  notifyFn : Option UInt64
  notifyCtx : UInt64
  timerDeadline : UInt64
  timerPeriod : UInt64
  deriving DecidableEq

def emptySlot : EventSlot := ⟨false, .generic, false, none, 0, 0, 0⟩

/-- The contents of `EVENTS`. -/
abbrev Table := Arr EventSlot maxEvents

/-- `EVENTS` at boot. -/
def empty : Table := .fill emptySlot

/-- What `timer::ticks` and `console::key_available` return. -/
structure Reading where
  ticks : UInt64
  key : Bool

/-- `CNTFRQ_EL0` and `TICK_INTERVAL`. -/
structure Clock where
  freq : UInt64
  interval : UInt64

def saturatingMul (a b : UInt64) : UInt64 := .ofNat (min (a.toNat * b.toNat) 0xFFFFFFFFFFFFFFFF)

/-- `timer::micros_to_ticks`; a zero denominator panics. -/
def microsToTicks (clock : Clock) (us : UInt64) : Option UInt64 :=
  let interval := max clock.interval 1
  let numerator := saturatingMul us clock.freq
  let denominator := 1000000 * interval
  if denominator = 0 then none else some ((numerator + denominator - 1) / denominator)

def indexToEvent (i : Fin maxEvents) : UInt64 := .ofNat (i + 1)

def eventToIndex (e : UInt64) : Option (Fin maxEvents) :=
  if h : e ≠ 0 ∧ e.toNat ≤ maxEvents then
    some ⟨e.toNat - 1, by have := UInt64.toNat_inj.not.mpr h.1; simp at this; omega⟩
  else
    none

def create (t : Table) (kind : Kind) (notifyFn : Option UInt64) (notifyCtx : UInt64) : Option UInt64 × Table :=
  match t.find? fun slot => !slot.inUse with
  | some i => (some (indexToEvent i), t.set i { emptySlot with inUse := true, kind, notifyFn, notifyCtx })
  | none => (none, t)

def close (t : Table) (event : UInt64) : EfiStatus × Table :=
  match eventToIndex event with
  | none => (.invalidParameter, t)
  | some i => if (t.get i).inUse then (.success, t.set i emptySlot) else (.invalidParameter, t)

def setTimer (clock : Clock) (now : UInt64) (t : Table) (event : UInt64) (timerType : UInt32)
    (triggerTime100ns : UInt64) : Option (EfiStatus × Table) :=
  match eventToIndex event with
  | none => some (.invalidParameter, t)
  | some i =>
    let slot := t.get i
    if !slot.inUse then
      some (.invalidParameter, t)
    else if timerType = timerCancel then
      some (.success, t.set i { slot with timerPeriod := 0, timerDeadline := 0 })
    else
      (microsToTicks clock (triggerTime100ns / 10)).map fun ticks =>
        (.success, t.set i { slot with
          timerDeadline := now + ticks
          timerPeriod := if timerType = timerPeriodic then max ticks 1 else 0 })

def signal (t : Table) (event : UInt64) : EfiStatus × Table :=
  match eventToIndex event with
  | none => (.invalidParameter, t)
  | some i =>
    if (t.get i).inUse then (.success, t.set i { t.get i with signaled := true }) else (.invalidParameter, t)

def conditionMet (r : Reading) (t : Table) (i : Fin maxEvents) : Bool × Table :=
  let slot := t.get i
  match slot.kind with
  | .generic => (slot.signaled, t)
  | .timer =>
    if slot.timerDeadline = 0 ∧ slot.timerPeriod = 0 then
      (false, t)
    else if slot.timerDeadline ≤ r.ticks then
      (true, t.set i { slot with
        timerDeadline := if 0 < slot.timerPeriod then r.ticks + slot.timerPeriod else 0 })
    else
      (false, t)
  | .consoleIn => (r.key, t)

/-- A generic event is cleared when it is reported. -/
def consume (t : Table) (i : Fin maxEvents) : Table :=
  if (t.get i).kind = .generic then t.set i { t.get i with signaled := false } else t

def check (r : Reading) (t : Table) (event : UInt64) : EfiStatus × Table :=
  match eventToIndex event with
  | none => (.invalidParameter, t)
  | some i =>
    if (t.get i).inUse then
      match conditionMet r t i with
      | (true, t) => (.success, consume t i)
      | (false, t) => (.notReady, t)
    else
      (.invalidParameter, t)

/-- The tests of `wait`: `todo` are the events left in this pass over the list, with their indices in it. -/
def waitLoop (events : List (Nat × Fin maxEvents)) :
    List Reading → (todo : List (Nat × Fin maxEvents)) → Table → Option (Nat × Table)
  | [], _, _ => none
  | r :: rs, todo, t =>
    match if todo.isEmpty then events else todo with
    | [] => none
    | (idx, i) :: todo =>
      match conditionMet r t i with
      | (true, t) => some (idx, consume t i)
      | (false, t) => waitLoop events rs todo t

def wait (readings : List Reading) (t : Table) (events : List UInt64) : Option (Except EfiStatus Nat × Table) :=
  if events.isEmpty then
    some (.error .invalidParameter, t)
  else
    match events.mapM eventToIndex with
    | none => some (.error .invalidParameter, t)
    | some is => (waitLoop ((List.range is.length).zip is) readings [] t).map fun (idx, t) => (.ok idx, t)

end Events

end Ferro
