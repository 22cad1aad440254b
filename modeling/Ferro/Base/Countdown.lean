import Mathlib.Data.List.Basic

/-!
# Countdowns

A countdown is set for a number of ticks, or switched off. It fires when as many ticks have passed since it was last set.
-/

namespace Ferro

/-- A countdown that is running has one tick more to go than the number says. -/
inductive Countdown where
  | off
  | running (n : Nat)
  | fired
  deriving DecidableEq

namespace Countdown

inductive Event where
  /-- For 0, the countdown is switched off. -/
  | set (n : Nat)
  | tick
  deriving DecidableEq

def step : Countdown → Event → Countdown
  | fired, _ => fired
  | _, .set 0 => off
  | _, .set (n + 1) => running n
  | off, .tick => off
  | running 0, .tick => fired
  | running (n + 1), .tick => running n

def run (c : Countdown) (es : List Event) : Countdown := es.foldl step c

variable {c : Countdown} {es : List Event}

theorem run_append (c : Countdown) (es es' : List Event) : c.run (es ++ es') = (c.run es).run es' := List.foldl_append

@[simp] theorem run_fired (es : List Event) : fired.run es = fired := by
  induction es with
  | nil => rfl
  | cons e es ih => exact ih

theorem run_ticks (n : Nat) : (running n).run (List.replicate (n + 1) .tick) = fired := by
  induction n with
  | zero => rfl
  | succ n ih => exact ih

/-- What it takes to fire from `c` on: the ticks that are left, or an event that sets the countdown and its ticks. -/
theorem fires (h : c.run es = fired) : c = fired ∨
    (∃ n post, c = running n ∧ es = List.replicate (n + 1) .tick ++ post) ∨
      ∃ pre n post, es = pre ++ .set (n + 1) :: (List.replicate (n + 1) .tick ++ post) := by
  induction es generalizing c with
  | nil => exact .inl h
  | cons e es ih =>
      rcases ih (c := c.step e) h with hfired | ⟨n, post, hrunning, rfl⟩ | ⟨pre, n, post, rfl⟩
      · cases c with
        | fired => exact .inl rfl
        | off => rcases e with (_ | n) | _ <;> cases hfired
        | running k =>
            cases e with
            | set n => cases n <;> cases hfired
            | tick =>
                cases k with
                | zero => exact .inr (.inl ⟨0, es, rfl, rfl⟩)
                | succ k => cases hfired
      · cases e with
        | set k =>
            obtain rfl : k = n + 1 := by
              cases k with
              | zero => cases c <;> cases hrunning
              | succ k => cases c <;> cases hrunning <;> rfl
            exact .inr (.inr ⟨[], n, post, rfl⟩)
        | tick =>
            obtain rfl : c = running (n + 1) := by
              rcases c with _ | (_ | k) | _ <;> cases hrunning
              rfl
            exact .inr (.inl ⟨n + 1, post, rfl, rfl⟩)
      · exact .inr (.inr ⟨e :: pre, n, post, rfl⟩)

/-- Once it has been set, the ticks that follow make it fire. -/
theorem fired_of_set (c : Countdown) (pre : List Event) (n : Nat) (post : List Event) :
    c.run (pre ++ .set (n + 1) :: (List.replicate (n + 1) .tick ++ post)) = fired := by
  rw [run_append]
  have hset : (c.run pre).run (.set (n + 1) :: (List.replicate (n + 1) .tick ++ post)) =
      ((c.run pre).step (.set (n + 1))).run (List.replicate (n + 1) .tick ++ post) := rfl
  rw [hset, run_append]
  cases c.run pre with
  | fired => simp only [step, run_fired]
  | off => simp only [step, run_ticks, run_fired]
  | running k => simp only [step, run_ticks, run_fired]

theorem off_fires_iff : off.run es = fired ↔
    ∃ pre n post, es = pre ++ .set (n + 1) :: (List.replicate (n + 1) .tick ++ post) := by
  constructor
  · intro h
    rcases fires h with h | ⟨_, _, h, _⟩ | h
    · cases h
    · cases h
    · exact h
  · rintro ⟨pre, n, post, rfl⟩
    exact fired_of_set off pre n post

end Countdown

end Ferro
