import Ferro.Boot.Lemmas.Events
import Ferro.Boot.Lemmas.Runs

/-!
# The event calls

For a slot, a call reports its event, resets it (`SetTimer` or `CloseEvent` on it), or leaves its kind and its timer
alone, except that an unused slot can become a new event.
-/

namespace Ferro

open Events

/-- The call is given the token. -/
def Call.OnEvent (e : UInt64) : Call → Prop
  | .setTimer _ _ event _ _ => event = e
  | .waitForEvent _ numberOfEvents (some ptr) _ => ∃ k < numberOfEvents.toNat, ptr k = e
  | .signalEvent event => event = e
  | .closeEvent event => event = e
  | .checkEvent _ event => event = e
  | _ => False

namespace Events

variable {clock : Clock} {r : Reading} {t t' : Table} {i j : Fin maxEvents} {e now : UInt64} {timerType : UInt32}
  {triggerTime : UInt64} {st : EfiStatus} {readings : List Reading} {slot : EventSlot}

theorem get_set_other (hj : eventToIndex e = some j) (hne : e ≠ indexToEvent i) : (t.set j slot).get i = t.get i :=
  Arr.get_set_of_ne _ _ fun h => hne (h ▸ eventToIndex_eq_some.mp hj)

theorem create_others {kind : Kind} {fn : Option UInt64} {ctx : UInt64} (huse : (t.get i).inUse = true) :
    (create t kind fn ctx).2.get i = t.get i := by
  unfold create
  split
  · rename_i j hj
    have hfree : (!(t.get j).inUse) = true := Arr.find?_eq_some hj
    refine Arr.get_set_of_ne _ _ ?_
    rintro rfl
    rw [huse] at hfree
    cases hfree
  · rfl

theorem close_others (hne : e ≠ indexToEvent i) : (close t e).2.get i = t.get i := by
  unfold close
  split
  · rfl
  · split
    · exact get_set_other ‹_› hne
    · rfl

theorem signal_others (hne : e ≠ indexToEvent i) : (signal t e).2.get i = t.get i := by
  unfold signal
  split
  · rfl
  · split
    · exact get_set_other ‹_› hne
    · rfl

theorem setTimer_others (h : setTimer clock now t e timerType triggerTime = some (st, t'))
    (hne : e ≠ indexToEvent i) : t'.get i = t.get i := by
  unfold setTimer at h
  split at h
  · cases h; rfl
  · dsimp only at h
    split at h
    · cases h; rfl
    · split at h
      · cases h
        exact get_set_other ‹_› hne
      · obtain ⟨ticks, _, h⟩ := Option.map_eq_some_iff.mp h
        cases h
        exact get_set_other ‹_› hne

theorem check_others (hne : e ≠ indexToEvent i) : (check r t e).2.get i = t.get i := by
  cases hj : eventToIndex e with
  | none => rw [check, hj]
  | some j =>
      cases huse : (t.get j).inUse with
      | false => simp [check, hj, huse]
      | true =>
          rw [check_eq hj huse]
          split
          · exact get_set_other hj hne
          · rfl

/-! ### Calls that fail -/

theorem setTimer_fails (h : setTimer clock now t e timerType triggerTime = some (st, t')) (hst : st ≠ .success) : t' = t := by
  unfold setTimer at h
  split at h
  · cases h; rfl
  · dsimp only at h
    split at h
    · cases h; rfl
    · split at h
      · cases h; exact absurd rfl hst
      · obtain ⟨ticks, _, h⟩ := Option.map_eq_some_iff.mp h
        cases h
        exact absurd rfl hst

theorem close_fails (hst : (close t e).1 ≠ .success) : (close t e).2 = t := by
  unfold close at hst ⊢
  split
  · rfl
  · split
    · rename_i hi huse
      simp [hi, huse] at hst
    · rfl

theorem check_fails (hst : (check r t e).1 ≠ .success) : (check r t e).2 = t := by
  cases hi : eventToIndex e with
  | none => rw [check, hi]
  | some i =>
      cases huse : (t.get i).inUse with
      | false => simp [check, hi, huse]
      | true =>
          rw [check_eq hi huse] at hst ⊢
          split
          · rename_i hr
            exact absurd (by rw [if_pos hr]) hst
          · rfl

/-- A call changes the slot only if it succeeds and is given the token of the slot. -/
theorem setTimer_same (h : setTimer clock now t e timerType triggerTime = some (st, t')) (i : Fin maxEvents) :
    t'.get i = t.get i ∨ st = .success ∧ e = indexToEvent i := by
  by_cases hst : st = .success
  · by_cases he : e = indexToEvent i
    · exact .inr ⟨hst, he⟩
    · exact .inl (setTimer_others h he)
  · exact .inl (by rw [setTimer_fails h hst])

theorem close_same (t : Table) (e : UInt64) (i : Fin maxEvents) :
    (close t e).2.get i = t.get i ∨ (close t e).1 = .success ∧ e = indexToEvent i := by
  by_cases hst : (close t e).1 = .success
  · by_cases he : e = indexToEvent i
    · exact .inr ⟨hst, he⟩
    · exact .inl (close_others he)
  · exact .inl (by rw [close_fails hst])

theorem check_same (r : Reading) (t : Table) (e : UInt64) (i : Fin maxEvents) :
    (check r t e).2.get i = t.get i ∨ (check r t e).1 = .success ∧ e = indexToEvent i := by
  by_cases hst : (check r t e).1 = .success
  · by_cases he : e = indexToEvent i
    · exact .inr ⟨hst, he⟩
    · exact .inl (check_others he)
  · exact .inl (by rw [check_fails hst])

end Events

namespace Boot

variable {image : Image} {s s' : Boot} {c : Call} {r : Reply} {i : Fin maxEvents} {e : UInt64} {log : List Made}
  {x : Made} {n : UInt64} {ptr : Nat → UInt64} {index : OutPtr} {readings : List Reading}

/-! ## `WaitForEvent` -/

/-- The tokens `WaitForEvent` copies. -/
def waited (n : UInt64) (ptr : Nat → UInt64) : List UInt64 := (List.range n.toNat).map ptr

/-- What `WaitForEvent` makes of the result of `wait`. -/
def waitReply (s : Boot) : Except EfiStatus Nat × Table → Reply × Boot
  | (.ok i, events) => (.word .success (some (.ofNat i)), { s with events })
  | (.error st, events) => (.just st, { s with events })

theorem waitForEvent_eq (hn : 1 ≤ n.toNat) (hn' : n.toNat ≤ 8) : s.waitForEvent readings n (some ptr) true =
    (Events.wait readings s.events (waited n ptr)).map s.waitReply := by
  have hne : n ≠ 0 := by
    rintro rfl
    exact absurd hn (by decide)
  have hle : ¬ 8 < n := by
    rw [UInt64.lt_iff_toNat_lt]
    exact Nat.not_lt.mpr hn'
  simp only [waitForEvent, Bool.not_true, Bool.false_or, decide_eq_true_eq, hne, hle, if_false]
  congr 1
  funext ⟨res, t⟩
  cases res <;> rfl

/-- An empty list, one with more than 8 entries, or a null pointer. -/
theorem waitForEvent_invalid (h : index = false ∨ n.toNat = 0 ∨ 8 < n.toNat) :
    s.waitForEvent readings n (some ptr) index = some (.just .invalidParameter, s) := by
  simp only [waitForEvent]
  split
  · rfl
  · rename_i hok
    rw [Bool.or_eq_true, not_or, Bool.not_eq_true', Bool.not_eq_false, decide_eq_true_eq] at hok
    have hn : n.toNat ≠ 0 := fun h0 => hok.2 (UInt64.toNat_inj.mp h0)
    have hlt : (8 : UInt64) < n := by
      rw [UInt64.lt_iff_toNat_lt]
      rcases h with h | h | h
      · exact absurd (h ▸ hok.1) Bool.false_ne_true
      · exact absurd h hn
      · exact h
    rw [if_pos hlt]

theorem waitForEvent_ok {out : Option UInt64}
    (h : s.waitForEvent readings n (some ptr) index = some (.word .success out, s')) :
    index = true ∧ 1 ≤ n.toNat ∧ n.toNat ≤ 8 ∧ ∃ idx t', out = some (.ofNat idx) ∧ s' = { s with events := t' } ∧
      Events.wait readings s.events (waited n ptr) = some (.ok idx, t') := by
  by_cases hbad : index = false ∨ n.toNat = 0 ∨ 8 < n.toNat
  · rw [waitForEvent_invalid hbad] at h
    cases h
  · rw [not_or, not_or, Bool.not_eq_false] at hbad
    obtain ⟨rfl, hn, hn'⟩ := hbad
    rw [waitForEvent_eq (by omega) (by omega)] at h
    obtain ⟨⟨res, t'⟩, hw, h⟩ := Option.map_eq_some_iff.mp h
    cases res with
    | error st =>
        cases (wait_error hw).1
        cases h
    | ok idx =>
        cases h
        exact ⟨rfl, by omega, by omega, idx, t', rfl, rfl, hw⟩

/-- A wait that returned success ended with one of its readings. -/
theorem waitForEvent_ends {out : Option UInt64}
    (h : s.waitForEvent readings n (some ptr) index = some (.word .success out, s')) :
    ∃ before r after, readings = before ++ r :: after ∧ s.waitForEvent before n (some ptr) index = none ∧
      s.waitForEvent (before ++ [r]) n (some ptr) index = some (.word .success out, s') := by
  obtain ⟨rfl, hn, hn', idx, t', rfl, rfl, hw⟩ := waitForEvent_ok h
  obtain ⟨before, r, after, hsplit, hnone, hlast⟩ := wait_ends hw
  refine ⟨before, r, after, hsplit, ?_, ?_⟩
  · rw [waitForEvent_eq hn hn', hnone]
    rfl
  · rw [waitForEvent_eq hn hn', hlast]
    rfl

/-- The reading with which a wait ended found the event at the index it returned ready. -/
theorem waitForEvent_last {reading : Reading} {out : Option UInt64} (hnone : s.waitForEvent readings n (some ptr) index = none)
    (h : s.waitForEvent (readings ++ [reading]) n (some ptr) index = some (.word .success out, s')) :
    ∃ idx i, out = some (.ofNat idx) ∧ idx < n.toNat ∧ n.toNat ≤ 8 ∧ ptr idx = indexToEvent i ∧
      (s.events.get i).ready reading = true ∧
      s' = { s with events := s.events.set i ((s.events.get i).reported reading) } := by
  obtain ⟨rfl, hn, hn', idx, t', rfl, rfl, hw⟩ := waitForEvent_ok h
  rw [waitForEvent_eq hn hn', Option.map_eq_none_iff] at hnone
  obtain ⟨i, hidx, hr, rfl⟩ := wait_last hnone hw
  obtain ⟨hlt, hget⟩ := List.getElem?_eq_some_iff.mp hidx
  exact ⟨idx, i, rfl, by simpa [waited] using hlt, hn', by simpa [waited] using hget, hr, rfl⟩

theorem waitForEvent_cases {event : Option (Nat → UInt64)}
    (h : s.waitForEvent readings n event index = some (r, s')) :
    (r = .just .invalidParameter ∧ s' = s) ∨ ∃ ptr out, event = some ptr ∧ r = .word .success out := by
  unfold waitForEvent at h
  split at h
  · cases h
    exact .inl ⟨rfl, rfl⟩
  · split at h
    · cases h
      exact .inl ⟨rfl, rfl⟩
    · split at h
      · cases h
        exact .inl ⟨rfl, rfl⟩
      · obtain ⟨⟨res, t'⟩, hw, h⟩ := Option.map_eq_some_iff.mp h
        cases res with
        | ok idx =>
            cases h
            exact .inr ⟨_, _, rfl, rfl⟩
        | error st =>
            obtain ⟨rfl, rfl⟩ := wait_error hw
            cases h
            exact .inl ⟨rfl, rfl⟩

/-! ## The other events -/

theorem createEvent_others {eventType : UInt32} {fn : Option UInt64} {ctx : UInt64} {event : OutPtr}
    (huse : (s.events.get i).inUse = true) : (s.createEvent eventType fn ctx event).2.events.get i = s.events.get i := by
  unfold createEvent
  split
  · rfl
  · dsimp only
    have hothers (kind : Kind) : (create s.events kind fn ctx).2.get i = s.events.get i := create_others huse
    split
    · rename_i hcreate
      rw [← hothers, hcreate]
    · rename_i hcreate
      rw [← hothers, hcreate]

/-- A call that is not given the token leaves the slot of a live event. -/
theorem step_others (h : s.step image c = some (r, s')) (hc : ¬ c.OnEvent (indexToEvent i))
    (huse : (s.events.get i).inUse = true) : s'.events.get i = s.events.get i := by
  have hother (ht : c.touches ≠ .events) : s'.events.get i = s.events.get i := by
    rw [(step_touches h).frame.events ht]
  cases c with
  | createEvent eventType fn ctx event => rw [total_eq h]; exact createEvent_others huse
  | createEventEx eventType fn ctx event => rw [total_eq h]; exact createEvent_others huse
  | setTimer clock now event timerType triggerTime =>
      obtain ⟨⟨st, t'⟩, hset, h⟩ := Option.map_eq_some_iff.mp h
      cases h
      exact setTimer_others hset hc
  | signalEvent event => cases h; exact signal_others hc
  | closeEvent event => cases h; exact close_others hc
  | checkEvent reading event => cases h; exact check_others hc
  | waitForEvent readings n event index =>
      rcases waitForEvent_cases h with ⟨_, rfl⟩ | ⟨ptr, out, rfl, rfl⟩
      · rfl
      · obtain ⟨before, r, _, _, hnone, hlast⟩ := waitForEvent_ends h
        obtain ⟨idx, j, _, hlt, _, hj, _, rfl⟩ := waitForEvent_last hnone hlast
        exact get_set_other (eventToIndex_eq_some.mpr hj) fun he => hc ⟨idx, hlt, he⟩
  | _ => exact hother (by simp [Call.touches])

theorem Run.others (h : Run image s log s') (hno : ∀ x ∈ log, ¬ x.call.OnEvent (indexToEvent i))
    (huse : (s.events.get i).inUse = true) : s'.events.get i = s.events.get i := by
  induction log generalizing s with
  | nil => cases h; rfl
  | cons x log ih =>
      obtain ⟨rfl, hx, hlog⟩ := h
      have hslot := step_others hx (hno x List.mem_cons_self) huse
      rw [ih hlog (fun y hy => hno y (List.mem_cons_of_mem x hy)) (by rw [hslot]; exact huse), hslot]

end Boot

end Ferro
