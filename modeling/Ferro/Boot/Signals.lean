import Ferro.Boot.Lemmas.EventCalls
import Ferro.Boot.Theorems

/-!
# Signals and waits

A signal stays until it is reported, and means nothing to a timer. A wait that accepts its list returns what
`CheckEvent` would report first.
-/

namespace Ferro

namespace Boot

open Events

variable {image : Image} {s s₁ s₂ : Boot} {e n : UInt64} {i : Fin maxEvents} {log : List Made} {r : Reading}
  {ptr : Nat → UInt64}

/-- The token of a live event. -/
def Live (s : Boot) (e : UInt64) : Prop := ∃ i, eventToIndex e = some i ∧ (s.events.get i).inUse = true

theorem checkEvent_success_iff : (s.checkEvent r e).1 = .just .success ↔
    ∃ i, eventToIndex e = some i ∧ (s.events.get i).inUse = true ∧ (s.events.get i).ready r = true := by
  constructor
  · intro h
    have hst : (check r s.events e).1 = .success := (Reply.word.inj h).1
    have hcheck : check r s.events e = (.success, (check r s.events e).2) := by rw [← hst]
    obtain ⟨i, hi, huse, hr, _⟩ := check_eq_success hcheck
    exact ⟨i, hi, huse, hr⟩
  · rintro ⟨i, hi, huse, hr⟩
    simp [checkEvent, check_eq hi huse, hr]

theorem checkEvent_invalid_iff : (s.checkEvent r e).1 = .just .invalidParameter ↔ ¬ Live s e := by
  have hst : (s.checkEvent r e).1 = .just .invalidParameter ↔ (check r s.events e).1 = .invalidParameter :=
    ⟨fun h => (Reply.word.inj h).1, fun h => congrArg (Reply.word · none) h⟩
  rw [hst, check_invalid_iff]
  simp [Live]

theorem checkEvent_ready (hi : eventToIndex e = some i) (huse : (s.events.get i).inUse = true)
    (hr : (s.events.get i).ready r = true) :
    s.checkEvent r e = (.just .success, { s with events := s.events.set i ((s.events.get i).reported r) }) := by
  simp [checkEvent, check_eq hi huse, hr]

theorem waited_ne_nil (hn : 1 ≤ n.toNat) : waited n ptr ≠ [] := by
  rw [waited, ne_eq, List.map_eq_nil_iff, List.range_eq_nil]
  omega

/-- A wait whose tokens are all in range is one for slots. -/
theorem waited_eq (h : ∀ k < n.toNat, (eventToIndex (ptr k)).isSome) :
    ∃ is : List (Fin maxEvents), waited n ptr = is.map indexToEvent ∧
      ∀ (k : Nat) (i : Fin maxEvents), is[k]? = some i ↔ k < n.toNat ∧ eventToIndex (ptr k) = some i := by
  refine ⟨(List.range n.toNat).map fun k => (eventToIndex (ptr k)).getD ⟨0, by decide⟩, ?_, fun k i => ?_⟩
  · rw [waited, List.map_map]
    refine List.map_congr_left fun k hk => ?_
    obtain ⟨i, hi⟩ := Option.isSome_iff_exists.mp (h k (List.mem_range.mp hk))
    rw [Function.comp_apply, hi]
    exact eventToIndex_eq_some.mp hi
  · rw [List.getElem?_map]
    by_cases hk : k < n.toNat
    · obtain ⟨j, hj⟩ := Option.isSome_iff_exists.mp (h k hk)
      simp [hj, hk]
    · simp [hk]

/-- The first test of a wait that finds its event ready ends it. -/
theorem waitForEvent_first {before : List Reading} (hn : n.toNat ≤ 8)
    (hsome : ∀ k < n.toNat, (eventToIndex (ptr k)).isSome) (hlt : before.length < n.toNat)
    (hi : eventToIndex (ptr before.length) = some i) (hr : (s.events.get i).ready r = true)
    (hno : ∀ k r' j, before[k]? = some r' → eventToIndex (ptr k) = some j → (s.events.get j).ready r' = false)
    (after : List Reading) : s.step image (.waitForEvent (before ++ r :: after) n (some ptr) true) =
      some (.word .success (some (.ofNat before.length)),
        { s with events := s.events.set i ((s.events.get i).reported r) }) := by
  obtain ⟨is, his, hget⟩ := waited_eq hsome
  have hwait := wait_first his ((hget _ _).mpr ⟨hlt, hi⟩) (fun p hp => ?_) hr after
  · exact (waitForEvent_eq (by omega) hn).trans (by rw [hwait]; rfl)
  · obtain ⟨k, hk⟩ := List.mem_iff_getElem?.mp hp
    obtain ⟨hik, hbk⟩ := List.getElem?_zip_eq_some.mp hk
    exact hno k p.2 p.1 hbk ((hget k p.1).mp hik).2

/-- A wait for events that are never ready does not end. -/
theorem waitForEvent_never {readings : List Reading} (hn : 1 ≤ n.toNat) (hn' : n.toNat ≤ 8)
    (hsome : ∀ k < n.toNat, (eventToIndex (ptr k)).isSome)
    (hno : ∀ k < n.toNat, ∀ i, eventToIndex (ptr k) = some i → ∀ r ∈ readings, (s.events.get i).ready r = false) :
    s.step image (.waitForEvent readings n (some ptr) true) = none := by
  obtain ⟨is, his, hget⟩ := waited_eq hsome
  have hloop : waitLoop ((List.range is.length).zip is) readings [] s.events = none := by
    refine waitLoop_never (fun p hp r hr => ?_) (by simp)
    obtain ⟨hk, hi⟩ := (hget p.1 p.2).mp (mem_zip_range.mp hp)
    exact hno p.1 hk p.2 hi r hr
  refine (waitForEvent_eq hn hn').trans ?_
  rw [wait_eq (waited_ne_nil hn) his, hloop]
  rfl

/-! ## Signals -/

/-- The next `CheckEvent`, with the reading `r`, returns success, and so does a wait for a list of valid tokens that
begins with the event, with index 0. -/
structure ReportedNext (image : Image) (s : Boot) (e : UInt64) (r : Reading) : Prop where
  check : ∃ s', s.step image (.checkEvent r e) = some (.just .success, s')
  wait (n : UInt64) (ptr : Nat → UInt64) (readings : List Reading) : 1 ≤ n.toNat → n.toNat ≤ 8 → ptr 0 = e →
    (∀ k < n.toNat, (eventToIndex (ptr k)).isSome) →
    ∃ s', s.step image (.waitForEvent (r :: readings) n (some ptr) true) = some (.word .success (some 0), s')

theorem reportedNext_iff (hi : eventToIndex e = some i) (huse : (s.events.get i).inUse = true) :
    ReportedNext image s e r ↔ (s.events.get i).ready r = true := by
  constructor
  · rintro ⟨⟨s', hcheck⟩, _⟩
    obtain ⟨j, hj, _, hr⟩ := checkEvent_success_iff.mp (congrArg Prod.fst (Option.some.inj hcheck))
    cases hi.symm.trans hj
    exact hr
  · intro hr
    refine ⟨⟨_, congrArg some (checkEvent_ready hi huse hr)⟩, fun n ptr readings hn hn' h0 hsome => ?_⟩
    have hfirst : eventToIndex (ptr ([] : List Reading).length) = some i := by rw [List.length_nil, h0, hi]
    have hlt : ([] : List Reading).length < n.toNat := hn
    exact ⟨_, waitForEvent_first hn' hsome hlt hfirst hr (by simp) readings⟩

theorem signalEvent_success (h : s.step image (.signalEvent e) = some (.just .success, s₁)) :
    ∃ i, eventToIndex e = some i ∧ (s.events.get i).inUse = true ∧
      s₁.events.get i = { s.events.get i with signaled := true } := by
  cases hi : eventToIndex e with
  | none => simp [step, signalEvent, signal, hi] at h
  | some i =>
      cases huse : (s.events.get i).inUse with
      | false => simp [step, signalEvent, signal, hi, huse] at h
      | true =>
          rw [total_eq h]
          refine ⟨i, rfl, huse, ?_⟩
          simp [signalEvent, signal, hi, huse]

/-- After a `SignalEvent` that returned success, and calls that are not about the event, a generic event is reported
next. A timer is reported exactly when it would have been without the signal. -/
theorem signal_kept (h : s.step image (.signalEvent e) = some (.just .success, s₁)) (hlog : Run image s₁ log s₂)
    (hno : ∀ x ∈ log, ¬ x.call.OnEvent e) : ∃ i, eventToIndex e = some i ∧ (s.events.get i).inUse = true ∧
      ((s.events.get i).kind = .generic → ∀ r, ReportedNext image s₂ e r) ∧
      ((s.events.get i).kind = .timer → ∀ r, ReportedNext image s₂ e r ↔ (s.checkEvent r e).1 = .just .success) := by
  obtain ⟨i, hi, huse, hslot⟩ := signalEvent_success h
  have he : e = indexToEvent i := eventToIndex_eq_some.mp hi
  have huse₁ : (s₁.events.get i).inUse = true := by rw [hslot]; exact huse
  have hslot₂ : s₂.events.get i = { s.events.get i with signaled := true } := by
    rw [hlog.others (he ▸ hno) huse₁, hslot]
  have huse₂ : (s₂.events.get i).inUse = true := by rw [hslot₂]; exact huse
  refine ⟨i, hi, huse, fun hk r => ?_, fun hk r => ?_⟩
  · rw [reportedNext_iff hi huse₂, hslot₂, EventSlot.ready]
    simp only [hk]
  · have hready : (s₂.events.get i).ready r = (s.events.get i).ready r := by
      rw [hslot₂, EventSlot.ready, EventSlot.ready]
      simp only [hk]
      rfl
    rw [reportedNext_iff hi huse₂, hready, checkEvent_success_iff]
    constructor
    · intro hr
      exact ⟨i, hi, huse, hr⟩
    · rintro ⟨j, hj, _, hr⟩
      cases hi.symm.trans hj
      exact hr

/-- A new event in the first slot. -/
def firstEvent (kind : Kind) (signaled : Bool) : Table :=
  Events.empty.set ⟨0, by decide⟩ { emptySlot with inUse := true, kind, signaled }

/-- The firmware with one event, and whether it was signaled. -/
def withEvent (kind : Kind) (signaled : Bool) : Boot := { bare with events := firstEvent kind signaled }

theorem signalEvent_withEvent (kind : Kind) : (withEvent kind false).step Memory.onePage (.signalEvent 1) =
    some (.just .success, withEvent kind true) := by
  have hi : eventToIndex 1 = some ⟨0, by decide⟩ := rfl
  have hset : (firstEvent kind false).set ⟨0, by decide⟩
      { (firstEvent kind false).get ⟨0, by decide⟩ with signaled := true } = firstEvent kind true := by
    simp [firstEvent, Arr.set]
  simp only [step, signalEvent, signal, withEvent, hi, hset]
  simp [firstEvent]

theorem signal_kept_bare :
    Run Memory.onePage bare [⟨bare, .createEvent 0 none 0 true, .word .success (some 1), withEvent .generic false⟩,
      ⟨withEvent .generic false, .signalEvent 1, .just .success, withEvent .generic true⟩] (withEvent .generic true) ∧
    ReportedNext Memory.onePage (withEvent .generic true) 1 ⟨0, false⟩ := by
  refine ⟨⟨rfl, rfl, rfl, signalEvent_withEvent .generic, rfl⟩, ?_⟩
  have hrun : Run Memory.onePage (withEvent .generic true) [] (withEvent .generic true) := rfl
  obtain ⟨i, hi, _, hgeneric, _⟩ := signal_kept (signalEvent_withEvent .generic) hrun (by simp)
  cases hi
  exact hgeneric rfl _

/-- `SignalEvent` returns success for a timer that is not armed, and nothing reports it. A wait does not report a
signaled generic event if its list has a null token behind it, or 9 entries. -/
theorem signal_timer_lost :
    Run Memory.onePage bare [⟨bare, .createEvent evtTimer none 0 true, .word .success (some 1), withEvent .timer false⟩,
      ⟨withEvent .timer false, .signalEvent 1, .just .success, withEvent .timer true⟩] (withEvent .timer true) ∧
    (∀ r, ((withEvent .timer true).checkEvent r 1).1 = .just .notReady) ∧
    (∀ readings, (withEvent .timer true).step Memory.onePage (.waitForEvent readings 1 (some fun _ => 1) true) = none) ∧
    ∀ readings r, ((withEvent .generic true).checkEvent r 1).1 = .just .success ∧
      (withEvent .generic true).step Memory.onePage
        (.waitForEvent readings 2 (some fun k => if k = 0 then 1 else 0) true) =
          some (.just .invalidParameter, withEvent .generic true) ∧
      (withEvent .generic true).step Memory.onePage (.waitForEvent readings 9 (some fun _ => 1) true) =
          some (.just .invalidParameter, withEvent .generic true) := by
  have hi : eventToIndex 1 = some ⟨0, by decide⟩ := rfl
  have hready : ∀ r, ((withEvent .timer true).events.get ⟨0, by decide⟩).ready r = false := by
    intro r
    simp [withEvent, firstEvent, EventSlot.ready, EventSlot.Armed, emptySlot]
  refine ⟨⟨rfl, rfl, rfl, signalEvent_withEvent .timer, rfl⟩, fun r => ?_, fun readings => ?_,
    fun readings r => ⟨checkEvent_success_iff.mpr ⟨⟨0, by decide⟩, rfl, rfl, rfl⟩, rfl, rfl⟩⟩
  · rw [checkEvent, check_eq hi rfl, hready]
    rfl
  · refine waitForEvent_never (by decide) (by decide) (fun _ _ => rfl) fun _ _ i hi' r _ => ?_
    cases hi.symm.trans hi'
    exact hready r

/-! ## Waits -/

/-- `WaitForEvent` returns `EFI_INVALID_PARAMETER` for the lists that are empty, too long, or contain a token that
`CheckEvent` rejects. For the others, the first test that `CheckEvent` would succeed in ends the wait with the index of
its event and the effect of that `CheckEvent`. -/
structure WaitsRight (image : Image) (s : Boot) (n : UInt64) (ptr : Nat → UInt64) : Prop where
  invalid (readings : List Reading) :
    s.step image (.waitForEvent readings n (some ptr) true) = some (.just .invalidParameter, s) ↔
      n.toNat = 0 ∨ 8 < n.toNat ∨ ∃ k < n.toNat, ∀ r, (s.checkEvent r (ptr k)).1 = .just .invalidParameter
  first (before after : List Reading) (r : Reading) : n.toNat ≤ 8 →
    (∀ k < n.toNat, ∃ i, eventToIndex (ptr k) = some i ∧ (s.events.get i).inUse = true ∧
      (s.events.get i).kind ≠ .consoleIn) →
    before.length < n.toNat → (s.checkEvent r (ptr before.length)).1 = .just .success →
    (∀ k r', before[k]? = some r' → (s.checkEvent r' (ptr k)).1 ≠ .just .success) →
    s.step image (.waitForEvent (before ++ r :: after) n (some ptr) true) =
        some (.word .success (some (.ofNat before.length)), (s.checkEvent r (ptr before.length)).2) ∧
      ∀ i, ptr before.length ≠ indexToEvent i →
        (s.checkEvent r (ptr before.length)).2.events.get i = s.events.get i

theorem waitForEvent_outside {k : Nat} {readings : List Reading} (hk : k < n.toNat) (hno : eventToIndex (ptr k) = none) :
    s.step image (.waitForEvent readings n (some ptr) true) = some (.just .invalidParameter, s) := by
  by_cases hn : n.toNat ≤ 8
  · have hmap : (waited n ptr).mapM eventToIndex = none := by
      cases h : (waited n ptr).mapM eventToIndex with
      | none => rfl
      | some is =>
          have hget : (waited n ptr)[k]? = some (ptr k) := by simp [waited, hk]
          rw [mapM_eventToIndex_eq_some.mp h, List.getElem?_map, Option.map_eq_some_iff] at hget
          obtain ⟨i, _, hi⟩ := hget
          rw [← hi, eventToIndex_indexToEvent] at hno
          cases hno
    have hwait : wait readings s.events (waited n ptr) = some (.error .invalidParameter, s.events) := by
      rw [wait, hmap]
      exact ite_self _
    refine (waitForEvent_eq (by omega) hn).trans ?_
    rw [hwait]
    rfl
  · exact waitForEvent_invalid (.inr (.inr (by omega)))

theorem waitForEvent_accepts {readings : List Reading} (hn : 1 ≤ n.toNat) (hn' : n.toNat ≤ 8)
    (hsome : ∀ k < n.toNat, (eventToIndex (ptr k)).isSome) :
    s.step image (.waitForEvent readings n (some ptr) true) ≠ some (.just .invalidParameter, s) := by
  intro h
  obtain ⟨is, his, _⟩ := waited_eq hsome
  obtain ⟨⟨res, t⟩, hw, h⟩ := Option.map_eq_some_iff.mp ((waitForEvent_eq hn hn').symm.trans h)
  rw [wait_eq (waited_ne_nil hn) his] at hw
  obtain ⟨_, _, hw⟩ := Option.map_eq_some_iff.mp hw
  cases hw
  cases h

theorem Live.isSome {e : UInt64} (h : Live s e) : (eventToIndex e).isSome := by
  obtain ⟨i, hi, _⟩ := h
  rw [hi]
  rfl

theorem not_live_of_none {e : UInt64} (h : eventToIndex e = none) : ¬ Live s e := by
  rintro ⟨i, hi, _⟩
  cases h.symm.trans hi

/-- Of a list of live tokens, and of one with a value that is never a token, the two services think alike. -/
theorem waitForEvent_invalid_iff {readings : List Reading} (hn : 1 ≤ n.toNat) (hn' : n.toNat ≤ 8)
    (h : (∃ k < n.toNat, eventToIndex (ptr k) = none) ∨ ∀ k < n.toNat, Live s (ptr k)) :
    s.step image (.waitForEvent readings n (some ptr) true) = some (.just .invalidParameter, s) ↔
      ∃ k < n.toNat, ∀ r, (s.checkEvent r (ptr k)).1 = .just .invalidParameter := by
  rcases h with ⟨k, hk, hno⟩ | hlive
  · exact iff_of_true (waitForEvent_outside hk hno) ⟨k, hk, fun r => checkEvent_invalid_iff.mpr (not_live_of_none hno)⟩
  · refine iff_of_false (waitForEvent_accepts hn hn' fun k hk => (hlive k hk).isSome) ?_
    rintro ⟨k, hk, hdead⟩
    exact checkEvent_invalid_iff.mp (hdead ⟨0, false⟩) (hlive k hk)

/-- The wait over live tokens ends with the first test that `CheckEvent` would succeed in. -/
theorem waitForEvent_checks {before : List Reading} {r : Reading} (after : List Reading) (hn : n.toNat ≤ 8)
    (hlive : ∀ k < n.toNat, Live s (ptr k)) (hlt : before.length < n.toNat)
    (hok : (s.checkEvent r (ptr before.length)).1 = .just .success)
    (hno : ∀ k r', before[k]? = some r' → (s.checkEvent r' (ptr k)).1 ≠ .just .success) :
    s.step image (.waitForEvent (before ++ r :: after) n (some ptr) true) =
        some (.word .success (some (.ofNat before.length)), (s.checkEvent r (ptr before.length)).2) ∧
      ∀ i, ptr before.length ≠ indexToEvent i →
        (s.checkEvent r (ptr before.length)).2.events.get i = s.events.get i := by
  obtain ⟨i, hi, huse, hr⟩ := checkEvent_success_iff.mp hok
  have hno' : ∀ k r' j, before[k]? = some r' → eventToIndex (ptr k) = some j →
      (s.events.get j).ready r' = false := by
    intro k r' j hb hj
    obtain ⟨hkb, _⟩ := List.getElem?_eq_some_iff.mp hb
    obtain ⟨j', hj', huse'⟩ := hlive k (hkb.trans hlt)
    cases hj.symm.trans hj'
    exact Bool.eq_false_iff.mpr fun hready => hno k r' hb (checkEvent_success_iff.mpr ⟨j, hj, huse', hready⟩)
  rw [checkEvent_ready hi huse hr]
  exact ⟨waitForEvent_first hn (fun k hk => (hlive k hk).isSome) hlt hi hr hno' after, fun j hj => get_set_other hi hj⟩

/-- `WaitForEvent` agrees with `CheckEvent` on the lists that are empty, too long, contain a value that is never a token,
or contain only tokens of live events. -/
theorem waitsRight_iff : WaitsRight image s n ptr ↔
    n.toNat = 0 ∨ 8 < n.toNat ∨ (∃ k < n.toNat, eventToIndex (ptr k) = none) ∨ ∀ k < n.toNat, Live s (ptr k) := by
  constructor
  · rintro ⟨hinvalid, _⟩
    by_contra hno
    simp only [not_or, not_exists, not_and, not_forall] at hno
    obtain ⟨hn, hn', hin, k, hk, hdead⟩ := hno
    have hsome : ∀ k < n.toNat, (eventToIndex (ptr k)).isSome := fun k hk => Option.isSome_iff_ne_none.mpr (hin k hk)
    have hinv := (hinvalid []).mpr (.inr (.inr ⟨k, hk, fun r => checkEvent_invalid_iff.mpr hdead⟩))
    exact waitForEvent_accepts (by omega) (by omega) hsome hinv
  · intro h
    constructor
    · intro readings
      by_cases hsize : n.toNat = 0 ∨ 8 < n.toNat
      · exact iff_of_true (waitForEvent_invalid (.inr hsize)) (hsize.imp_right .inl)
      · rw [not_or] at hsize
        have hcase := (h.resolve_left hsize.1).resolve_left hsize.2
        rw [waitForEvent_invalid_iff (by omega) (by omega) hcase]
        exact ⟨fun hdead => .inr (.inr hdead), fun hdead => (hdead.resolve_left hsize.1).resolve_left hsize.2⟩
    · intro before after r hn hlive hlt hok hno
      exact waitForEvent_checks after hn (fun k hk => (hlive k hk).imp fun _ hi => ⟨hi.1, hi.2.1⟩) hlt hok hno

/-- An event is created and closed. `CheckEvent` rejects its token, and `WaitForEvent` polls without an end. -/
theorem wait_closed :
    Run Memory.onePage bare [⟨bare, .createEvent 0 none 0 true, .word .success (some 1), withEvent .generic false⟩,
      ⟨withEvent .generic false, .closeEvent 1, .just .success, bare⟩] bare ∧
    (∀ r, (bare.checkEvent r 1).1 = .just .invalidParameter) ∧
    (∀ readings, bare.step Memory.onePage (.waitForEvent readings 1 (some fun _ => 1) true) = none) ∧
    ¬ WaitsRight Memory.onePage bare 1 fun _ => 1 := by
  have hclose : (withEvent .generic false).step Memory.onePage (.closeEvent 1) = some (.just .success, bare) := by
    have hi : eventToIndex 1 = some ⟨0, by decide⟩ := rfl
    have hset : (firstEvent .generic false).set ⟨0, by decide⟩ emptySlot = Events.empty := by
      simp [firstEvent, Arr.set, Events.empty, Arr.fill]
    simp only [step, closeEvent, close, withEvent, hi, hset]
    simp [firstEvent, bare, init]
  have hrejects : ∀ r, (bare.checkEvent r 1).1 = .just .invalidParameter := fun _ => rfl
  have hpolls : ∀ readings, bare.step Memory.onePage (.waitForEvent readings 1 (some fun _ => 1) true) = none :=
    fun readings => waitForEvent_never (by decide) (by decide) (fun _ _ => rfl) fun _ _ i hi r _ => by cases hi; rfl
  refine ⟨⟨rfl, rfl, rfl, hclose, rfl⟩, hrejects, hpolls, fun h => ?_⟩
  have hinv := (h.invalid []).mpr (.inr (.inr ⟨0, by decide, hrejects⟩))
  rw [hpolls []] at hinv
  cases hinv

end Boot

end Ferro
