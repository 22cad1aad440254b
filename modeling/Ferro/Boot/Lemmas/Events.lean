import Ferro.Boot.Lemmas.Effects

/-!
# One event

A test looks at one slot and leaves the others. `EventSlot.ready` is what it finds there, `EventSlot.reported` is the
slot after the event was reported. A call that names another event leaves the slot of a live one.
-/

namespace Ferro

namespace Events

variable {clock : Clock} {r : Reading} {t t' : Table} {i j : Fin maxEvents} {e : UInt64} {now : UInt64}
  {timerType : UInt32} {triggerTime : UInt64} {st : EfiStatus} {events todo : List (Nat × Fin maxEvents)}
  {readings before after : List Reading} {idx : Nat}

/-- A timer that is neither cancelled nor was it never armed. -/
def EventSlot.Armed (slot : EventSlot) : Prop := slot.timerDeadline ≠ 0 ∨ slot.timerPeriod ≠ 0

instance (slot : EventSlot) : Decidable slot.Armed := inferInstanceAs (Decidable (_ ∨ _))

/-- What `condition_met` returns. -/
def EventSlot.ready (slot : EventSlot) (r : Reading) : Bool :=
  match slot.kind with
  | .generic => slot.signaled
  | .timer => slot.Armed ∧ slot.timerDeadline ≤ r.ticks
  | .consoleIn => r.key

/-- The slot after its event was reported. -/
def EventSlot.reported (slot : EventSlot) (r : Reading) : EventSlot :=
  match slot.kind with
  | .generic => { slot with signaled := false }
  | .timer => { slot with timerDeadline := if 0 < slot.timerPeriod then r.ticks + slot.timerPeriod else 0 }
  | .consoleIn => slot

theorem EventSlot.armed_iff {slot : EventSlot} : slot.Armed ↔ ¬ (slot.timerDeadline = 0 ∧ slot.timerPeriod = 0) := by
  rw [Armed, not_and_or]

theorem EventSlot.ready_timer {slot : EventSlot} (hk : slot.kind = .timer) :
    slot.ready r = true ↔ slot.Armed ∧ slot.timerDeadline ≤ r.ticks := by
  rw [ready, hk]
  exact decide_eq_true_iff

theorem EventSlot.reported_generic {slot : EventSlot} (hk : slot.kind = .generic) :
    slot.reported r = { slot with signaled := false } := by rw [reported, hk]

theorem EventSlot.reported_timer {slot : EventSlot} (hk : slot.kind = .timer) : slot.reported r =
    { slot with timerDeadline := if 0 < slot.timerPeriod then r.ticks + slot.timerPeriod else 0 } := by
  rw [reported, hk]

theorem EventSlot.reported_consoleIn {slot : EventSlot} (hk : slot.kind = .consoleIn) : slot.reported r = slot := by
  rw [reported, hk]

@[simp] theorem EventSlot.kind_reported (slot : EventSlot) (r : Reading) : (slot.reported r).kind = slot.kind := by
  unfold reported
  cases hk : slot.kind <;> simp [hk]

@[simp] theorem EventSlot.inUse_reported (slot : EventSlot) (r : Reading) : (slot.reported r).inUse = slot.inUse := by
  unfold reported
  cases hk : slot.kind <;> rfl

/-! ## Tokens -/

theorem eventToIndex_indexToEvent (i : Fin maxEvents) : eventToIndex (indexToEvent i) = some i := by
  have hi : (indexToEvent i).toNat = i + 1 := by
    have : i.val < 16 := i.isLt
    rw [indexToEvent, UInt64.toNat_ofNat']
    omega
  have hne : indexToEvent i ≠ 0 := by
    intro h
    rw [h] at hi
    exact absurd hi (by simp)
  rw [eventToIndex, dif_pos ⟨hne, by rw [hi]; exact i.isLt⟩]
  simp [hi]

theorem eventToIndex_eq_some : eventToIndex e = some i ↔ e = indexToEvent i := by
  constructor
  · intro h
    unfold eventToIndex at h
    split at h
    · rename_i hne
      cases h
      have hpos : e.toNat ≠ 0 := fun h0 => hne.1 (UInt64.toNat_inj.mp h0)
      have hlt := e.toNat_lt
      apply UInt64.toNat_inj.mp
      rw [indexToEvent, UInt64.toNat_ofNat']
      show e.toNat = (e.toNat - 1 + 1) % 2 ^ 64
      omega
    · cases h
  · rintro rfl
    exact eventToIndex_indexToEvent i

/-! ## One test -/

theorem conditionMet_generic (hk : (t.get i).kind = .generic) : conditionMet r t i = ((t.get i).signaled, t) := by
  simp only [conditionMet, hk]

theorem conditionMet_timer (hk : (t.get i).kind = .timer) : conditionMet r t i =
    if (t.get i).Armed ∧ (t.get i).timerDeadline ≤ r.ticks then
      (true, t.set i ((t.get i).reported r))
    else
      (false, t) := by
  simp only [conditionMet, hk, EventSlot.reported_timer hk, EventSlot.armed_iff]
  split
  · rename_i hno
    rw [if_neg fun h => h.1 hno]
  · rename_i harmed
    simp only [harmed, not_false_eq_true, true_and]

theorem conditionMet_of_not_ready (h : (t.get i).ready r = false) : conditionMet r t i = (false, t) := by
  cases hk : (t.get i).kind with
  | generic =>
      rw [EventSlot.ready, hk] at h
      rw [conditionMet_generic hk]
      exact congrArg (·, t) h
  | timer =>
      rw [EventSlot.ready, hk] at h
      rw [conditionMet_timer hk, if_neg (of_decide_eq_false h)]
  | consoleIn =>
      rw [EventSlot.ready, hk] at h
      simp only [conditionMet, hk]
      exact congrArg (·, t) h

theorem conditionMet_of_ready (h : (t.get i).ready r = true) :
    ∃ t', conditionMet r t i = (true, t') ∧ consume t' i = t.set i ((t.get i).reported r) := by
  cases hk : (t.get i).kind with
  | generic =>
      rw [EventSlot.ready, hk] at h
      rw [conditionMet_generic hk]
      exact ⟨t, congrArg (·, t) h, by rw [consume, if_pos hk, EventSlot.reported_generic hk]⟩
  | timer =>
      rw [EventSlot.ready, hk] at h
      rw [conditionMet_timer hk, if_pos (of_decide_eq_true h)]
      refine ⟨_, rfl, ?_⟩
      have hk' : ((t.get i).reported r).kind ≠ .generic := by simp [hk]
      rw [consume, Arr.get_set_self, if_neg hk']
  | consoleIn =>
      rw [EventSlot.ready, hk] at h
      simp only [conditionMet, hk]
      refine ⟨t, congrArg (·, t) h, ?_⟩
      rw [consume, if_neg (by rw [hk]; decide), EventSlot.reported_consoleIn hk]
      simp [Arr.set]

/-- `CheckEvent` on a live event. -/
theorem check_eq (hi : eventToIndex e = some i) (huse : (t.get i).inUse = true) :
    check r t e = if (t.get i).ready r then (.success, t.set i ((t.get i).reported r)) else (.notReady, t) := by
  rw [check, hi]
  dsimp only
  rw [if_pos huse]
  cases h : (t.get i).ready r with
  | false =>
      rw [conditionMet_of_not_ready h]
      rfl
  | true =>
      obtain ⟨t', hmet, hcons⟩ := conditionMet_of_ready h
      rw [hmet, ← hcons]
      rfl

theorem check_eq_success (h : check r t e = (.success, t')) :
    ∃ i, eventToIndex e = some i ∧ (t.get i).inUse = true ∧ (t.get i).ready r = true ∧
      t' = t.set i ((t.get i).reported r) := by
  cases hi : eventToIndex e with
  | none => rw [check, hi] at h; cases h
  | some i =>
      cases huse : (t.get i).inUse with
      | false => simp [check, hi, huse] at h
      | true =>
          rw [check_eq hi huse] at h
          cases hr : (t.get i).ready r with
          | false => rw [hr] at h; cases h
          | true => rw [hr] at h; cases h; exact ⟨i, rfl, huse, hr, rfl⟩

/-- `CheckEvent` rejects exactly the tokens that are not those of a live event, whatever it reads. -/
theorem check_invalid_iff : (check r t e).1 = .invalidParameter ↔ ∀ i, eventToIndex e = some i → (t.get i).inUse = false := by
  cases hi : eventToIndex e with
  | none => simp [check, hi]
  | some i =>
      cases huse : (t.get i).inUse with
      | false => simp [check, hi, huse]
      | true =>
          rw [check_eq hi huse]
          cases (t.get i).ready r <;> simp [huse]

/-! ## Waiting -/

section

variable {todo' : List (Nat × Fin maxEvents)} (hnext : (if todo.isEmpty then events else todo) = (idx, i) :: todo')

include hnext

theorem waitLoop_ready (hr : (t.get i).ready r = true) (rs : List Reading) :
    waitLoop events (r :: rs) todo t = some (idx, t.set i ((t.get i).reported r)) := by
  obtain ⟨t', hmet, hcons⟩ := conditionMet_of_ready hr
  rw [waitLoop, hnext]
  dsimp only
  rw [hmet, ← hcons]

theorem waitLoop_not_ready (hr : (t.get i).ready r = false) (rs : List Reading) :
    waitLoop events (r :: rs) todo t = waitLoop events rs todo' t := by
  rw [waitLoop, hnext]
  dsimp only
  rw [conditionMet_of_not_ready hr]

end

/-- A wait that has ended reads nothing more. -/
theorem waitLoop_append {res : Nat × Table} (h : waitLoop events before todo t = some res) (after : List Reading) :
    waitLoop events (before ++ after) todo t = some res := by
  induction before generalizing todo with
  | nil => cases h
  | cons r before ih =>
      cases hnext : if todo.isEmpty then events else todo with
      | nil => rw [waitLoop, hnext] at h; cases h
      | cons p todo' =>
          cases hr : (t.get p.2).ready r with
          | true =>
              rw [waitLoop_ready hnext hr] at h
              rw [List.cons_append, waitLoop_ready hnext hr, h]
          | false =>
              rw [waitLoop_not_ready hnext hr] at h
              rw [List.cons_append, waitLoop_not_ready hnext hr, ih h]

/-- A wait that ends, ends with one of its readings. -/
theorem waitLoop_ends {res : Nat × Table} (h : waitLoop events readings todo t = some res) :
    ∃ before r after, readings = before ++ r :: after ∧ waitLoop events before todo t = none ∧
      waitLoop events (before ++ [r]) todo t = some res := by
  induction readings using List.reverseRecOn with
  | nil => cases h
  | append_singleton readings r ih =>
      cases hrs : waitLoop events readings todo t with
      | none => exact ⟨readings, r, [], rfl, hrs, h⟩
      | some res' =>
          rw [waitLoop_append hrs] at h
          cases h
          obtain ⟨before, r', after, rfl, hnone, hsome⟩ := ih hrs
          exact ⟨before, r', after ++ [r], by simp, hnone, hsome⟩

theorem mem_next (hsub : ∀ p ∈ todo, p ∈ events) : ∀ p ∈ if todo.isEmpty then events else todo, p ∈ events := by
  intro p hp
  split at hp
  · exact hp
  · exact hsub p hp

/-- The wait ends with the reading `r`: the test found the reported event ready, and reported it. -/
theorem waitLoop_last (hsub : ∀ p ∈ todo, p ∈ events) (hnone : waitLoop events before todo t = none)
    (h : waitLoop events (before ++ [r]) todo t = some (idx, t')) :
    ∃ i, (idx, i) ∈ events ∧ (t.get i).ready r = true ∧ t' = t.set i ((t.get i).reported r) := by
  induction before generalizing todo with
  | nil =>
      cases hnext : if todo.isEmpty then events else todo with
      | nil => rw [List.nil_append, waitLoop, hnext] at h; cases h
      | cons p todo' =>
          have hp : p ∈ events := mem_next hsub p (hnext ▸ List.mem_cons_self)
          cases hr : (t.get p.2).ready r with
          | true =>
              rw [List.nil_append, waitLoop_ready hnext hr] at h
              cases h
              exact ⟨p.2, hp, hr, rfl⟩
          | false =>
              rw [List.nil_append, waitLoop_not_ready hnext hr] at h
              cases h
  | cons r₀ before ih =>
      cases hnext : if todo.isEmpty then events else todo with
      | nil => rw [List.cons_append, waitLoop, hnext] at h; cases h
      | cons p todo' =>
          cases hr : (t.get p.2).ready r₀ with
          | true =>
              rw [waitLoop_ready hnext hr] at hnone
              cases hnone
          | false =>
              rw [waitLoop_not_ready hnext hr] at hnone
              rw [List.cons_append, waitLoop_not_ready hnext hr] at h
              exact ih (fun q hq => mem_next hsub q (hnext ▸ List.mem_cons_of_mem p hq)) hnone h

/-- The first of the tests of a pass that finds its event ready ends the wait. -/
theorem waitLoop_first {rest : List (Nat × Fin maxEvents)} (hlen : todo.length = before.length)
    (hno : ∀ p ∈ todo.zip before, (t.get p.1.2).ready p.2 = false) (hr : (t.get i).ready r = true) (after : List Reading) :
    waitLoop events (before ++ r :: after) (todo ++ (idx, i) :: rest) t = some (idx, t.set i ((t.get i).reported r)) := by
  induction todo generalizing before with
  | nil =>
      cases before with
      | nil => exact waitLoop_ready rfl hr after
      | cons _ _ => cases hlen
  | cons p todo ih =>
      cases before with
      | nil => cases hlen
      | cons r₀ before =>
          have hp : (t.get p.2).ready r₀ = false := hno (p, r₀) List.mem_cons_self
          rw [List.cons_append, waitLoop_not_ready rfl hp]
          exact ih (Nat.succ_inj.mp hlen) fun q hq => hno q (List.mem_cons_of_mem _ hq)

/-- Nothing is left of a pass: the next begins. -/
theorem waitLoop_nil (events : List (Nat × Fin maxEvents)) (rs : List Reading) (t : Table) :
    waitLoop events rs [] t = waitLoop events rs events t := by
  cases rs with
  | nil => rfl
  | cons r rs =>
      cases events with
      | nil => rfl
      | cons p events => rfl

/-- A wait for events that are never ready does not end. -/
theorem waitLoop_never (hno : ∀ p ∈ events, ∀ r ∈ readings, (t.get p.2).ready r = false) (hsub : ∀ p ∈ todo, p ∈ events) :
    waitLoop events readings todo t = none := by
  induction readings generalizing todo with
  | nil => rfl
  | cons r readings ih =>
      have hmem := mem_next hsub
      cases hnext : if todo.isEmpty then events else todo with
      | nil => rw [waitLoop, hnext]
      | cons p todo' =>
          rw [hnext] at hmem
          have hr : (t.get p.2).ready r = false := hno p (hmem p List.mem_cons_self) r List.mem_cons_self
          rw [waitLoop_not_ready hnext hr]
          exact ih (fun p hp r hr => hno p hp r (List.mem_cons_of_mem _ hr)) fun q hq =>
            hmem q (List.mem_cons_of_mem _ hq)

/-! ### The list of tokens -/

theorem mapM_eventToIndex_eq_some {es : List UInt64} {is : List (Fin maxEvents)} :
    es.mapM eventToIndex = some is ↔ es = is.map indexToEvent := by
  induction es generalizing is with
  | nil => cases is <;> simp [List.mapM_nil]
  | cons e es ih =>
      rw [List.mapM_cons]
      constructor
      · intro h
        obtain ⟨i, hi, h⟩ := Option.bind_eq_some_iff.mp h
        obtain ⟨is', his, h⟩ := Option.bind_eq_some_iff.mp h
        cases h
        rw [List.map_cons, ← ih.mp his, eventToIndex_eq_some.mp hi]
      · intro h
        cases is with
        | nil => cases h
        | cons i is =>
            rw [List.map_cons, List.cons.injEq] at h
            rw [eventToIndex_eq_some.mpr h.1, ih.mpr h.2]
            rfl

theorem wait_eq {es : List UInt64} {is : List (Fin maxEvents)} (hne : es ≠ []) (his : es = is.map indexToEvent)
    (readings : List Reading) (t : Table) : wait readings t es =
      (waitLoop ((List.range is.length).zip is) readings [] t).map fun p => (.ok p.1, p.2) := by
  rw [wait, if_neg (by simpa using hne), mapM_eventToIndex_eq_some.mpr his]

theorem mem_zip_range {is : List (Fin maxEvents)} : (idx, i) ∈ (List.range is.length).zip is ↔ is[idx]? = some i := by
  rw [List.mem_iff_getElem?]
  constructor
  · rintro ⟨k, hk⟩
    obtain ⟨hx, hi⟩ := List.getElem?_zip_eq_some.mp hk
    obtain ⟨hlt, hx⟩ := List.getElem?_eq_some_iff.mp hx
    rw [List.getElem_range] at hx
    cases hx
    exact hi
  · intro hi
    obtain ⟨hlt, _⟩ := List.getElem?_eq_some_iff.mp hi
    exact ⟨idx, List.getElem?_zip_eq_some.mpr ⟨List.getElem?_range hlt, hi⟩⟩

theorem wait_error {es : List UInt64} (h : wait readings t es = some (.error st, t')) : st = .invalidParameter ∧ t' = t := by
  unfold wait at h
  split at h
  · cases h; exact ⟨rfl, rfl⟩
  · split at h
    · cases h; exact ⟨rfl, rfl⟩
    · obtain ⟨_, _, h⟩ := Option.map_eq_some_iff.mp h
      cases h

/-- A wait that ended with an index was the loop over the slots of its tokens. -/
theorem wait_ok {es : List UInt64} (h : wait readings t es = some (.ok idx, t')) :
    ∃ is : List (Fin maxEvents), es ≠ [] ∧ es = is.map indexToEvent ∧
      waitLoop ((List.range is.length).zip is) readings [] t = some (idx, t') := by
  cases hne : es with
  | nil => rw [hne] at h; cases h
  | cons e es' =>
      have hne' : e :: es' ≠ [] := by simp
      rw [hne] at h
      cases hm : (e :: es').mapM eventToIndex with
      | none => rw [wait, hm] at h; cases h
      | some is =>
          have his := mapM_eventToIndex_eq_some.mp hm
          rw [wait_eq hne' his] at h
          obtain ⟨⟨_, _⟩, hloop, h⟩ := Option.map_eq_some_iff.mp h
          cases h
          exact ⟨is, hne', his, hloop⟩

/-- A wait that ended with an index ended with one of its readings. -/
theorem wait_ends {es : List UInt64} (h : wait readings t es = some (.ok idx, t')) :
    ∃ before r after, readings = before ++ r :: after ∧ wait before t es = none ∧
      wait (before ++ [r]) t es = some (.ok idx, t') := by
  obtain ⟨is, hne, his, hloop⟩ := wait_ok h
  obtain ⟨before, r, after, hsplit, hnone, hlast⟩ := waitLoop_ends hloop
  refine ⟨before, r, after, hsplit, ?_, ?_⟩
  · rw [wait_eq hne his, hnone]
    rfl
  · rw [wait_eq hne his, hlast]
    rfl

/-- The reading with which a wait ended found the event at its index ready. -/
theorem wait_last {es : List UInt64} (hnone : wait before t es = none)
    (h : wait (before ++ [r]) t es = some (.ok idx, t')) :
    ∃ i, es[idx]? = some (indexToEvent i) ∧ (t.get i).ready r = true ∧ t' = t.set i ((t.get i).reported r) := by
  obtain ⟨is, hne, his, hloop⟩ := wait_ok h
  rw [wait_eq hne his, Option.map_eq_none_iff] at hnone
  obtain ⟨i, hmem, hr, heq⟩ := waitLoop_last (by simp) hnone hloop
  refine ⟨i, ?_, hr, heq⟩
  rw [his, List.getElem?_map, mem_zip_range.mp hmem]
  rfl

/-- The first event of the list that is found ready in the first pass ends the wait. -/
theorem wait_first {es : List UInt64} {is : List (Fin maxEvents)} (his : es = is.map indexToEvent)
    (hi : is[before.length]? = some i) (hno : ∀ p ∈ is.zip before, (t.get p.1).ready p.2 = false)
    (hr : (t.get i).ready r = true) (after : List Reading) :
    wait (before ++ r :: after) t es = some (.ok before.length, t.set i ((t.get i).reported r)) := by
  obtain ⟨hlt, hget⟩ := List.getElem?_eq_some_iff.mp hi
  have hne : es ≠ [] := by
    rintro rfl
    cases is with
    | nil => cases hlt
    | cons _ _ => cases his
  have hzip : before.length < ((List.range is.length).zip is).length := by simpa using hlt
  have hsplit : (List.range is.length).zip is = ((List.range is.length).zip is).take before.length ++
      (before.length, i) :: ((List.range is.length).zip is).drop (before.length + 1) := by
    have hat : ((List.range is.length).zip is)[before.length] = (before.length, i) := by simp [hget]
    rw [← hat, List.getElem_cons_drop, List.take_append_drop]
  have hno' : ∀ p ∈ (((List.range is.length).zip is).take before.length).zip before,
      (t.get p.1.2).ready p.2 = false := by
    intro p hp
    obtain ⟨m, hm⟩ := List.mem_iff_getElem?.mp hp
    obtain ⟨hx, hb⟩ := List.getElem?_zip_eq_some.mp hm
    rw [List.getElem?_take] at hx
    split at hx
    · exact hno (p.1.2, p.2) (List.mem_iff_getElem?.mpr
        ⟨m, List.getElem?_zip_eq_some.mpr ⟨(List.getElem?_zip_eq_some.mp hx).2, hb⟩⟩)
    · cases hx
  rw [wait_eq hne his, waitLoop_nil]
  nth_rewrite 2 [hsplit]
  rw [waitLoop_first (List.length_take_of_le hzip.le) hno' hr]
  rfl

end Events

end Ferro
