import Ferro.Usb.Enumeration

/-!
# The descriptors of a configuration (`find_hid_keyboard_endpoint`)

A configuration is a sequence of descriptors, each with its length in the first byte and its type in the second. The scan
goes by the lengths, up to one that cannot be right.
-/

namespace Ferro.Usb

/-- A descriptor, as far as the scan can tell. -/
def Framed (d : List UInt8) : Prop := 0 < d.length ∧ (d.getD 0 0).toNat = d.length

/-- The rest at which the scan ends: too short, or with a length that is zero or too large. -/
def Unframed (rest : List UInt8) : Prop :=
  rest.length < 2 ∨ (rest.getD 0 0).toNat = 0 ∨ rest.length < (rest.getD 0 0).toNat

def IsInterface (d : List UInt8) : Prop := d.getD 1 0 = 4 ∧ 9 ≤ d.length

/-- Class 3, subclass 1, protocol 1. -/
def IsBootKeyboard (d : List UInt8) : Prop := d.getD 5 0 = 3 ∧ d.getD 6 0 = 1 ∧ d.getD 7 0 = 1

/-- An endpoint descriptor, for the direction to the host. -/
def IsInEndpoint (d : List UInt8) : Prop := d.getD 1 0 = 5 ∧ 7 ≤ d.length ∧ d.getD 2 0 &&& 0x80 ≠ 0

instance (d : List UInt8) : Decidable (IsInterface d) := inferInstanceAs (Decidable (_ ∧ _))

instance (d : List UInt8) : Decidable (IsBootKeyboard d) := inferInstanceAs (Decidable (_ ∧ _))

instance (d : List UInt8) : Decidable (IsInEndpoint d) := inferInstanceAs (Decidable (_ ∧ _))

/-- The number and the maximum packet size. -/
def endpoint (d : List UInt8) : UInt32 × Nat := ((d.getD 2 0 &&& 0x0F).toUInt32, (le16At d 4).toNat)

/-- The last interface descriptor is that of a boot keyboard. -/
def InKeyboard (ds : List (List UInt8)) : Prop :=
  ((ds.filter fun d => IsInterface d).getLast?.any fun d => IsBootKeyboard d) = true

instance (ds : List (List UInt8)) : Decidable (InKeyboard ds) := inferInstanceAs (Decidable (_ = true))

/-- The descriptor at place `k` is an endpoint to the host, of the interface of a boot keyboard. -/
def IsKeyboardEndpoint (ds : List (List UInt8)) (k : Nat) : Prop :=
  InKeyboard (ds.take k) ∧ ∃ d, ds[k]? = some d ∧ IsInEndpoint d

/-! ## The scan by descriptors -/

/-- The scan over whole descriptors. -/
def scan : (inKeyboardInterface : Bool) → List (List UInt8) → Option (UInt32 × Nat)
  | _, [] => none
  | inKeyboardInterface, d :: ds =>
    if IsInterface d then scan (IsBootKeyboard d) ds
    else if inKeyboardInterface ∧ IsInEndpoint d then some (endpoint d)
    else scan inKeyboardInterface ds

variable {d rest front : List UInt8} {ds : List (List UInt8)} {cfg : List UInt8}

theorem getD_middle (front rest : List UInt8) {j : Nat} (hj : j < d.length) :
    (front ++ (d ++ rest)).getD (front.length + j) 0 = d.getD j 0 := by
  rw [List.getD_eq_getElem?_getD, List.getD_eq_getElem?_getD, List.getElem?_append_right (Nat.le_add_right _ _),
    Nat.add_sub_cancel_left, List.getElem?_append_left hj]

theorem scan_of_flatten_nil (hds : ∀ d ∈ ds, Framed d) (h : ds.flatten = []) (inKeyboard : Bool) :
    scan inKeyboard ds = none := by
  cases ds with
  | nil => rfl
  | cons d ds =>
      have hpos := (hds d List.mem_cons_self).1
      rw [List.flatten_cons, List.append_eq_nil_iff] at h
      rw [h.1] at hpos
      exact absurd hpos (Nat.lt_irrefl 0)

/-- The rounds of the loop are the descriptors. -/
theorem findEndpointLoop_eq (hds : ∀ d ∈ ds, Framed d) (hrest : Unframed rest) {fuel : Nat} (hfuel : ds.length ≤ fuel)
    (front : List UInt8) (inKeyboard : Bool) :
    findEndpointLoop (front ++ (ds.flatten ++ rest)) fuel front.length inKeyboard = scan inKeyboard ds := by
  induction ds generalizing fuel front inKeyboard with
  | nil =>
      cases fuel with
      | zero => rfl
      | succ fuel =>
          have hhead : (front ++ rest).getD front.length 0 = rest.getD 0 0 := by
            rw [List.getD_eq_getElem?_getD, List.getElem?_append_right (Nat.le_refl _), Nat.sub_self,
              ← List.getD_eq_getElem?_getD]
          rw [List.flatten_nil, List.nil_append, findEndpointLoop, hhead, List.length_append]
          refine if_pos ?_
          rcases hrest with h | h | h
          · exact .inl (by omega)
          · exact .inr (.inl h)
          · exact .inr (.inr (by omega))
  | cons d ds ih =>
      obtain ⟨hpos, hlen⟩ := hds d List.mem_cons_self
      have hrests : ∀ d ∈ ds, Framed d := fun x hx => hds x (List.mem_cons_of_mem _ hx)
      obtain ⟨fuel, rfl⟩ : ∃ k, fuel = k + 1 := ⟨fuel - 1, by simp only [List.length_cons] at hfuel; omega⟩
      have hfuel : ds.length ≤ fuel := Nat.le_of_succ_le_succ hfuel
      have hassoc : front ++ ((d :: ds).flatten ++ rest) = front ++ (d ++ (ds.flatten ++ rest)) := by
        rw [List.flatten_cons, List.append_assoc]
      have hbyte {j : Nat} (hj : j < d.length) := getD_middle front (ds.flatten ++ rest) hj
      have hnext (b : Bool) : findEndpointLoop (front ++ (d ++ (ds.flatten ++ rest))) fuel (front.length + d.length) b =
          scan b ds := by
        rw [← List.append_assoc, ← List.length_append]
        exact ih hrests hfuel (front ++ d) b
      have hfirst := hbyte hpos
      rw [Nat.add_zero] at hfirst
      have htotal : (front ++ (d ++ (ds.flatten ++ rest))).length =
          front.length + d.length + (ds.flatten.length + rest.length) := by
        simp only [List.length_append, Nat.add_assoc]
      rw [hassoc, findEndpointLoop, hfirst, hlen, scan]
      dsimp only
      by_cases hshort : d.length = 1
      · -- a descriptor of one byte is skipped, or it is the last byte
        have hface : ¬ IsInterface d := fun h => by have := h.2; omega
        have hin : ¬ (inKeyboard = true ∧ IsInEndpoint d) := fun h => by have := h.2.2.1; omega
        rw [if_neg hface, if_neg hin]
        split
        · next hend =>
          have hnil : ds.flatten.length = 0 := by omega
          exact (scan_of_flatten_nil hrests (List.eq_nil_of_length_eq_zero hnil) inKeyboard).symm
        · rw [if_neg fun h => absurd h.2 (by omega), if_neg fun h => absurd h.2.1 (by omega)]
          exact hnext inKeyboard
      · rw [if_neg (by omega), hbyte (show 1 < d.length by omega)]
        by_cases hface : d.getD 1 0 = 4 ∧ 9 ≤ d.length
        · have hnine := hface.2
          rw [if_pos hface, if_pos (show IsInterface d from hface), hbyte (show 5 < d.length by omega),
            hbyte (show 6 < d.length by omega), hbyte (show 7 < d.length by omega)]
          exact hnext _
        · rw [if_neg hface, if_neg (show ¬ IsInterface d from hface)]
          by_cases hseven : 7 ≤ d.length
          · rw [le16At, Nat.add_assoc, hbyte (show 2 < d.length by omega), hbyte (show 4 < d.length by omega),
              hbyte (show 4 + 1 < d.length by omega), hnext inKeyboard]
            refine if_congr ?_ rfl rfl
            exact ⟨fun h => ⟨h.2.2.1, h.1, h.2.1, h.2.2.2⟩, fun h => ⟨h.2.1, h.2.2.1, h.1, h.2.2.2⟩⟩
          · rw [if_neg fun h => hseven h.2.1, if_neg fun h => hseven h.2.2.1]
            exact hnext inKeyboard

/-! ## What is found -/

theorem inKeyboard_concat (before : List (List UInt8)) (d : List UInt8) :
    InKeyboard (before ++ [d]) ↔ if IsInterface d then IsBootKeyboard d else InKeyboard before := by
  by_cases hface : IsInterface d
  · simp [InKeyboard, hface]
  · simp [InKeyboard, hface]

theorem not_isInterface (h : IsInEndpoint d) : ¬ IsInterface d := by
  intro hface
  have hfive := h.1
  rw [hface.1] at hfive
  exact absurd hfive (by decide)

/-- One descriptor. -/
theorem scan_cons (before : List (List UInt8)) (d : List UInt8) (ds : List (List UInt8)) :
    scan (InKeyboard before) (d :: ds) = if InKeyboard before ∧ IsInEndpoint d then some (endpoint d)
      else scan (InKeyboard (before ++ [d])) ds := by
  rw [scan]
  by_cases hface : IsInterface d
  · have hkeyboard : decide (InKeyboard (before ++ [d])) = decide (IsBootKeyboard d) := by
      rw [decide_eq_decide, inKeyboard_concat, if_pos hface]
    rw [if_pos hface, if_neg fun h => not_isInterface h.2 hface, hkeyboard]
  · have hkeyboard : decide (InKeyboard (before ++ [d])) = decide (InKeyboard before) := by
      rw [decide_eq_decide, inKeyboard_concat, if_neg hface]
    rw [if_neg hface, hkeyboard]
    exact if_congr (and_congr_left fun _ => decide_eq_true_iff) rfl rfl

/-- The first place counts. -/
theorem scan_eq_some {r : UInt32 × Nat} {before : List (List UInt8)} : scan (InKeyboard before) ds = some r ↔
    ∃ k d, ds[k]? = some d ∧ InKeyboard (before ++ ds.take k) ∧ IsInEndpoint d ∧ endpoint d = r ∧
      ∀ j < k, ∀ d', ds[j]? = some d' → ¬ (InKeyboard (before ++ ds.take j) ∧ IsInEndpoint d') := by
  induction ds generalizing before with
  | nil => simp [scan]
  | cons d ds ih =>
      rw [scan_cons]
      by_cases hhit : InKeyboard before ∧ IsInEndpoint d
      · rw [if_pos hhit, Option.some_inj]
        constructor
        · rintro rfl
          exact ⟨0, d, rfl, by simpa using hhit.1, hhit.2, rfl, fun j hj => absurd hj (Nat.not_lt_zero j)⟩
        · rintro ⟨k, d', hd', -, -, hr, hfirst⟩
          cases k with
          | zero =>
              cases hd'
              exact hr
          | succ k => exact absurd (by simpa using hhit) (hfirst 0 (Nat.succ_pos k) d rfl)
      · rw [if_neg hhit, ih]
        constructor
        · rintro ⟨k, d', hd', hin, hend, hr, hfirst⟩
          refine ⟨k + 1, d', hd', by simpa using hin, hend, hr, fun j hj x hx => ?_⟩
          cases j with
          | zero =>
              cases hx
              simpa using hhit
          | succ j => simpa using hfirst j (Nat.lt_of_succ_lt_succ hj) x hx
        · rintro ⟨k, d', hd', hin, hend, hr, hfirst⟩
          cases k with
          | zero =>
              cases hd'
              exact absurd ⟨by simpa using hin, hend⟩ hhit
          | succ k =>
              refine ⟨k, d', hd', by simpa using hin, hend, hr, fun j hj x hx => ?_⟩
              simpa using hfirst (j + 1) (Nat.succ_lt_succ hj) x hx

/-- Every configuration is made of descriptors, up to a rest at which the scan ends. -/
theorem exists_descriptors (cfg : List UInt8) :
    ∃ ds rest, cfg = List.flatten ds ++ rest ∧ (∀ d ∈ ds, Framed d) ∧ Unframed rest := by
  induction hn : cfg.length using Nat.strong_induction_on generalizing cfg with
  | h n ih =>
      by_cases hend : Unframed cfg
      · exact ⟨[], cfg, rfl, fun d hd => absurd hd List.not_mem_nil, hend⟩
      · rw [Unframed, not_or, not_or, Nat.not_lt, Nat.not_lt] at hend
        obtain ⟨htwo, hpos, hle⟩ := hend
        obtain ⟨ds, rest, hdrop, hds, hrest⟩ := ih (cfg.drop (cfg.getD 0 0).toNat).length
          (by rw [List.length_drop]; omega) _ rfl
        have htake : (cfg.take (cfg.getD 0 0).toNat).length = (cfg.getD 0 0).toNat := List.length_take_of_le hle
        refine ⟨cfg.take (cfg.getD 0 0).toNat :: ds, rest, ?_, fun d hd => ?_, hrest⟩
        · rw [List.flatten_cons, List.append_assoc, ← hdrop, List.take_append_drop]
        · rcases List.mem_cons.mp hd with rfl | hd
          · refine ⟨by omega, ?_⟩
            rw [htake, List.getD_eq_getElem?_getD, List.getElem?_take_of_lt (Nat.pos_of_ne_zero hpos),
              ← List.getD_eq_getElem?_getD]
          · exact hds d hd

theorem length_le_length_flatten (hds : ∀ d ∈ ds, Framed d) : ds.length ≤ ds.flatten.length := by
  induction ds with
  | nil => exact Nat.le_refl 0
  | cons d ds ih =>
      have hpos := (hds d List.mem_cons_self).1
      have hle := ih fun x hx => hds x (List.mem_cons_of_mem _ hx)
      rw [List.flatten_cons, List.length_append, List.length_cons]
      omega

/-- What the scan finds in any bytes. -/
theorem findHidKeyboardEndpoint_eq_some (hds : ∀ d ∈ ds, Framed d) (hrest : Unframed rest) {r : UInt32 × Nat} :
    findHidKeyboardEndpoint (ds.flatten ++ rest) = some r ↔
      ∃ k d, ds[k]? = some d ∧ IsKeyboardEndpoint ds k ∧ endpoint d = r ∧ ∀ j < k, ¬ IsKeyboardEndpoint ds j := by
  have hle : ds.length ≤ (ds.flatten ++ rest).length := by
    have := length_le_length_flatten hds
    rw [List.length_append]
    omega
  have hnone : ¬ InKeyboard [] := by simp [InKeyboard]
  have hscan : findHidKeyboardEndpoint (ds.flatten ++ rest) = scan (InKeyboard []) ds := by
    rw [decide_eq_false hnone]
    exact findEndpointLoop_eq hds hrest hle [] false
  rw [hscan, scan_eq_some]
  simp only [List.nil_append]
  constructor
  · rintro ⟨k, d, hd, hin, hend, hr, hfirst⟩
    exact ⟨k, d, hd, ⟨hin, d, hd, hend⟩, hr, fun j hj ⟨hin', d', hd', hend'⟩ => hfirst j hj d' hd' ⟨hin', hend'⟩⟩
  · rintro ⟨k, d, hd, ⟨hin, d₁, hd₁, hend⟩, hr, hfirst⟩
    rw [hd] at hd₁
    cases hd₁
    exact ⟨k, d, hd, hin, hend, hr, fun j hj d' hd' h => hfirst j hj ⟨h.1, d', hd', h.2⟩⟩

end Ferro.Usb
