import Ferro.Usb.Enumeration

/-!
# The addresses of the devices

Every device behind the hub is given the address 2. They are told apart only while no more than one of them takes it.
-/

namespace Ferro.Usb

open Traced (Triple)

/-! ## The addresses, and which were given -/

/-- What the bus knows of addresses. -/
structure Table where
  address : Nat → Option UInt32
  given : List (Nat × UInt32)

def Bus.table (b : Bus) : Table := ⟨b.address, given b.trace⟩

/-- The ports from `k` on have not been reset; who is at an address other than 0 was given it, and keeps it; and a device
behind the hub was given no other than 2. -/
structure Table.Sound (k : Nat) (t : Table) : Prop where
  fresh : ∀ d, k ≤ d → t.address d = none
  tracks : ∀ d a, a ≠ 0 → (t.address d = some a ↔ (d, a) ∈ t.given)
  form : ∀ x ∈ t.given, x = (0, 1) ∨ (x.1 ≠ 0 ∧ x.2 = 2)

/-- Who is at address 0 may be given the address. -/
def Table.Free (addr : UInt32) (t : Table) : Prop := ∀ d, t.address d = some 0 → (d, addr) = (0, 1) ∨ (d ≠ 0 ∧ addr = 2)

/-- The reset of a port. -/
def Table.reset (t : Table) (k : Nat) : Table := { t with address := Function.update t.address k (some 0) }

/-- SET_ADDRESS, as answered by the given devices. -/
def Table.assign (t : Table) (ds : List Nat) (addr : UInt32) : Table :=
  ⟨fun d => if d ∈ ds then some addr else t.address d, t.given ++ ds.map fun d => (d, addr)⟩

variable {pop : Population} {b : Bus} {req : Request} {ds : List Nat} {k : Nat} {t : Table} {addr : UInt32}

theorem given_append (l l' : List Exchange) : given (l ++ l') = given l ++ given l' := by
  simp [given]

theorem given_single_of_not (h : ¬ req.IsSetAddress) : given [⟨addr, req, ds⟩] = [] := by
  simp [given, h]

theorem given_single (h : req.IsSetAddress) :
    given [⟨addr, req, ds⟩] = ds.map fun d => (d, req.value.toUInt32) := by
  simp [given, h]

theorem Table.Sound.mono (h : t.Sound k) : t.Sound (k + 1) :=
  { h with fresh := fun d hd => h.fresh d (by omega) }

theorem Table.Sound.reset (h : t.Sound k) : (t.reset k).Sound (k + 1) where
  fresh d hd := by
    dsimp only [Table.reset]
    rw [Function.update_of_ne (by omega)]
    exact h.fresh d (by omega)
  tracks d a ha := by
    dsimp only [Table.reset]
    by_cases hd : d = k
    · subst hd
      rw [Function.update_self, ← h.tracks d a ha, h.fresh d (Nat.le_refl d)]
      simpa using ha.symm
    · rw [Function.update_of_ne hd]
      exact h.tracks d a ha
  form := h.form

theorem Table.Sound.assign (h : t.Sound k) (hfree : t.Free addr) (hds : ∀ d ∈ ds, t.address d = some 0) :
    (t.assign ds addr).Sound k where
  fresh d hd := by
    have hnot : d ∉ ds := fun hmem => by simpa [h.fresh d hd] using hds d hmem
    simp only [Table.assign, if_neg hnot, h.fresh d hd]
  tracks d a ha := by
    simp only [Table.assign, List.mem_append, List.mem_map, Prod.mk.injEq]
    by_cases hd : d ∈ ds
    · have hnot : (d, a) ∉ t.given := fun hmem => by
        have hat := (h.tracks d a ha).mpr hmem
        rw [hds d hd] at hat
        exact ha (Option.some.inj hat).symm
      rw [if_pos hd]
      constructor
      · intro heq
        exact .inr ⟨d, hd, rfl, Option.some.inj heq⟩
      · rintro (hmem | ⟨_, -, -, rfl⟩)
        · exact absurd hmem hnot
        · rfl
    · rw [if_neg hd, h.tracks d a ha]
      refine ⟨.inl, ?_⟩
      rintro (hmem | ⟨_, hmem, rfl, -⟩)
      · exact hmem
      · exact absurd hmem hd
  form x hx := by
    rcases List.mem_append.mp hx with hx | hx
    · exact h.form x hx
    · obtain ⟨d, hd, rfl⟩ := List.mem_map.mp hx
      exact hfree d (hds d hd)

/-! ## What a request does to them -/

/-- The bus behind a request that the given devices answer. -/
def Bus.after (pop : Population) (b : Bus) (addr : UInt32) (req : Request) (ds : List Nat) : Bus :=
  ⟨b.addressAfter pop req ds, b.trace ++ [⟨addr, req, ds⟩]⟩

theorem table_after_setAddress (h : req.IsSetAddress) :
    (b.after pop addr req ds).table = b.table.assign ds req.value.toUInt32 := by
  simp only [Bus.after, Bus.table, Bus.addressAfter, if_pos h, given_append, given_single h, Table.assign]

theorem table_after_plain (h : ¬ req.IsSetAddress) (h' : ¬ req.IsPortReset) : (b.after pop addr req ds).table = b.table := by
  simp [Bus.after, Bus.table, Bus.addressAfter, h, h', given_append, given_single_of_not]

theorem table_after_portReset (h : req.IsPortReset) :
    (b.after pop addr req ds).table = b.table ∨ (b.after pop addr req ds).table = b.table.reset req.index.toNat := by
  have hnot : ¬ req.IsSetAddress := fun hset => absurd (hset.1.symm.trans h.1) (by decide)
  simp only [Bus.after, Bus.table, Bus.addressAfter, if_neg hnot, given_append, given_single_of_not hnot,
    List.append_nil]
  split
  · exact .inr rfl
  · exact .inl rfl

theorem mem_answering {dev : Device} {d : Nat} (h : d ∈ b.answering pop dev.addr req) : b.address d = some dev.addr :=
  (of_decide_eq_true (List.mem_filter.mp h).2).1

section

variable {dev : Device} {requestType request : UInt8} {value index : UInt16} {length : Nat} {I : Bus → Prop}

theorem triple_controlTransfer {J : Except HidError (List UInt8) → Bus → Prop}
    (hok : ∀ b bytes, I b → b.answering pop dev.addr ⟨requestType, request, value, index, length⟩ ≠ [] →
      J (.ok bytes) (b.after pop dev.addr ⟨requestType, request, value, index, length⟩
        (b.answering pop dev.addr ⟨requestType, request, value, index, length⟩)))
    (herr : ∀ b e, I b → J (.error e) (b.after pop dev.addr ⟨requestType, request, value, index, length⟩ [])) :
    Triple I (controlTransfer pop dev requestType request value index length) J := by
  intro b r b' hb hrun
  simp only [controlTransfer, Traced.runs, ExceptT.run, ExceptT.mk, StateT.run] at hrun
  split at hrun
  · next hnone =>
    have hnil : b.answering pop dev.addr ⟨requestType, request, value, index, length⟩ = [] := by
      by_contra hne
      have hlt := Nat.mod_lt (pop.heard b.trace) (List.length_pos_iff.mpr hne)
      exact absurd (List.getElem?_eq_none_iff.mp hnone) (by omega)
    rw [hnil] at hrun
    cases hrun
    exact herr b _ hb
  · next d hsome =>
    cases hrun
    exact hok b _ hb fun hnil => by simp [hnil] at hsome

/-- A request that is neither SET_ADDRESS nor the reset of a port. -/
theorem triple_plain {I : Table → Prop} (hset : ¬ (requestType = 0x00 ∧ request = reqSetAddress))
    (hreset : ¬ (requestType = 0x23 ∧ request = reqSetFeature ∧ value = portFeatureReset)) :
    Triple (fun b => I b.table) (controlTransfer pop dev requestType request value index length) fun _ b => I b.table := by
  have hplain (b : Bus) (ds : List Nat) :
      (b.after pop dev.addr ⟨requestType, request, value, index, length⟩ ds).table = b.table :=
    table_after_plain hset hreset
  exact triple_controlTransfer (fun b _ hb _ => by rwa [hplain]) fun b _ hb => by rwa [hplain]

end

/-! ## The driver -/

variable {dev : Device} {I : Table → Prop} {speed : Speed} {port : UInt16}

/-- The property holds whether the program fails or not. -/
def Keeps {α : Type} (I : Table → Prop) (x : Driver α) : Prop := Triple (fun b => I b.table) x fun _ b => I b.table

theorem keeps_getDeviceDescriptor {length : Nat} : Keeps I (getDeviceDescriptor pop dev length) :=
  triple_plain (fun h => absurd h.1 (by decide)) fun h => absurd h.1 (by decide)

theorem keeps_getConfigurationDescriptor {length : Nat} : Keeps I (getConfigurationDescriptor pop dev length) :=
  triple_plain (fun h => absurd h.1 (by decide)) fun h => absurd h.1 (by decide)

theorem keeps_hubGetDescriptor {length : Nat} : Keeps I (hubGetDescriptor pop dev length) :=
  triple_plain (fun h => absurd h.1 (by decide)) fun h => absurd h.1 (by decide)

theorem keeps_setConfiguration {config : UInt8} : Keeps I (setConfiguration pop dev config) :=
  (triple_plain (fun h => absurd h.2 (by decide)) fun h => absurd h.1 (by decide)).keeps_bind fun _ => .pure fun _ h => h

theorem keeps_hubGetPortStatus : Keeps I (hubGetPortStatus pop dev port) :=
  (triple_plain (fun h => absurd h.1 (by decide)) fun h => absurd h.1 (by decide)).keeps_bind fun _ => .pure fun _ h => h

theorem keeps_hubClearPortFeature {feature : UInt16} : Keeps I (hubClearPortFeature pop dev port feature) :=
  (triple_plain (fun h => absurd h.1 (by decide)) fun h => absurd h.2.1 (by decide)).keeps_bind fun _ => .pure fun _ h => h

theorem keeps_powerPort : Keeps I (hubSetPortFeature pop dev port portFeaturePower) :=
  (triple_plain (fun h => absurd h.1 (by decide)) fun h => absurd h.2.2 (by decide)).keeps_bind fun _ => .pure fun _ h => h

/-- The reset of a port resets that port at most. -/
theorem triple_resetPort {I' : Table → Prop} (hI : ∀ t, I t → I' t) (hreset : ∀ t, I t → I' (t.reset port.toNat)) :
    Triple (fun b => I b.table) (hubSetPortFeature pop dev port portFeatureReset) fun _ b => I' b.table := by
  have hstep (b : Bus) (ds : List Nat) (hb : I b.table) :
      I' (b.after pop dev.addr ⟨0x23, reqSetFeature, portFeatureReset, port, 0⟩ ds).table := by
    have hreq : (⟨0x23, reqSetFeature, portFeatureReset, port, 0⟩ : Request).IsPortReset := ⟨rfl, rfl, rfl⟩
    rcases table_after_portReset hreq with h | h <;> rw [h]
    · exact hI _ hb
    · exact hreset _ hb
  exact Triple.bind (J := fun _ b => I' b.table)
    (triple_controlTransfer (fun b _ hb _ => hstep b _ hb) fun b _ hb => hstep b _ hb) (fun _ _ h => h)
    fun _ => .pure fun _ h => h

theorem triple_hubPowerAndResetPort {I' : Table → Prop} (hI : ∀ t, I t → I' t)
    (hreset : ∀ t, I t → I' (t.reset port.toNat)) :
    Triple (fun b => I b.table) (hubPowerAndResetPort pop dev port) fun _ b => I' b.table := by
  refine keeps_powerPort.bind (fun _ b h => hI _ h) fun _ => ?_
  refine keeps_hubGetPortStatus.bind (fun _ b h => hI _ h) fun status => ?_
  split
  · exact .pure fun b h => hI _ h
  · refine (triple_resetPort hI hreset).bind (fun _ _ h => h) fun _ => ?_
    refine keeps_hubClearPortFeature.attempt fun _ => ?_
    refine keeps_hubClearPortFeature.attempt fun _ => ?_
    exact keeps_hubGetPortStatus.keeps_bind fun _ => .pure fun _ h => h

/-- SET_ADDRESS succeeds only if a device takes the address. -/
theorem triple_setAddress (hdev : dev.addr = 0) (haddr : addr.toUInt16.toUInt32 = addr)
    (hassign : ∀ t ds, I t → (∀ d ∈ ds, t.address d = some 0) → I (t.assign ds addr)) :
    Triple (fun b => I b.table) (setAddress pop dev addr) fun r b => I b.table ∧
      ∀ dev', r = .ok dev' → dev' = { dev with addr } ∧ ∃ d, (d, addr) ∈ b.table.given := by
  have hset : (⟨0x00, reqSetAddress, addr.toUInt16, 0, 0⟩ : Request).IsSetAddress := ⟨rfl, rfl⟩
  refine Triple.bind (J := fun r b => I b.table ∧ ∀ bytes, r = .ok bytes → ∃ d, (d, addr) ∈ b.table.given)
    (triple_controlTransfer (fun b bytes hb hne => ?_) fun b e hb => ?_)
    (fun e b h => ⟨h.1, fun _ he => by cases he⟩) fun bytes => .pure fun b h => ⟨h.1, fun dev' he => ?_⟩
  · rw [table_after_setAddress hset, haddr]
    refine ⟨hassign _ _ hb fun d hd => hdev ▸ mem_answering hd, fun _ _ => ?_⟩
    obtain ⟨d, hd⟩ := List.exists_mem_of_ne_nil _ hne
    exact ⟨d, List.mem_append_right _ (List.mem_map.mpr ⟨d, hd, rfl⟩)⟩
  · rw [table_after_setAddress hset, haddr]
    exact ⟨hassign _ _ hb fun d hd => absurd hd List.not_mem_nil, fun _ he => by cases he⟩
  · cases he
    exact ⟨rfl, h.2 bytes rfl⟩

/-- A keyboard that is found is at its address. -/
def Found (addr : UInt32) (r : Except HidError Keyboard) (t : Table) : Prop :=
  ∀ kbd, r = .ok kbd → kbd.dev.addr = addr ∧ ∃ d, (d, addr) ∈ t.given

theorem triple_enumerateAsKeyboard (haddr : addr.toUInt16.toUInt32 = addr)
    (hassign : ∀ t ds, I t → (∀ d ∈ ds, t.address d = some 0) → I (t.assign ds addr)) :
    Triple (fun b => I b.table) (enumerateAsKeyboard pop speed addr) fun r b => I b.table ∧ Found addr r b.table := by
  have herr {e : HidError} {t : Table} : Found addr (.error e) t := fun _ h => by cases h
  refine keeps_getDeviceDescriptor.bind (fun _ b h => ⟨h, herr⟩) fun desc => ?_
  refine (triple_setAddress rfl haddr hassign).bind (fun _ b h => ⟨h.1, herr⟩) fun dev' => ?_
  -- what holds from here on
  let P (t : Table) : Prop := dev'.addr = addr ∧ I t ∧ ∃ d, (d, addr) ∈ t.given
  refine Triple.mono (I := fun b => P b.table) ?_ (fun b h => ?_) fun _ _ h => h
  · refine (keeps_getConfigurationDescriptor (I := P)).bind (fun _ b h => ⟨h.2.1, herr⟩) fun cfgHdr => ?_
    refine (keeps_getConfigurationDescriptor (I := P)).bind (fun _ b h => ⟨h.2.1, herr⟩) fun cfg => ?_
    split
    · exact .throw fun b h => ⟨h.2.1, herr⟩
    · refine (keeps_setConfiguration (I := P)).bind (fun _ b h => ⟨h.2.1, herr⟩) fun _ => .pure fun b h => ?_
      refine ⟨h.2.1, fun kbd he => ?_⟩
      cases he
      exact ⟨h.1, h.2.2⟩
  · obtain ⟨rfl, hd⟩ := h.2 dev' rfl
    exact ⟨rfl, h.1, hd⟩

/-! ## The search -/

/-- The hub has its address, and the ports from `k` on have not been reset. -/
def HubUp (k : Nat) (t : Table) : Prop := t.Sound k ∧ (0, 1) ∈ t.given

theorem HubUp.assign {t : Table} (h : HubUp k t) (hds : ∀ d ∈ ds, t.address d = some 0) : HubUp k (t.assign ds 2) := by
  refine ⟨h.1.assign (fun d hd => .inr ⟨?_, rfl⟩) hds, List.mem_append_left _ h.2⟩
  rintro rfl
  rw [(h.1.tracks 0 1 (by decide)).mpr h.2] at hd
  exact absurd hd (by decide)

theorem triple_findOnPorts {hub : Device} (n port : Nat) (hport : port + n ≤ 2 ^ 16) :
    Triple (fun b => HubUp port b.table) (findOnPorts pop hub n port)
      fun r b => (∃ k, b.table.Sound k) ∧ Found 2 r b.table := by
  induction n generalizing port with
  | zero => exact .throw fun b h => ⟨⟨port, h.1⟩, fun _ he => by cases he⟩
  | succ n ih =>
      have htoNat : port.toUInt16.toNat = port := Nat.mod_eq_of_lt (by omega)
      have hnext := ih (port + 1) (by omega)
      refine Triple.attempt (J := fun _ b => HubUp (port + 1) b.table)
        (triple_hubPowerAndResetPort (fun t h => ⟨h.1.mono, h.2⟩) fun t h => ?_) fun r => ?_
      · rw [htoNat]
        exact ⟨h.1.reset, h.2⟩
      · split
        · refine Triple.attempt (triple_enumerateAsKeyboard (I := HubUp (port + 1)) rfl fun t ds h hds => h.assign hds)
            fun r => ?_
          split
          · next kbd =>
            refine .pure fun b h => ⟨⟨port + 1, h.1.1⟩, fun kbd' he => ?_⟩
            cases he
            exact h.2 kbd rfl
          · exact hnext.mono (fun b h => h.1) fun _ _ h => h
        · exact hnext

theorem Table.Sound.free_one {t : Table} (h : t.Sound 1) : t.Free 1 := by
  intro d hd
  have hzero : d = 0 := by
    by_contra hne
    rw [h.fresh d (by omega)] at hd
    cases hd
  exact .inl (by rw [hzero])

theorem sound_start : Bus.start.table.Sound 1 where
  fresh d hd := if_neg (by omega)
  tracks d a ha := by
    have hnot : Bus.start.address d ≠ some a := by
      by_cases hd : d = 0
      · simpa [Bus.start, hd] using ha.symm
      · simp [Bus.start, hd]
    exact iff_of_false hnot List.not_mem_nil
  form x hx := absurd hx List.not_mem_nil

theorem triple_findKeyboard : Triple (fun b => b.table.Sound 1) (findKeyboard pop speed) fun r b =>
    (∃ k, b.table.Sound k) ∧ (Found 1 r b.table ∨ Found 2 r b.table) := by
  have herr {e : HidError} {t : Table} (h : t.Sound 1) :
      (∃ k, t.Sound k) ∧ (Found 1 (.error e) t ∨ Found 2 (.error e) t) := ⟨⟨1, h⟩, .inl fun _ he => by cases he⟩
  have hassign (t : Table) (ds : List Nat) (h : t.Sound 1) (hds : ∀ d ∈ ds, t.address d = some 0) :
      (t.assign ds 1).Sound 1 := h.assign h.free_one hds
  refine (keeps_getDeviceDescriptor (I := Table.Sound 1)).bind (fun _ b h => herr h) fun desc => ?_
  split
  · refine (triple_setAddress (I := Table.Sound 1) rfl rfl hassign).bind (fun _ b h => herr h.1) fun hub => ?_
    refine Triple.mono (I := fun b => HubUp 1 b.table) ?_ (fun b h => ?_) fun _ _ h => h
    · refine (keeps_hubGetDescriptor (I := HubUp 1)).bind (fun _ b h => herr h.1) fun hubDesc => ?_
      refine (triple_findOnPorts _ 1 ?_).mono (fun _ h => h) fun r b h => ⟨h.1, .inr h.2⟩
      have hlt := UInt8.toNat_lt ((fill 9 hubDesc).getD 2 0)
      omega
    · obtain ⟨-, d, hd⟩ := h.2 hub rfl
      rcases h.1.form _ hd with heq | ⟨-, heq⟩
      · exact ⟨h.1, heq ▸ hd⟩
      · exact absurd (show (1 : UInt32) = 2 from heq) (by decide)
  · exact (triple_enumerateAsKeyboard (I := Table.Sound 1) rfl hassign).mono (fun _ h => h)
      fun r b h => ⟨⟨1, h.1⟩, .inl h.2⟩

theorem mem_acknowledging {l : List Exchange} {d : Nat} :
    d ∈ acknowledging l ↔ d ≠ 0 ∧ ∃ a, (d, a) ∈ given l := by
  simp only [acknowledging, given, List.mem_filter, List.mem_flatMap, List.mem_map, Prod.mk.injEq, decide_eq_true_eq]
  constructor
  · rintro ⟨⟨x, hx, hd⟩, hne⟩
    exact ⟨hne, _, x, hx, d, hd, rfl, rfl⟩
  · rintro ⟨hne, _, x, hx, _, hd, rfl, -⟩
    exact ⟨⟨x, hx, hd⟩, hne⟩

/-- The addresses after a search are unique if and only if one device behind the hub at most has answered
SET_ADDRESS. -/
theorem addresses_unique_iff {r : Except HidError Keyboard} (h : (findKeyboard pop speed).runs Bus.start = some (r, b)) :
    (Distinct b.trace ∧ ∀ kbd, r = .ok kbd → Alone b kbd.dev.addr) ↔
      ∀ d ∈ acknowledging b.trace, ∀ e ∈ acknowledging b.trace, d = e := by
  obtain ⟨⟨k, hsound⟩, hfound⟩ := triple_findKeyboard sound_start h
  have hbehind {d : Nat} (hd : d ∈ acknowledging b.trace) : (d, 2) ∈ given b.trace := by
    obtain ⟨hne, a, hda⟩ := mem_acknowledging.mp hd
    rcases hsound.form _ hda with heq | ⟨-, heq⟩
    · exact absurd (Prod.mk.inj heq).1 hne
    · rwa [← show a = 2 from heq]
  constructor
  · rintro ⟨hdistinct, -⟩ d hd e he
    by_contra hne
    exact hdistinct _ (hbehind hd) _ (hbehind he) hne rfl
  · intro hone
    have hsame {d e : Nat} {a : UInt32} (hd : (d, a) ∈ given b.trace) (he : (e, a) ∈ given b.trace) : d = e := by
      rcases hsound.form _ hd with hd' | ⟨hd', ha⟩ <;> rcases hsound.form _ he with he' | ⟨he', ha'⟩
      · exact (Prod.mk.inj hd').1.trans (Prod.mk.inj he').1.symm
      · exact absurd ((Prod.mk.inj hd').2.symm.trans ha') (by decide)
      · exact absurd ((Prod.mk.inj he').2.symm.trans ha) (by decide)
      · exact hone d (mem_acknowledging.mpr ⟨hd', a, hd⟩) e (mem_acknowledging.mpr ⟨he', a, he⟩)
    refine ⟨fun ⟨d, a⟩ hd ⟨e, a'⟩ he hne heq => ?_, fun kbd hr => ?_⟩
    · obtain rfl : a = a' := heq
      exact hne (hsame hd he)
    · obtain ⟨haddr, d, hd⟩ : kbd.dev.addr ≠ 0 ∧ ∃ d, (d, kbd.dev.addr) ∈ given b.trace := by
        rcases hfound with hf | hf <;> obtain ⟨heq, hd⟩ := hf kbd hr <;> rw [heq]
        · exact ⟨by decide, hd⟩
        · exact ⟨by decide, hd⟩
      exact ⟨d, fun e => (hsound.tracks e _ haddr).trans ⟨fun he => hsame he hd, fun he => he ▸ hd⟩⟩

/-- The configuration of a boot device with one interrupt endpoint. -/
def bootConfig (protocol : UInt8) : List UInt8 :=
  [9, 2, 25, 0, 1, 1, 0, 0xA0, 50, 9, 4, 0, 0, 1, 3, 1, protocol, 0, 7, 5, 0x81, 3, 8, 0, 10]

def bootAnswers (protocol : UInt8) (req : Request) : Option (List UInt8) :=
  if req.request = reqGetDescriptor then
    some (if req.value = descTypeDevice <<< 8 then [18, 1, 0x10, 1, 0, 0, 0, 8] else bootConfig protocol)
  else
    some []

/-- A hub with two ports. -/
def hubAnswers (req : Request) : Option (List UInt8) :=
  if req.requestType = 0xA0 then some [9, 0x29, 2]
  else if req.requestType = 0xA3 then some [1, 0, 0, 0]
  else if req.request = reqGetDescriptor then some [18, 1, 0, 2, 9, 0, 0, 64]
  else some []

/-- A device with the given protocol at the first port of a hub, and a keyboard at the second. -/
def onHub (protocol : UInt8) : Population where
  attached d := d = 1 ∨ d = 2
  answers d _ req := if d = 0 then hubAnswers req else if d = 1 then bootAnswers protocol req else bootAnswers 1 req
  heard _ := 1
  failure _ := .timeout

theorem addresses_unique_iff_onHub : ∃ r b, (findKeyboard (onHub 1) .full).runs Bus.start = some (r, b) ∧
    ((Distinct b.trace ∧ ∀ kbd, r = .ok kbd → Alone b kbd.dev.addr) ↔
      ∀ d ∈ acknowledging b.trace, ∀ e ∈ acknowledging b.trace, d = e) := by
  obtain ⟨⟨r, b⟩, h⟩ := Option.isSome_iff_exists.mp
    (by decide +kernel : ((findKeyboard (onHub 1) .full).runs Bus.start).isSome)
  exact ⟨r, b, h, addresses_unique_iff h⟩

/-- A mouse at the first port keeps the address that the keyboard is given. -/
theorem mouse_shares_address : ∃ kbd b, (findKeyboard (onHub 2) .full).runs Bus.start = some (.ok kbd, b) ∧
    ¬ Distinct b.trace ∧ ¬ Alone b kbd.dev.addr := by
  have hrun : ((findKeyboard (onHub 2) .full).runs Bus.start).any (fun p => p.1.toOption.any fun kbd =>
      (1, 2) ∈ given p.2.trace ∧ (2, 2) ∈ given p.2.trace ∧ p.2.address 1 = some kbd.dev.addr ∧
        p.2.address 2 = some kbd.dev.addr) = true := by
    decide +kernel
  obtain ⟨⟨r, b⟩, heq, hp⟩ := (Option.any_eq_true _ _).mp hrun
  obtain ⟨kbd, hr, hkbd⟩ := (Option.any_eq_true _ _).mp hp
  obtain ⟨hmouse, hkbd, hat, hat'⟩ := of_decide_eq_true hkbd
  cases r with
  | ok kbd' =>
      cases hr
      refine ⟨kbd, b, heq, fun hdistinct => hdistinct _ hmouse _ hkbd (by decide) rfl, fun ⟨d, halone⟩ => ?_⟩
      exact absurd (((halone 1).mp hat).trans ((halone 2).mp hat').symm) (by decide)
  | error e => cases hr

end Ferro.Usb
