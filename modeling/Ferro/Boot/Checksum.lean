import Ferro.Boot.Lemmas.Effects
import Ferro.Boot.SystemTable

/-!
# The checksum of the system table

`system_table::init` computes the checksum once. Stores into the table after it leave the checksum as it is, so it
stays right as long as nothing is stored.
-/

namespace Ferro

namespace Boot

variable {image : Image} {s s' : Boot} {c : Call} {r : Reply}

/-- Only `InstallConfigurationTable` changes the configuration entries. -/
theorem step_configTable (h : s.step image c = some (r, s'))
    (hi : ∀ guid table, c ≠ .installConfigurationTable guid table) : s'.configTable = s.configTable := by
  refine (step_touches h).frame.configTable ?_
  cases c with
  | installConfigurationTable guid table => exact absurd rfl (hi guid table)
  | _ => simp [Call.touches]

end Boot

namespace SystemTable

/-- The checksum field is that of the table. -/
def Valid (st : SystemTable) : Prop := st.hdr.crc32 = st.checksum

instance (st : SystemTable) : Decidable st.Valid := inferInstanceAs (Decidable (_ = _))

theorem valid_init (addr : Statics) (st : SystemTable) : (st.init addr).Valid := rfl

end SystemTable

namespace Firmware

variable {image : Image} {addr : Statics} {s s' : Firmware}

/-- No console is set up, and no table is installed under a GUID. -/
def Op.Quiet : Op → Prop
  | .consoleInit => False
  | .boot (.installConfigurationTable (some _) table) => table = 0
  | _ => True

theorem bootCall_quiet {call : Call} {reply : Reply} (h : s.bootCall image addr call = some (reply, s'))
    (hq : (Op.boot call).Quiet) (hnil : s.boot.configTable = []) :
    s'.table = s.table ∧ s'.boot.configTable = [] := by
  obtain ⟨⟨reply', boot⟩, hstep, h⟩ := Option.bind_eq_some_iff.mp h
  cases h
  by_cases hi : ∃ guid table, call = .installConfigurationTable guid table
  · obtain ⟨guid, table, rfl⟩ := hi
    cases guid with
    | none =>
        cases hstep
        exact ⟨rfl, hnil⟩
    | some g =>
        have hz : table = 0 := hq
        simp only [Boot.step, Boot.installConfigurationTable, hnil, List.findIdx?_nil, hz, if_true] at hstep
        cases hstep
        exact ⟨rfl, hnil⟩
  · have hi : ∀ guid table, call ≠ .installConfigurationTable guid table := fun guid table he => hi ⟨guid, table, he⟩
    refine ⟨?_, (Boot.step_configTable hstep hi).trans hnil⟩
    dsimp only [publish]
    split
    · exact absurd rfl (hi _ _)
    · rfl

theorem step_quiet {op : Op} (h : Step image addr s op s') (hq : op.Quiet) (hnil : s.boot.configTable = []) :
    s'.table = s.table ∧ s'.boot.configTable = [] := by
  cases h with
  | consoleInit h => exact hq.elim
  | boot h => exact bootCall_quiet h hq hnil
  | other htable hconfig => exact ⟨htable, hconfig.trans hnil⟩

theorem run_quiet {ops : List Op} (h : Run image addr s ops s') (hq : ∀ op ∈ ops, op.Quiet)
    (hnil : s.boot.configTable = []) : s'.table = s.table := by
  induction h with
  | nil => rfl
  | cons hstep _ ih =>
      obtain ⟨htable, hnil⟩ := step_quiet hstep (hq _ List.mem_cons_self) hnil
      rw [ih (fun op hop => hq op (List.mem_cons_of_mem _ hop)) hnil, htable]

/-- In a run without stores into the table, the checksum is right in every state reached. -/
theorem valid_of_run {padding : UInt32} {fbBase fbSize : UInt64} {mem : Mem} {ops : List Op}
    (h : Run image addr (init image addr padding fbBase fbSize mem) ops s) (hq : ∀ op ∈ ops, op.Quiet) :
    s.table.Valid := by
  rw [run_quiet h hq rfl]
  exact SystemTable.valid_init addr _

/-! ## The checksum is never computed again -/

theorem consoleHandle_table {guid : EfiGuid} {proto : UInt64} {handle : Option UInt64}
    (h : s.consoleHandle guid proto = some (handle, s')) : s'.table = s.table := by
  obtain ⟨⟨i, handles⟩, _, h⟩ := Option.bind_eq_some_iff.mp h
  cases i with
  | none => cases h; rfl
  | some i => cases h; rfl

theorem wireHandle_hdr {current proto : UInt64} (store : UInt64 → SystemTable → SystemTable) {guid : EfiGuid}
    (hstore : ∀ handle st, (store handle st).hdr = st.hdr)
    (h : s.wireHandle current store guid proto = some s') : s'.table.hdr = s.table.hdr := by
  unfold wireHandle at h
  split at h
  · obtain ⟨⟨handle, s₁⟩, hh, h⟩ := Option.bind_eq_some_iff.mp h
    rw [← consoleHandle_table hh]
    cases handle with
    | none => cases h; rfl
    | some handle => cases h; exact hstore handle _
  · cases h; rfl

theorem wireConOut_hdr (h : s.wireConOut addr = some s') : s'.table.hdr = s.table.hdr :=
  wireHandle_hdr (fun consoleOutHandle st => { st with consoleOutHandle }) (fun _ _ => rfl) h

theorem wireConIn_hdr (h : s.wireConIn addr = some s') : s'.table.hdr = s.table.hdr :=
  wireHandle_hdr (fun consoleInHandle st => { st with consoleInHandle }) (fun _ _ => rfl) h

theorem createWaitForKey_table : s.createWaitForKey.table = s.table := by
  rw [createWaitForKey]
  split <;> rfl

theorem consoleInit_hdr (h : s.consoleInit addr = some s') : s'.table.hdr = s.table.hdr := by
  obtain ⟨s₁, h₁, h⟩ := Option.bind_eq_some_iff.mp h
  obtain ⟨s₂, h₂, h⟩ := Option.bind_eq_some_iff.mp h
  cases h
  dsimp only
  rw [wireConIn_hdr h₂, wireConOut_hdr h₁]
  dsimp only
  rw [createWaitForKey_table]

theorem step_hdr {op : Op} (h : Step image addr s op s') : s'.table.hdr = s.table.hdr := by
  cases h with
  | consoleInit h => exact consoleInit_hdr h
  | boot h =>
      obtain ⟨⟨reply', boot⟩, _, h⟩ := Option.bind_eq_some_iff.mp h
      cases h
      dsimp only [publish]
      split
      · split <;> rfl
      · rfl
  | other htable _ => rw [htable]

theorem run_hdr {ops : List Op} (h : Run image addr s ops s') : s'.table.hdr = s.table.hdr := by
  induction h with
  | nil => rfl
  | cons hstep _ ih => rw [ih, step_hdr hstep]

/-- In any state reached, the checksum is right exactly if the bytes of the table have the checksum they had after
`efi::init`. -/
theorem valid_iff_of_run {padding : UInt32} {fbBase fbSize : UInt64} {mem : Mem} {ops : List Op}
    (h : Run image addr (init image addr padding fbBase fbSize mem) ops s) :
    s.table.Valid ↔ s.table.checksum = ((SystemTable.static padding).init addr).checksum := by
  rw [SystemTable.Valid, run_hdr h]
  exact eq_comm

/-! ## A small run -/

def lowStatics : Statics where
  firmwareVendor := 0x80000
  bootServices := 0x80100
  runtimeServices := 0x80200
  configTable := 0x80300
  outProto := 0x80400
  inProto := 0x80500

def smallImage : Image := ⟨0x90000, 0x80600, 0x80700, by decide, by decide⟩

def started : Firmware := init smallImage lowStatics 0 0 0 fun _ => 0

def raised : Firmware := { started with boot := { started.boot with currentTpl := 8 } }

theorem run_raised : Run smallImage lowStatics started [.boot (.raiseTpl 8)] raised := by
  have h : started.bootCall smallImage lowStatics (.raiseTpl 8) = some (.tpl 4, raised) := rfl
  exact .cons (.boot h) .nil

theorem valid_raised : Run smallImage lowStatics started [.boot (.raiseTpl 8)] raised ∧ raised.table.Valid :=
  ⟨run_raised, valid_of_run run_raised (by simp [Op.Quiet])⟩

/-- The table after `console::init`, which gives ConOut the handle 1 and ConIn the handle 2. -/
def consoleTable : SystemTable := { started.table with
  consoleInHandle := 2
  conIn := 0x80500
  consoleOutHandle := 1
  conOut := 0x80400
  standardErrorHandle := 1
  stdErr := 0x80400 }

theorem not_valid_consoleInit :
    (started.consoleInit lowStatics).map table = some consoleTable ∧ ¬ consoleTable.Valid ∧
      ∃ s, Run smallImage lowStatics started [.consoleInit] s ∧ ¬ s.table.Valid := by
  have hinit : (started.consoleInit lowStatics).map table = some consoleTable := by rfl
  have hcrc : ¬ consoleTable.Valid := by decide +kernel
  obtain ⟨s, hs, htable⟩ := Option.map_eq_some_iff.mp hinit
  exact ⟨hinit, hcrc, s, .cons (.consoleInit hs) .nil, by rw [htable]; exact hcrc⟩

end Firmware

end Ferro
