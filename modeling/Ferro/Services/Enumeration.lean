import Ferro.Base.Cursor
import Ferro.Services.Lemmas.Session
import Ferro.Variables.SavedForm

/-!
# Enumerating the variables

`GetNextVariableName` finds its place by the last name and GUID, and an empty name is its start.
-/

namespace Ferro

open Variables

/-- The key that a slot holds. -/
def Variable.key (v : Variable) : Key := (v.name.slice 0 v.nameLen, v.guid)

namespace Session

variable {vars : Store} {name : Ptr16} {guid : EfiGuid} {size : Nat}

/-- The call with the name buffer and the GUID of the last one: the name and GUID that it returns, and the two pointers
afterwards. The size is that of the buffer in every call. -/
def nextName (vars : Store) (size : Nat) (c : Ptr16 × EfiGuid) : Except EfiStatus (Key × (Ptr16 × EfiGuid)) :=
  match getNextVariableName vars (some size) (some c.1) (some c.2) with
  | (.success, some size', some name, some guid) =>
    .ok (((List.range (size' / 2 - 1)).map name, guid), (name, guid))
  | (status, _) => .error status

/-- From the empty name on, whatever the GUID and the rest of the buffer, the calls return the name and GUID of every
variable in use once, and then `EFI_NOT_FOUND`. -/
def Enumerates (vars : Store) : Prop :=
  ∀ size name guid, 33 ≤ size / 2 → name 0 = 0 → ∃ fuel keys,
    Cursor.collect (nextName vars size) fuel (name, guid) = (keys, some .notFound) ∧ keys.Nodup ∧
      ∀ key, key ∈ keys ↔ (toMap vars key).isSome

/-- The keys of the slots in use, in order. -/
def keysOf (vs : List Variable) : List Key := (vs.filter (·.inUse)).map Variable.key

theorem keysOf_eq (vs : List Variable) : keysOf vs = (vs.filterMap Variable.entry).map Prod.fst := by
  induction vs with
  | nil => rfl
  | cons v vs ih =>
      rw [keysOf] at ih ⊢
      cases hu : v.inUse with
      | false =>
          have he : v.entry = none := by simp [Variable.entry, hu]
          simp [he, hu, ih]
      | true => simp [entry_of_inUse hu, hu, ih, Variable.key]

theorem mem_keysOf {key : Key} : key ∈ keysOf vars.toList ↔ (toMap vars key).isSome := by
  have hkeys : {k | (toMap vars k).isSome} = {k | k ∈ (Slots.entries Variable.entry vars).map Prod.fst} := Slots.keys_eq vars
  rw [keysOf_eq]
  exact (Set.ext_iff.mp hkeys key).symm

theorem nodup_keysOf (hv : Valid vars) : (keysOf vars.toList).Nodup := by
  rw [keysOf_eq]
  exact hv.unique.nodup_keys

theorem keysOf_of_find_none {vs : List Variable} (h : vs.find? (·.inUse) = none) : keysOf vs = [] := by
  rw [keysOf, List.filter_eq_nil_iff.mpr (List.find?_eq_none.mp h)]
  rfl

theorem keysOf_of_unused {as : List Variable} (h : ∀ v ∈ as, (v.inUse : Bool) = false) (bs : List Variable) :
    keysOf (as ++ bs) = keysOf bs := by
  rw [keysOf, List.filter_append, List.filter_eq_nil_iff.mpr (fun v hv => by simp [h v hv])]
  rfl

/-! ## One call -/

/-- The slots that a call with `c` searches: all of them after an empty name, else those behind the variable. -/
inductive Ahead (vars : Store) (c : Ptr16 × EfiGuid) : Nat → Prop where
  | start (h : c.1 0 = 0) : Ahead vars c 0
  | behind (s : CStr16) (i : Fin maxVariables) (hmem : s.mem = c.1) (hne : s.units ≠ []) (hu : (vars.get i).inUse)
      (hkey : (vars.get i).key = (s.units, c.2)) : Ahead vars c (i.val + 1)

theorem find_of_key (hv : Valid vars) {s : CStr16} {i : Fin maxVariables} (hlen : s.units.length ≤ maxNameUnits)
    (hu : (vars.get i).inUse) (hkey : (vars.get i).key = (s.units, guid)) :
    vars.find? (isNamed guid (nameBuf s.units) s.units.length) = some i := by
  have he := entry_of_inUse hu
  rw [← Variable.key, hkey] at he
  cases hf : vars.find? (isNamed guid (nameBuf s.units) s.units.length) with
  | none => exact absurd he (Slots.toMap_eq_none.mp (hv.find_none hlen hf) i _)
  | some j => rw [hv.unique (hv.find_some hlen hf).2 he]

theorem readName_zero {mem : Ptr16} (h : mem 0 = 0) : readName mem maxNameUnits = some (.fill 0, 0) := by
  change readNameLoop mem 32 0 (.fill 0) = _
  rw [readNameLoop, if_pos h]

/-- The slots that are searched, as `get_next` finds their start. -/
theorem getNext_of_ahead (hv : Valid vars) {c : Ptr16 × EfiGuid} {j : Nat} (h : Ahead vars c j) (outLen : Nat) :
    getNext vars c.1 c.2 outLen = match (vars.toList.drop j).find? (·.inUse) with
      | none => .error .notFound
      | some v => if outLen < v.nameLen + 1 then .error (.bufferTooSmall (v.nameLen + 1))
          else .ok (v.name.slice 0 v.nameLen ++ [0], v.guid) := by
  cases h with
  | start h0 =>
      rw [getNext, readName_zero h0]
      rfl
  | behind s i hmem hne hu hkey =>
      have hname : (vars.get i).name.slice 0 (vars.get i).nameLen = s.units := congrArg Prod.fst hkey
      have hlen : s.units.length ≤ maxNameUnits := by
        rw [← hname, length_name (hv.bounded hu)]
        exact (hv.bounded hu).nameLen_le
      rw [getNext, ← hmem, readName_eq, if_pos hlen]
      dsimp only
      rw [if_neg (fun h0 => hne (List.length_eq_zero_iff.mp h0)), find_of_key hv hlen hu hkey]
      rfl


/-- The name that a call returns, NUL-terminated in the buffer. -/
theorem exists_cstr {units : List UInt16} (hne : 0 ∉ units) (mem : Ptr16) :
    ∃ s : CStr16, (s.mem = fun i => (units ++ [0]).getD i (mem i)) ∧ s.units = units := by
  have hget : ∀ i (hi : i < units.length), (units ++ [0]).getD i (mem i) = units[i] := by
    intro i hi
    simp [List.getD_eq_getElem?_getD, List.getElem?_append_left hi, hi]
  have hend : (units ++ [0]).getD units.length (mem units.length) = 0 := by simp
  obtain ⟨s, hs⟩ : ∃ s : CStr16, s.mem = fun i => (units ++ [0]).getD i (mem i) := ⟨⟨_, _, hend⟩, rfl⟩
  have hlen : s.len = units.length := by
    refine (Nat.find_eq_iff _).mpr ⟨by rw [hs]; exact hend, fun i hi h0 => hne ?_⟩
    rw [congrFun hs i, hget i hi] at h0
    exact h0 ▸ List.getElem_mem hi
  refine ⟨s, hs, List.ext_getElem (by rw [CStr16.length_units, hlen]) fun i _ hi => ?_⟩
  simp only [CStr16.units, List.getElem_map, List.getElem_range, hs]
  exact hget i hi

/-- A call ends the enumeration behind the last variable in use. Or it returns the next one, and the call after it goes on
behind that one, or from the start if its name is empty. -/
theorem nextName_cases (hv : Valid vars) (hsize : 33 ≤ size / 2) {c : Ptr16 × EfiGuid} {j : Nat} (h : Ahead vars c j) :
    (keysOf (vars.toList.drop j) = [] ∧ nextName vars size c = .error .notFound) ∨
      ∃ key k c', keysOf (vars.toList.drop j) = key :: keysOf (vars.toList.drop k) ∧
        nextName vars size c = .ok (key, c') ∧ Ahead vars c' (if key.1 = [] then 0 else k) := by
  have hget := getNext_of_ahead hv h (size / 2)
  cases hf : (vars.toList.drop j).find? (·.inUse) with
  | none =>
      rw [hf] at hget
      refine .inl ⟨keysOf_of_find_none hf, ?_⟩
      simp only [nextName, getNextVariableName, hget]
      rfl
  | some v =>
      obtain ⟨hu, as, bs, hsplit, has⟩ := List.find?_eq_some_iff_append.mp hf
      -- `v` is slot `j + as.length`
      have hat : vars.toList[j + as.length]? = some v := by
        rw [← List.getElem?_drop, hsplit, List.getElem?_append_right (Nat.le_refl _), Nat.sub_self]
        rfl
      have hi : j + as.length < maxVariables := by
        rw [← Arr.length_toList vars]
        exact (List.getElem?_eq_some_iff.mp hat).1
      have hslot : vars.get ⟨j + as.length, hi⟩ = v := by
        rw [Arr.getElem?_toList, if_pos hi, Arr.nth, dif_pos hi] at hat
        exact Option.some.inj hat
      have hrest : vars.toList.drop (j + as.length + 1) = bs := by
        rw [Nat.add_assoc, ← List.drop_drop, hsplit]
        simp
      have hb : v.Bounded := by
        rw [← hslot] at hu ⊢
        exact hv.bounded hu
      have hfit : ¬ size / 2 < v.nameLen + 1 := by
        have hle : v.nameLen ≤ 32 := hb.nameLen_le
        omega
      rw [hf] at hget
      dsimp only at hget
      rw [if_neg hfit] at hget
      obtain ⟨s, hmem, hunits⟩ := exists_cstr hb.name_ne c.1
      refine .inr ⟨v.key, j + as.length + 1, (s.mem, v.guid), ?_, ?_, ?_⟩
      · rw [hrest, hsplit, keysOf_of_unused (fun w hw => by simpa using has w hw), keysOf,
          List.filter_cons_of_pos hu]
        rfl
      · have hname : (List.range s.len).map s.mem = v.name.slice 0 v.nameLen := hunits
        have hlen : s.len = v.nameLen := by rw [← CStr16.length_units, hunits, length_name hb]
        rw [hlen] at hname
        simp only [nextName, getNextVariableName, hget, ← hmem, List.length_append, length_name hb, List.length_singleton,
          Nat.mul_div_cancel _ Nat.zero_lt_two, Nat.add_sub_cancel, hname]
        rfl
      · by_cases hempty : v.key.1 = []
        · have hlen : s.len = 0 := by rw [← CStr16.length_units, hunits]; exact congrArg List.length hempty
          rw [if_pos hempty]
          exact .start (by rw [← hlen]; exact CStr16.mem_len)
        · rw [if_neg hempty]
          refine .behind s ⟨j + as.length, hi⟩ rfl (by rw [hunits]; exact hempty) (by rw [hslot]; exact hu) ?_
          rw [hslot, hunits]
          rfl

/-! ## All calls -/

theorem lists_of_ahead (hv : Valid vars) (hsize : 33 ≤ size / 2) (keys : List Key) (hne : ∀ key ∈ keys, key.1 ≠ []) :
    ∀ {c : Ptr16 × EfiGuid} {j : Nat}, Ahead vars c j → keysOf (vars.toList.drop j) = keys →
      Cursor.Lists (nextName vars size) .notFound c keys := by
  induction keys with
  | nil =>
      intro c j h hkeys
      rcases nextName_cases hv hsize h with ⟨_, hn⟩ | ⟨key, k, c', hcons, _⟩
      · exact .stop hn
      · rw [hkeys] at hcons
        cases hcons
  | cons key keys ih =>
      intro c j h hkeys
      rcases nextName_cases hv hsize h with ⟨hnil, _⟩ | ⟨key', k, c', hcons, hn, hc'⟩
      · rw [hkeys] at hnil
        cases hnil
      · rw [hkeys] at hcons
        cases hcons
        rw [if_neg (hne key List.mem_cons_self)] at hc'
        exact .item hn (ih (fun key hkey => hne key (List.mem_cons_of_mem _ hkey)) hc' rfl)

/-- With an empty name among those to come, the calls come back to the start. -/
theorem not_lists_of_empty (hv : Valid vars) (hsize : 33 ≤ size / 2) {guid : EfiGuid} (hg : ([], guid) ∈ keysOf vars.toList)
    {c : Ptr16 × EfiGuid} (h0 : c.1 0 = 0) (l : List Key) (e : EfiStatus) :
    ¬ Cursor.Lists (nextName vars size) e c l := by
  refine Cursor.not_lists (I := fun c => ∃ j, Ahead vars c j ∧ ([], guid) ∈ keysOf (vars.toList.drop j)) ?_
    ⟨0, .start h0, hg⟩
  rintro c ⟨j, h, hmem⟩
  rcases nextName_cases hv hsize h with ⟨hnil, _⟩ | ⟨key, k, c', hcons, hn, hc'⟩
  · rw [hnil] at hmem
    cases hmem
  · refine ⟨key, c', hn, _, hc', ?_⟩
    split
    · exact hg
    · rename_i hne
      rw [hcons, List.mem_cons] at hmem
      rcases hmem with rfl | hmem
      · exact absurd rfl hne
      · exact hmem

/-- The enumeration is complete and ends exactly when no variable has the empty name. -/
theorem enumerates_iff {card : Disk} {s : Session} (h : Run (fun _ _ => True) (boot card) s) :
    Enumerates s.vars ↔ ∀ guid, toMap s.vars ([], guid) = none := by
  have hv := (h.reachable Reachable.empty).valid
  constructor
  · intro henum guid
    by_contra hsome
    have hmem : ([], guid) ∈ keysOf s.vars.toList := mem_keysOf.mpr (Option.isSome_iff_ne_none.mpr hsome)
    obtain ⟨fuel, keys, hcollect, _⟩ := henum 66 (fun _ => 0) guid (by decide) rfl
    exact not_lists_of_empty hv (by decide) hmem rfl keys _ (.of_collect hcollect)
  · intro hne size name guid hsize h0
    have hnames : ∀ key ∈ keysOf s.vars.toList, key.1 ≠ [] := by
      rintro ⟨units, g⟩ hkey rfl
      have := mem_keysOf.mp hkey
      rw [hne g] at this
      cases this
    have hlists := lists_of_ahead hv hsize (keysOf s.vars.toList) hnames
      (c := (name, guid)) (.start h0) rfl
    exact ⟨_, _, hlists.collect, nodup_keysOf hv, fun _ => mem_keysOf⟩

/-! ## Stores with one and with two variables -/

/-- The firmware behind one `SetVariable` call with one byte of data, before any card is mounted. -/
def afterSet (name : CStr16) : Session := ⟨(set empty name.mem guid0 0 [1]).2, none, fun _ => .fill 0⟩

/-- The firmware behind a second call. -/
def afterTwo : Session := ⟨(set (afterSet nameA).vars nameB.mem guid0 0 [1]).2, none, fun _ => .fill 0⟩

/-- Without a volume nothing is saved. -/
theorem setVariable_unmounted {card : Disk} (name : CStr16) (h : (set vars name.mem guid0 0 [1]).1 = .ok ()) :
    (⟨vars, none, card⟩ : Session).setVariable (some name.mem) (some guid0) 0 1 (some fun _ => 1) =
      some (.success, ⟨(set vars name.mem guid0 0 [1]).2, none, card⟩) := by
  have hdata : rawParts 1 (some fun _ => 1) = [1] := rfl
  cases hset : set vars name.mem guid0 0 [1] with
  | mk r vars' =>
      rw [hset] at h
      cases h
      simp only [setVariable, hdata, hset]
      rfl

theorem setVariable_boot (name : CStr16) (h : (set empty name.mem guid0 0 [1]).1 = .ok ()) :
    (boot fun _ => .fill 0).setVariable (some name.mem) (some guid0) 0 1 (some fun _ => 1) =
      some (.success, afterSet name) := setVariable_unmounted name h

theorem run_afterSet (name : CStr16) (h : (set empty name.mem guid0 0 [1]).1 = .ok ()) :
    Run (fun _ _ => True) (boot fun _ => .fill 0) (afterSet name) := by
  refine .action (a := .setVariable (some name) (some guid0) 0 1 (some fun _ => 1)) .start trivial ?_
  simp only [step, Option.map_some, setVariable_boot name h]

theorem toMap_afterSet {name : CStr16} (h : (set empty name.mem guid0 0 [1]).1 = .ok ()) :
    toMap (afterSet name).vars = Function.update (fun _ => none) (name.units, guid0) (some (0, [1])) := by
  have hset := (valid_empty.set_ok h).2
  rw [toMap_empty] at hset
  exact hset

theorem units_eq_nil_iff {s : CStr16} : s.units = [] ↔ s.mem 0 = 0 := by
  rw [← List.length_eq_zero_iff, CStr16.length_units]
  exact Nat.find_eq_zero s.terminated

theorem enumerates_afterTwo : Enumerates afterTwo.vars := by
  have hA : (set empty nameA.mem guid0 0 [1]).1 = .ok () := by rfl
  have hB : (set (afterSet nameA).vars nameB.mem guid0 0 [1]).1 = .ok () := by rfl
  have hrun : Run (fun _ _ => True) (boot fun _ => .fill 0) afterTwo := by
    refine .action (a := .setVariable (some nameB) (some guid0) 0 1 (some fun _ => 1)) (run_afterSet nameA hA) trivial ?_
    simp only [step, Option.map_some]
    exact congrArg (Option.map Prod.snd) (setVariable_unmounted nameB hB)
  refine (enumerates_iff hrun).mpr fun guid => ?_
  have hmap := (((run_afterSet nameA hA).reachable Reachable.empty).valid.set_ok hB).2
  rw [toMap_afterSet hA, units_nameA, units_nameB] at hmap
  rw [show toMap afterTwo.vars = _ from hmap]
  rfl

/-- The empty name. -/
def noName : CStr16 := ⟨fun _ => 0, 0, rfl⟩

/-- `SetVariable` accepts the empty name, and then the enumeration returns that variable in every call. -/
theorem not_enumerates_noName : (boot fun _ => .fill 0).setVariable (some noName.mem) (some guid0) 0 1 (some fun _ => 1) =
    some (.success, afterSet noName) ∧
    Cursor.collect (nextName (afterSet noName).vars 66) 3 (fun _ => 0, guid0) =
      ([([], guid0), ([], guid0), ([], guid0)], none) ∧ ¬ Enumerates (afterSet noName).vars := by
  have hok : (set empty noName.mem guid0 0 [1]).1 = .ok () := by rfl
  refine ⟨setVariable_boot noName hok, by rfl, fun henum => ?_⟩
  have hv := ((run_afterSet noName hok).reachable Reachable.empty).valid
  have hmem : ([], guid0) ∈ keysOf (afterSet noName).vars.toList := by
    rw [mem_keysOf, toMap_afterSet hok, units_eq_nil_iff.mpr rfl, Function.update_self]
    rfl
  obtain ⟨fuel, keys, hcollect, _⟩ := henum 66 (fun _ => 0) guid0 (by decide) rfl
  exact not_lists_of_empty hv (by decide) hmem rfl keys _ (.of_collect hcollect)

end Session

end Ferro
