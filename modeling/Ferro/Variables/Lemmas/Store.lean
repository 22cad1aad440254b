import Ferro.Variables.Spec

/-!
# `get` and `set` on the map in a store
-/

namespace Ferro

namespace CStr16

variable {s : CStr16}

theorem mem_len : s.mem s.len = 0 := Nat.find_spec s.terminated

theorem mem_ne {i : Nat} (h : i < s.len) : s.mem i ≠ 0 := Nat.find_min s.terminated h

theorem length_units : s.units.length = s.len := by simp [units]

theorem getElem?_units {i : Nat} : s.units[i]? = if i < s.len then some (s.mem i) else none := by
  by_cases h : i < s.len
  · simp [units, h]
  · simp [units, h]

theorem zero_not_mem_units : 0 ∉ s.units := by
  intro h
  obtain ⟨i, hi, h0⟩ := List.mem_map.mp h
  exact mem_ne (List.mem_range.mp hi) h0

end CStr16

namespace VarMap

variable {key key' : Key}

/-- A call fails and changes nothing, or sets or deletes its key. -/
theorem set_cases (m : VarMap) (key : Key) (value : Value) : (∃ e, m.set key value = (.error e, m)) ∨
    (key.1.length ≤ maxNameUnits ∧
      m.set key value = (.ok (), Function.update m key (if value.2 = [] then none else some value))) := by
  unfold set
  split
  · exact Or.inl ⟨_, rfl⟩
  · rename_i hlen
    split
    · split
      · exact Or.inl ⟨_, rfl⟩
      · exact Or.inr ⟨Nat.not_lt.mp hlen, rfl⟩
    · split
      · exact Or.inl ⟨_, rfl⟩
      · exact Or.inr ⟨Nat.not_lt.mp hlen, rfl⟩

theorem set_of_ne (m : VarMap) (value : Value) (h : key' ≠ key) : (m.set key value).2 key' = m key' := by
  rcases m.set_cases key value with ⟨e, he⟩ | ⟨_, he⟩
  · rw [he]
  · rw [he]; exact Function.update_of_ne h _ _

end VarMap

namespace Variables

variable {s : CStr16}

theorem readNameLoop_eq (n i : Nat) (buf : Arr UInt16 maxNameUnits) (hi : i ≤ s.len) :
    readNameLoop s.mem n i buf = if s.len ≤ i + n then some (buf.put i (s.units.drop i), s.len) else none := by
  have hend : ∀ (buf : Arr UInt16 maxNameUnits), buf.put s.len (s.units.drop s.len) = buf := by
    intro buf; rw [List.drop_eq_nil_of_le (Nat.le_of_eq CStr16.length_units), Arr.put_nil]
  induction n generalizing i buf with
  | zero =>
      unfold readNameLoop
      by_cases h : i = s.len
      · subst h; simp [CStr16.mem_len, hend]
      · simp [CStr16.mem_ne (show i < s.len by omega), show ¬ s.len ≤ i by omega]
  | succ n ih =>
      unfold readNameLoop
      by_cases h : i = s.len
      · subst h; simp [CStr16.mem_len, hend]
      · have hlt : i < s.len := by omega
        have hdrop : s.units.drop i = s.mem i :: s.units.drop (i + 1) := by
          rw [List.drop_eq_getElem_cons (by rwa [CStr16.length_units])]
          simp [CStr16.units]
        rw [if_neg (CStr16.mem_ne hlt), ih (i + 1) _ hlt, hdrop, Arr.put_cons buf i (s.mem i) (s.units.drop (i + 1)),
          show i + 1 + n = i + (n + 1) by omega]

/-- The name as `set` stores it. -/
def nameBuf (units : List UInt16) : Arr UInt16 maxNameUnits := (Arr.fill 0).put 0 units

theorem readName_eq : readName s.mem maxNameUnits =
    if s.units.length ≤ maxNameUnits then some (nameBuf s.units, s.units.length) else none := by
  simp [readName, readNameLoop_eq, nameBuf, CStr16.length_units]

theorem slice_nameBuf {units : List UInt16} (h : units.length ≤ maxNameUnits) :
    (nameBuf units).slice 0 units.length = units := Arr.slice_put_same _ 0 units (by simpa using h)

/-! ## Finding a variable -/

variable {vars : Store} {v : Variable} {units : List UInt16} {guid : EfiGuid} {i : Fin maxVariables}

theorem isNamed_iff (hb : v.inUse → v.Bounded) (hlen : units.length ≤ maxNameUnits) :
    isNamed guid (nameBuf units) units.length v ↔ ∃ val, v.entry = some ((units, guid), val) := by
  simp only [isNamed, namesEq, slice_nameBuf hlen, Bool.and_eq_true, decide_eq_true_eq, Variable.entry]
  constructor
  · rintro ⟨⟨hu, rfl⟩, _, hn⟩
    simp [hu, hn]
  · rintro ⟨val, h⟩
    split at h
    · rename_i hu
      cases h
      have hl : v.nameLen ≤ maxNameUnits := (hb hu).nameLen_le
      exact ⟨⟨hu, rfl⟩, by rw [Arr.length_slice _ (by simpa using hl)], rfl⟩
    · cases h

theorem entry_of_inUse (hu : v.inUse) : v.entry =
    some ((v.name.slice 0 v.nameLen, v.guid), (v.attributes, v.data.slice 0 v.dataLen)) := if_pos hu

theorem inUse_of_entry {e : Key × Value} (h : v.entry = some e) : v.inUse := by
  unfold Variable.entry at h
  split at h
  · assumption
  · cases h

theorem isSome_entry : v.entry.isSome = v.inUse := by
  unfold Variable.entry
  cases v.inUse <;> rfl

theorem Valid.find_some (hv : Valid vars) (hlen : units.length ≤ maxNameUnits)
    (h : vars.find? (isNamed guid (nameBuf units) units.length) = some i) : (vars.get i).inUse ∧
      (vars.get i).entry = some ((units, guid), ((vars.get i).attributes,
        (vars.get i).data.slice 0 (vars.get i).dataLen)) := by
  obtain ⟨val, he⟩ := (isNamed_iff hv.bounded hlen).mp (Arr.find?_eq_some h)
  have hu := inUse_of_entry he
  have h' := entry_of_inUse hu
  rw [he] at h'
  cases h'
  exact ⟨hu, he⟩

theorem Valid.find_none (hv : Valid vars) (hlen : units.length ≤ maxNameUnits)
    (h : vars.find? (isNamed guid (nameBuf units) units.length) = none) : toMap vars (units, guid) = none := by
  refine Slots.toMap_eq_none.mpr fun i val he => ?_
  have hi := Arr.find?_eq_none.mp h i
  rw [(isNamed_iff hv.bounded hlen).mpr ⟨val, he⟩] at hi
  cases hi

theorem Valid.full_iff (hv : Valid vars) :
    vars.find? (fun v => !v.inUse) = none ↔ (toMap vars).keys.ncard = maxVariables := by
  have hcard : (toMap vars).keys.ncard = (Slots.entries Variable.entry vars).length := Slots.ncard_keys hv.unique
  rw [hcard, Slots.length_entries_eq, Arr.find?_eq_none]
  simp [isSome_entry]

/-! ## The calls -/

theorem Valid.update {x : Variable} (hv : Valid vars) (key : Key)
    (hold : ∀ {k' val}, (vars.get i).entry = some (k', val) → k' = key)
    (honly : ∀ {j val}, (vars.get j).entry = some (key, val) → j = i)
    (hnew : ∀ {k' val}, x.entry = some (k', val) → k' = key) (hb : x.inUse → x.Bounded) :
    Valid (vars.set i x) ∧ toMap (vars.set i x) = Function.update (toMap vars) key (x.entry.map Prod.snd) := by
  obtain ⟨hu, hmap⟩ := Slots.toMap_set hv.unique hold honly hnew
  refine ⟨⟨hu, fun {j} hj => ?_⟩, hmap⟩
  by_cases h : j = i
  · subst h; rw [Arr.get_set_self] at hj ⊢; exact hb hj
  · rw [Arr.get_set_of_ne _ _ h] at hj ⊢; exact hv.bounded hj

theorem valid_empty : Valid empty := by
  refine ⟨fun _ _ _ _ _ h => ?_, fun h => ?_⟩
  · cases h
  · cases h

theorem toMap_empty : toMap empty = fun _ => none :=
  funext fun _ => Slots.toMap_eq_none.mpr fun _ _ h => by cases h

theorem Valid.get_eq (hv : Valid vars) (guid : EfiGuid) (buf : List UInt8) :
    get vars s.mem guid buf = (toMap vars).get (s.units, guid) buf := by
  unfold get VarMap.get
  rw [readName_eq]
  by_cases hlen : s.units.length ≤ maxNameUnits
  · simp only [if_pos hlen, if_neg (Nat.not_lt.mpr hlen)]
    cases hf : vars.find? (isNamed guid (nameBuf s.units) s.units.length) with
    | none => simp only [hv.find_none hlen hf]
    | some i =>
        obtain ⟨hu, he⟩ := hv.find_some hlen hf
        have hl : ((vars.get i).data.slice 0 (vars.get i).dataLen).length = (vars.get i).dataLen :=
          Arr.length_slice _ (by simpa using (hv.bounded hu).dataLen_le)
        have hmap : toMap vars (s.units, guid) = _ := (Slots.toMap_eq_some hv.unique).mpr ⟨i, he⟩
        simp only [hmap, hl]
  · simp [hlen, Nat.lt_of_not_le hlen]

theorem slice_put_data {a : Bytes maxDataLen} {data : List UInt8} (h : data.length ≤ maxDataLen) :
    (a.put 0 data).slice 0 data.length = data := Arr.slice_put_same a 0 data (by simpa using h)

theorem Valid.delete {key : Key} {val : Value} (hv : Valid vars) (he : (vars.get i).entry = some (key, val)) :
    Valid (vars.set i emptyVar) ∧ toMap (vars.set i emptyVar) = Function.update (toMap vars) key none := by
  refine hv.update key ?_ (fun h => hv.unique h he) (fun h => by cases h) fun h => by cases h
  intro k' val' h
  rw [he] at h
  cases h
  rfl

theorem Valid.replace {key : Key} {val val' : Value} {x : Variable} (hv : Valid vars)
    (he : (vars.get i).entry = some (key, val)) (hx : x.entry = some (key, val')) (hb : x.Bounded) :
    Valid (vars.set i x) ∧ toMap (vars.set i x) = Function.update (toMap vars) key (some val') := by
  have h := hv.update (i := i) (x := x) key ?_ (fun h => hv.unique h he) ?_ fun _ => hb
  · rwa [hx] at h
  · intro _ _ h; rw [he] at h; cases h; rfl
  · intro _ _ h; rw [hx] at h; cases h; rfl

theorem Valid.create {key : Key} {val : Value} {x : Variable} (hv : Valid vars) (hu : (vars.get i).inUse = false)
    (hnone : toMap vars key = none) (hx : x.entry = some (key, val)) (hb : x.Bounded) :
    Valid (vars.set i x) ∧ toMap (vars.set i x) = Function.update (toMap vars) key (some val) := by
  have h := hv.update (i := i) (x := x) key ?_ ?_ ?_ fun _ => hb
  · rwa [hx] at h
  · intro _ _ h; rw [inUse_of_entry h] at hu; cases hu
  · intro j val' h; exact absurd h (Slots.toMap_eq_none.mp hnone j val')
  · intro _ _ h; rw [hx] at h; cases h; rfl

theorem Valid.set_eq (hv : Valid vars) (guid : EfiGuid) (attributes : UInt32) (data : List UInt8) :
    Valid (set vars s.mem guid attributes data).2 ∧
      (toMap vars).set (s.units, guid) (attributes, data) =
        ((set vars s.mem guid attributes data).1,
          toMap (set vars s.mem guid attributes data).2) := by
  unfold set VarMap.set
  rw [readName_eq]
  by_cases hlen : s.units.length ≤ maxNameUnits
  swap
  · simp [hlen, Nat.lt_of_not_le hlen, hv]
  simp only [if_pos hlen, if_neg (Nat.not_lt.mpr hlen)]
  by_cases hd : maxDataLen < data.length
  · have hne : data ≠ [] := by rintro rfl; cases hd
    simp [hd, hne, hv]
  have hd' : data.length ≤ maxDataLen := Nat.not_lt.mp hd
  simp only [hd, false_or]
  cases hf : vars.find? (isNamed guid (nameBuf s.units) s.units.length) with
  | none =>
      have hnone := hv.find_none hlen hf
      by_cases hne : data = []
      · simp [hne, hnone, hv]
      simp only [if_neg hne, hnone, true_and, ← hv.full_iff]
      cases hfree : vars.find? fun v => !v.inUse with
      | none => simp [hv]
      | some i =>
          have hu : (vars.get i).inUse = false := by simpa using Arr.find?_eq_some hfree
          have h := hv.create hu hnone (x := ⟨true, nameBuf s.units, s.units.length, guid, attributes,
            (vars.get i).data.put 0 data, data.length⟩)
            (by rw [entry_of_inUse rfl, slice_nameBuf hlen, slice_put_data hd'])
            ⟨hlen, by rw [slice_nameBuf hlen]; exact CStr16.zero_not_mem_units, List.length_pos_iff.mpr hne, hd'⟩
          simp [h]
  | some i =>
      obtain ⟨hu, he⟩ := hv.find_some hlen hf
      have hmap : toMap vars (s.units, guid) = _ := (Slots.toMap_eq_some hv.unique).mpr ⟨i, he⟩
      by_cases hne : data = []
      · have h := hv.delete he
        simp [hne, hmap, h]
      have hb := hv.bounded hu
      have hkey : (vars.get i).name.slice 0 (vars.get i).nameLen = s.units ∧ (vars.get i).guid = guid := by
        simpa [Variable.entry, hu] using he
      have hx : Variable.entry { vars.get i with
          attributes, data := (vars.get i).data.put 0 data, dataLen := data.length } =
          some ((s.units, guid), (attributes, data)) := by
        simp only [Variable.entry, hu, if_true, slice_put_data hd', hkey]
      have h := hv.replace he hx ⟨hb.nameLen_le, hb.name_ne, List.length_pos_iff.mpr hne, hd'⟩
      simp [hne, hmap, h]

theorem Valid.set_cases (hv : Valid vars) (guid : EfiGuid) (attributes : UInt32) (data : List UInt8) :
    (∃ e, (set vars s.mem guid attributes data).1 = .error e ∧
      toMap (set vars s.mem guid attributes data).2 = toMap vars) ∨
    (s.units.length ≤ maxNameUnits ∧ (set vars s.mem guid attributes data).1 = .ok () ∧
      toMap (set vars s.mem guid attributes data).2 =
        Function.update (toMap vars) (s.units, guid) (if data = [] then none else some (attributes, data))) := by
  obtain ⟨_, he⟩ := hv.set_eq (s := s) guid attributes data
  rcases (toMap vars).set_cases (s.units, guid) (attributes, data) with ⟨e, h⟩ | ⟨hlen, h⟩
  · obtain ⟨hr, hm⟩ := Prod.mk.inj (he.symm.trans h)
    exact Or.inl ⟨e, hr, hm⟩
  · obtain ⟨hr, hm⟩ := Prod.mk.inj (he.symm.trans h)
    exact Or.inr ⟨hlen, hr, hm⟩

theorem Valid.set_ok {attributes : UInt32} {data : List UInt8} (hv : Valid vars)
    (hok : (set vars s.mem guid attributes data).1 = .ok ()) : s.units.length ≤ maxNameUnits ∧
      toMap (set vars s.mem guid attributes data).2 =
        Function.update (toMap vars) (s.units, guid) (if data = [] then none else some (attributes, data)) := by
  rcases hv.set_cases (s := s) guid attributes data with ⟨e, he, _⟩ | ⟨hlen, _, hmap⟩
  · rw [hok] at he; cases he
  · exact ⟨hlen, hmap⟩

end Variables

end Ferro
