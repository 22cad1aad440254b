import Ferro.Variables.Lemmas.Load

/-!
# The saved form, written and read back

`serialize` writes what `deserialize` reads, and `deserialize` is safe on any bytes.
-/

namespace Ferro

namespace Variables

variable {vars vars' saved : Store} {buf : List UInt8}

/-! ## Round trip -/

/-- The number of bytes that `serialize` needs. -/
def savedSize (vars : Store) : Nat :=
  8 + ((vars.toList.filter (·.inUse)).map fun v => 26 + 2 * v.nameLen + v.dataLen).sum

theorem length_flatMap_record (vs : List Variable) (hb : ∀ v ∈ vs, v.inUse → v.Bounded) :
    ((vs.filterMap Variable.entry).flatMap record).length =
      ((vs.filter (·.inUse)).map fun v => 26 + 2 * v.nameLen + v.dataLen).sum := by
  induction vs with
  | nil => rfl
  | cons v vs ih =>
      have hrest := ih fun v' hv' => hb v' (List.mem_cons_of_mem v hv')
      cases hu : v.inUse with
      | false =>
          have he : v.entry = none := by simp [Variable.entry, hu]
          simp [he, hu, hrest]
      | true =>
          have hbv := hb v List.mem_cons_self hu
          simp [entry_of_inUse hu, hu, hrest, length_record, length_name hbv, length_data hbv]

theorem Valid.length_imageOf (hv : Valid vars) : (imageOf vars).length = savedSize vars := by
  rw [imageOf, length_image, savedSize, Slots.entries, length_flatMap_record]
  intro v hmem
  obtain ⟨i, rfl⟩ := Arr.mem_toList.mp hmem
  exact hv.bounded

/-- A store that `serialize` writes is read back by `deserialize` over whatever is there, if the keys of both are not too
many; and `serialize` fails only for lack of room. -/
theorem serialize_deserialize (hs : Reachable saved) (hv : Reachable vars)
    (hroom : ((toMap vars).keys ∪ (toMap saved).keys).ncard ≤ maxVariables) (bufLen : Nat) :
    (∀ bytes, serialize saved bufLen = some bytes → bytes.length = savedSize saved ∧
      ∃ vars', deserialize bytes vars = some (count saved, vars') ∧ toMap vars' = (toMap vars).override (toMap saved)) ∧
    (serialize saved bufLen = none ↔ bufLen < savedSize saved ∨ bufLen < 8) := by
  have hlen := hs.valid.length_imageOf
  have h8 : 8 ≤ savedSize saved := by rw [savedSize]; omega
  rw [hs.valid.serialize_eq, hlen]
  constructor
  · intro bytes h
    split at h
    · cases h
      obtain ⟨vars', hload, hmap⟩ := hs.valid.deserialize_saved [] hv.valid hroom
      rw [List.append_nil] at hload
      exact ⟨hlen, vars', hload, hmap⟩
    · cases h
  · split
    · simp only [reduceCtorEq, false_iff]
      omega
    · simp only [true_iff]
      omega

/-- The name `A`. -/
def nameA : CStr16 := ⟨fun i => if i = 0 then 0x41 else 0, 1, rfl⟩

/-- The name `B`. -/
def nameB : CStr16 := ⟨fun i => if i = 0 then 0x42 else 0, 1, rfl⟩

def guid0 : EfiGuid := ⟨0, 0, 0, .fill 0⟩

/-- A store with one variable of one byte. -/
def storeB : Store := (set empty nameB.mem guid0 7 [1]).2

/-- A store with two variables of one byte. -/
def storeAB : Store := (set (set empty nameA.mem guid0 7 [2]).2 nameB.mem guid0 7 [3]).2

theorem units_one {s : CStr16} (h0 : s.mem 0 ≠ 0) (h1 : s.mem 1 = 0) : s.units = [s.mem 0] := by
  have hlen : s.len = 1 := (Nat.find_eq_iff _).mpr ⟨h1, fun n hn => by
    obtain rfl : n = 0 := by omega
    exact h0⟩
  rw [CStr16.units, hlen]
  rfl

theorem units_nameA : nameA.units = [0x41] := units_one (by decide) rfl

theorem units_nameB : nameB.units = [0x42] := units_one (by decide) rfl

theorem reachable_storeB : Reachable storeB := Reachable.empty.set nameB _ 7 [1]

theorem reachable_storeAB : Reachable storeAB := (Reachable.empty.set nameA _ 7 [2]).set nameB _ 7 [3]

theorem toMap_storeB : toMap storeB = Function.update (fun _ => none) ([0x42], guid0) (some (7, [1])) := by
  have hok : (set empty nameB.mem guid0 7 [1]).1 = .ok () := rfl
  have hset := (valid_empty.set_ok hok).2
  rw [toMap_empty, units_nameB] at hset
  exact hset

theorem toMap_storeAB : toMap storeAB =
    Function.update (Function.update (fun _ => none) ([0x41], guid0) (some (7, [2]))) ([0x42], guid0) (some (7, [3])) := by
  have hokA : (set empty nameA.mem guid0 7 [2]).1 = .ok () := rfl
  have hokB : (set (set empty nameA.mem guid0 7 [2]).2 nameB.mem guid0 7 [3]).1 = .ok () := rfl
  have hA := (valid_empty.set_ok hokA).2
  have hB := ((Reachable.empty.set nameA guid0 7 [2]).valid.set_ok hokB).2
  rw [toMap_empty, units_nameA] at hA
  rw [hA, units_nameB] at hB
  exact hB

/-- The store of two has room for a store with no other keys. -/
theorem room_storeAB (h : (toMap saved).keys ⊆ {([0x41], guid0), ([0x42], guid0)}) :
    ((toMap storeAB).keys ∪ (toMap saved).keys).ncard ≤ maxVariables := by
  have hAB : (toMap storeAB).keys ⊆ {([0x41], guid0), ([0x42], guid0)} := by
    intro k hk
    have hk : (toMap storeAB k).isSome := hk
    by_contra hne
    simp only [Set.mem_insert_iff, Set.mem_singleton_iff, not_or] at hne
    rw [toMap_storeAB, Function.update_of_ne hne.2, Function.update_of_ne hne.1] at hk
    cases hk
  have hle := Set.ncard_le_ncard (Set.union_subset hAB h) (Set.toFinite _)
  have htwo := Set.ncard_insert_le (([0x41], guid0) : Key) {([0x42], guid0)}
  rw [Set.ncard_singleton] at htwo
  exact (hle.trans htwo).trans (by decide)

set_option maxRecDepth 8000 in
/-- One variable is written and read over a store that has the same key and another. -/
theorem serialize_deserialize_storeB : serialize storeB 36 = none ∧ ∃ bytes, serialize storeB 64 = some bytes ∧
    bytes.length = 37 ∧ ∃ vars', deserialize bytes storeAB = some (1, vars') ∧
      toMap vars' ([0x41], guid0) = some (7, [2]) ∧ toMap vars' ([0x42], guid0) = some (7, [1]) := by
  have hsize : savedSize storeB = 37 := by decide
  have hcount : count storeB = 1 := by decide
  have hroom : ((toMap storeAB).keys ∪ (toMap storeB).keys).ncard ≤ maxVariables := by
    refine room_storeAB fun k hk => .inr ?_
    have hk : (toMap storeB k).isSome := hk
    by_contra hne
    rw [toMap_storeB, Function.update_of_ne hne] at hk
    cases hk
  have hshort := (serialize_deserialize reachable_storeB reachable_storeAB hroom 36).2
  obtain ⟨hread, hlong⟩ := serialize_deserialize reachable_storeB reachable_storeAB hroom 64
  rw [hsize] at hread hshort hlong
  rw [hcount] at hread
  refine ⟨hshort.mpr (.inl (by decide)), ?_⟩
  cases hs : serialize storeB 64 with
  | none => exact absurd (hlong.mp hs) (by decide)
  | some bytes =>
      obtain ⟨hlen, vars', hload, hmap⟩ := hread bytes hs
      rw [toMap_storeAB, toMap_storeB] at hmap
      refine ⟨bytes, rfl, hlen, vars', hload, ?_, ?_⟩ <;> rw [hmap] <;> rfl

/-! ## Accesses that can fail

The operations of the source with their bounds checked: `none` where an index is past the end. -/

/-- `buf[pos..pos + len]`. -/
def bytesAt? (buf : List UInt8) (pos len : Nat) : Option (List UInt8) :=
  if buf.length < pos + len then none else some (bytesAt buf pos len)

def leAt? (buf : List UInt8) (pos len : Nat) : Option Nat := (bytesAt? buf pos len).map leNat

def guidAt? (buf : List UInt8) (pos : Nat) : Option EfiGuid := do
  let data1 ← leAt? buf pos 4
  let data2 ← leAt? buf (pos + 4) 2
  let data3 ← leAt? buf (pos + 6) 2
  let data4 ← bytesAt? buf (pos + 8) 8
  return ⟨.ofNat data1, .ofNat data2, .ofNat data3, .ofList data4⟩

/-- `name[i]`, read from the two bytes at `pos`. -/
def unitAt? (buf : List UInt8) (pos i : Nat) : Option UInt16 :=
  if maxNameUnits ≤ i then none else (leAt? buf pos 2).map .ofNat

/-- The variable at `pos`; the inner `none` is where the loop of `deserialize` is left. -/
def parseAt? (buf : List UInt8) (pos : Nat) : Option (Option (Parsed × Nat)) := do
  if buf.length < pos + 2 then
    return none
  else
    let nameLen ← leAt? buf pos 2
    let pos := pos + 2
    if maxNameUnits < nameLen ∨ buf.length < pos + nameLen * 2 then
      return none
    else
      let name ← (List.range nameLen).mapM fun i => unitAt? buf (pos + 2 * i) i
      let pos := pos + 2 * nameLen
      if buf.length < pos + 16 + 4 + 4 then
        return none
      else
        let guid ← guidAt? buf pos
        let attributes ← leAt? buf (pos + 16) 4
        let dataLen ← leAt? buf (pos + 20) 4
        let pos := pos + 24
        if maxDataLen < dataLen ∨ buf.length < pos + dataLen then
          return none
        else
          let data ← bytesAt? buf pos dataLen
          return some (⟨name, guid, .ofNat attributes, data⟩, pos + dataLen)

/-- `name_nt`, of `MAX_NAME_UNITS + 1` units, with the name copied to its start. -/
def nameNt? (name : List UInt16) : Option (Arr UInt16 (maxNameUnits + 1)) :=
  if maxNameUnits + 1 < name.length then none else some ((Arr.fill 0).put 0 name)

/-- `read_name` in the array `name_nt`. -/
def readNameLoop? (nameNt : Arr UInt16 (maxNameUnits + 1)) :
    (n i : Nat) → Arr UInt16 maxNameUnits → Option (Option (Arr UInt16 maxNameUnits × Nat))
  | n, i, buf => do
    let c ← nameNt.toList[i]?
    if c = 0 then
      return some (buf, i)
    else
      match n with
      | 0 => return none
      | n + 1 => if maxNameUnits ≤ i then none else readNameLoop? nameNt n (i + 1) (buf.put i [c])

/-- `set` with the name read from `name_nt`. What it copies, and the names it compares, are in the arrays' bounds by
its own checks. -/
def set? (vars : Store) (nameNt : Arr UInt16 (maxNameUnits + 1)) (guid : EfiGuid) (attributes : UInt32)
    (data : List UInt8) : Option (Except VarError Unit × Store) := do
  let _ ← readNameLoop? nameNt maxNameUnits 0 (.fill 0)
  return set vars nameNt.nth guid attributes data

def deserializeLoop? (buf : List UInt8) : (n pos loaded : Nat) → Store → Option (Nat × Store)
  | 0, _, loaded, vars => return (loaded, vars)
  | n + 1, pos, loaded, vars => do
    match ← parseAt? buf pos with
    | none => return (loaded, vars)
    | some (p, pos) =>
      let nameNt ← nameNt? p.name
      match ← set? vars nameNt p.guid p.attributes p.data with
      | (.ok (), vars) => deserializeLoop? buf n pos (loaded + 1) vars
      | (.error _, vars) => deserializeLoop? buf n pos loaded vars

/-- What `deserialize` returns, and the store afterwards. -/
def deserialize? (buf : List UInt8) (vars : Store) : Option (Option Nat × Store) := do
  if buf.length < 8 then
    return (none, vars)
  else
    let start ← bytesAt? buf 0 4
    if start ≠ magic then
      return (none, vars)
    else
      let count ← leAt? buf 4 4
      let (loaded, vars) ← deserializeLoop? buf count 8 0 vars
      return (some loaded, vars)

theorem bytesAt?_eq {pos len : Nat} (h : pos + len ≤ buf.length) : bytesAt? buf pos len = some (bytesAt buf pos len) :=
  if_neg (Nat.not_lt.mpr h)

theorem leAt?_eq {pos len : Nat} (h : pos + len ≤ buf.length) : leAt? buf pos len = some (leAt buf pos len) := by
  rw [leAt?, bytesAt?_eq h]
  rfl

theorem guidAt?_eq {pos : Nat} (h : pos + 16 ≤ buf.length) : guidAt? buf pos = some (guidAt buf pos) := by
  rw [guidAt?, leAt?_eq (by omega), leAt?_eq (by omega), leAt?_eq (by omega), bytesAt?_eq (by omega)]
  rfl

theorem nameAt?_eq {pos nameLen : Nat} (hle : nameLen ≤ maxNameUnits) (h : pos + nameLen * 2 ≤ buf.length) :
    ((List.range nameLen).mapM fun i => unitAt? buf (pos + 2 * i) i) =
      some ((List.range nameLen).map fun i => UInt16.ofNat (leAt buf (pos + 2 * i) 2)) := by
  have hunit : ∀ i ∈ List.range nameLen,
      unitAt? buf (pos + 2 * i) i = some (UInt16.ofNat (leAt buf (pos + 2 * i) 2)) := by
    intro i hi
    have hlt := List.mem_range.mp hi
    rw [unitAt?, if_neg (by omega), leAt?_eq (by omega)]
    rfl
  generalize List.range nameLen = is at hunit
  induction is with
  | nil => rfl
  | cons i is ih =>
      rw [List.mapM_cons, hunit i List.mem_cons_self, ih fun j hj => hunit j (List.mem_cons_of_mem _ hj)]
      rfl

theorem parseAt?_eq (buf : List UInt8) (pos : Nat) : parseAt? buf pos = some (parseAt buf pos) := by
  unfold parseAt? parseAt
  split
  · rfl
  · rw [leAt?_eq (by omega)]
    simp only [Option.bind_eq_bind, Option.bind_some]
    split
    · rfl
    · rw [nameAt?_eq (by omega) (by omega)]
      simp only [Option.bind_some]
      split
      · rfl
      · rw [guidAt?_eq (by omega), leAt?_eq (by omega), leAt?_eq (by omega)]
        simp only [Option.bind_some]
        split
        · rfl
        · rw [bytesAt?_eq (by omega)]
          rfl

/-- What `parseAt` returns lies in the buffer, behind the 26 bytes of the fixed fields, and the name fits. -/
theorem parseAt_bounds {pos pos' : Nat} {p : Parsed} (h : parseAt buf pos = some (p, pos')) :
    pos + 26 ≤ pos' ∧ pos' ≤ buf.length ∧ p.name.length ≤ maxNameUnits := by
  unfold parseAt at h
  split at h
  · cases h
  · dsimp only at h
    split at h
    · cases h
    · split at h
      · cases h
      · split at h
        · cases h
        · cases h
          rw [List.length_map, List.length_range]
          omega

theorem nameNt?_eq {p : Parsed} (h : p.name.length ≤ maxNameUnits) :
    ∃ nameNt, nameNt? p.name = some nameNt ∧ nameNt.nth = p.namePtr := by
  have hle : p.name.length ≤ 32 := h
  refine ⟨_, if_neg (by rw [maxNameUnits]; omega), funext fun i => ?_⟩
  rw [Parsed.namePtr, List.getD_eq_getElem?_getD]
  by_cases hi : i < maxNameUnits + 1
  · rw [Arr.nth_put _ _ hi, if_pos (Nat.zero_le i), Arr.nth_fill hi, Nat.sub_zero]
  · rw [List.getElem?_eq_none (by rw [maxNameUnits] at hi; omega), Arr.nth, dif_neg hi]
    rfl

theorem readNameLoop?_eq (nameNt : Arr UInt16 (maxNameUnits + 1)) (n i : Nat) (name : Arr UInt16 maxNameUnits)
    (h : i + n ≤ maxNameUnits) : readNameLoop? nameNt n i name = some (readNameLoop nameNt.nth n i name) := by
  have hunit : ∀ i, i ≤ maxNameUnits → nameNt.toList[i]? = some (nameNt.nth i) := by
    intro i hi
    rw [Arr.getElem?_toList, if_pos (by omega)]
  induction n generalizing i name with
  | zero =>
      rw [readNameLoop?, readNameLoop, hunit i h]
      simp only [Option.bind_eq_bind, Option.bind_some]
      split <;> rfl
  | succ n ih =>
      rw [readNameLoop?, readNameLoop, hunit i (by omega)]
      simp only [Option.bind_eq_bind, Option.bind_some]
      split
      · rfl
      · rw [if_neg (by omega)]
        exact ih (i + 1) _ (by omega)

theorem deserializeLoop?_eq (buf : List UInt8) (n pos loaded : Nat) (vars : Store) :
    deserializeLoop? buf n pos loaded vars = some (deserializeLoop buf n pos loaded vars) := by
  induction n generalizing pos loaded vars with
  | zero => rfl
  | succ n ih =>
      rw [deserializeLoop?, deserializeLoop, parseAt?_eq]
      cases hp : parseAt buf pos with
      | none => rfl
      | some r =>
          obtain ⟨p, pos'⟩ := r
          obtain ⟨nameNt, hname, hptr⟩ := nameNt?_eq (parseAt_bounds hp).2.2
          have hread := readNameLoop?_eq nameNt maxNameUnits 0 (.fill 0) (by rw [Nat.zero_add])
          simp only [Option.bind_eq_bind, Option.bind_some, hname, set?, hread, hptr]
          cases set vars p.namePtr p.guid p.attributes p.data with
          | mk res vars' =>
              cases res with
              | ok u => exact ih _ _ _
              | error err => exact ih _ _ _

/-- No access of `deserialize` is out of range. -/
theorem deserialize?_eq (buf : List UInt8) (vars : Store) : deserialize? buf vars =
    some (((deserialize buf vars).map Prod.fst), ((deserialize buf vars).map Prod.snd).getD vars) := by
  unfold deserialize? deserialize
  by_cases h8 : buf.length < 8
  · rw [if_pos h8, if_pos (.inl h8)]
    rfl
  · rw [if_neg h8, bytesAt?_eq (by omega)]
    simp only [Option.bind_eq_bind, Option.bind_some]
    by_cases hm : bytesAt buf 0 4 = magic
    · rw [if_neg (not_not.mpr hm), if_neg (by rw [not_or]; exact ⟨h8, not_not.mpr hm⟩), leAt?_eq (by omega)]
      simp only [Option.bind_some, deserializeLoop?_eq]
      rfl
    · rw [if_pos hm, if_pos (.inr hm)]
      rfl

/-! ## Any bytes -/

theorem length_records_le (buf : List UInt8) (n pos : Nat) :
    (records buf n pos).length * 26 ≤ buf.length - pos := by
  induction n generalizing pos with
  | zero => exact Nat.zero_le _
  | succ n ih =>
      unfold records
      cases hp : parseAt buf pos with
      | none => exact Nat.zero_le _
      | some r =>
          have hb := parseAt_bounds hp
          have hrest := ih r.2
          dsimp only at hrest ⊢
          rw [List.length_cons, Nat.succ_mul]
          omega

theorem setAll_count_le (ps : List Parsed) (loaded : Nat) (vars : Store) :
    (setAll ps loaded vars).1 ≤ loaded + ps.length := by
  induction ps generalizing loaded vars with
  | nil => exact Nat.le_refl _
  | cons p ps ih =>
      have hrest := ih (if (set vars p.namePtr p.guid p.attributes p.data).1.isOk then loaded + 1 else loaded)
        (set vars p.namePtr p.guid p.attributes p.data).2
      rw [List.length_cons]
      refine Nat.le_trans hrest ?_
      split <;> omega

/-- The variables that a file holds, as `deserialize` goes through them. -/
def fileRecords (buf : List UInt8) : List Parsed := records buf (leAt buf 4 4) 8

/-- On any bytes `deserialize` accesses nothing out of range. It loads no more variables than the bytes can hold, keeps the
invariant of the store and every variable that the file does not name, or else it leaves the store as it is. -/
theorem deserialize_safe (h : Reachable vars) (buf : List UInt8) : ∃ r vars', deserialize? buf vars = some (r, vars') ∧
    deserialize buf vars = r.map (·, vars') ∧ (r = none → vars' = vars) ∧ (∀ k, r = some k → k ≤ (buf.length - 8) / 26) ∧
    Valid vars' ∧ ∀ key, (∀ p ∈ fileRecords buf, p.key ≠ key) → toMap vars' key = toMap vars key := by
  refine ⟨_, _, deserialize?_eq buf vars, ?_⟩
  cases hd : deserialize buf vars with
  | none => exact ⟨rfl, fun _ => rfl, fun _ hk => (by cases hk), h.valid, fun _ _ => rfl⟩
  | some r =>
      refine ⟨rfl, fun hr => (by cases hr), fun k hk => ?_, ?_, fun key hkey => ?_⟩
      · cases hk
        rw [deserialize_eq_some hd]
        have hcount := setAll_count_le (fileRecords buf) 0 vars
        have hlen := length_records_le buf (leAt buf 4 4) 8
        rw [fileRecords] at hcount
        omega
      · have hreach := h.setAll (fileRecords buf) 0
        rw [fileRecords, ← deserialize_eq_some hd] at hreach
        exact hreach.valid
      · have hsame := h.valid.setAll_of_not_mem (fileRecords buf) 0 hkey
        rw [fileRecords, ← deserialize_eq_some hd] at hsame
        exact hsame

/-- A count of 2^32 - 1 with nothing behind it. -/
theorem deserialize_safe_count : ∃ vars', deserialize? (magic ++ [0xFF, 0xFF, 0xFF, 0xFF]) storeB = some (some 0, vars') ∧
    Valid vars' := by
  obtain ⟨r, vars', hrun, hd, _, hcount, hv, _⟩ :=
    deserialize_safe reachable_storeB (magic ++ [0xFF, 0xFF, 0xFF, 0xFF])
  cases r with
  | none =>
      rw [deserialize, if_neg (by decide)] at hd
      cases hd
  | some k =>
      have hk : k ≤ 0 := hcount k rfl
      rw [Nat.le_zero.mp hk] at hrun
      exact ⟨vars', hrun, hv⟩

end Variables

end Ferro
