import Ferro.Files.Names

/-!
# File device paths (`efi/device_path.rs`)

`build_file_path` collects the name in an array of 13 units and writes the path into a static buffer, which still holds
the path before. An index past the end of either panics; the model has `none` there.
-/

namespace Ferro

namespace DevicePath

def typeMedia : UInt8 := 0x04

def subtypeFilePath : UInt8 := 0x04

def typeEnd : UInt8 := 0x7F

def subtypeEndEntire : UInt8 := 0xFF

def maxFilePathBytes : Nat := 4 + 2 * 13 + 2 + 4

/-! ## Writing -/

/-- `buf[offset..offset + src.len()].copy_from_slice(src)`. -/
def copyAt {n : Nat} (buf : Bytes n) (offset : Nat) (src : List UInt8) : Option (Bytes n) :=
  if offset + src.length ≤ n then some (buf.put offset src) else none

/-- The buffer and the offset behind the header. -/
def writeHeader {n : Nat} (buf : Bytes n) (offset : Nat) (nodeType subType : UInt8) (length : UInt16) :
    Option (Bytes n × Nat) := do
  let buf ← copyAt buf offset [nodeType]
  let buf ← copyAt buf (offset + 1) [subType]
  let buf ← copyAt buf (offset + 2) (leBytes 2 length.toNat)
  return (buf, offset + 4)

def writeEnd {n : Nat} (buf : Bytes n) (offset : Nat) : Option (Bytes n × Nat) :=
  writeHeader buf offset typeEnd subtypeEndEntire 4

/-- `name_units[n] = unit; n += 1`. -/
def pushUnit (nameUnits : List UInt16) (unit : UInt16) : Option (List UInt16) :=
  if nameUnits.length < 13 then some (nameUnits ++ [unit]) else none

/-- The loops over the bytes of the name, which leave out spaces. -/
def pushBytes (nameUnits : List UInt16) (bs : List UInt8) : Option (List UInt16) :=
  bs.foldlM (fun nameUnits b => if b ≠ 0x20 then pushUnit nameUnits b.toUInt16 else some nameUnits) nameUnits

def nameUnits (name83 : Name) : Option (List UInt16) := do
  let units ← pushUnit [] 0x5C
  let units ← pushBytes units (name83.slice 0 8)
  let ext := name83.slice 8 3
  let units ← if ext ≠ [0x20, 0x20, 0x20] then do pushBytes (← pushUnit units 0x2E) ext else some units
  pushUnit units 0

/-- The loop that writes the units. -/
def writeUnits {n : Nat} (buf : Bytes n) (offset : Nat) (units : List UInt16) : Option (Bytes n × Nat) :=
  units.foldlM (fun (buf, off) unit => (copyAt buf off (leBytes 2 unit.toNat)).map fun buf => (buf, off + 2))
    (buf, offset)

/-- `FILE_PATH_BUF` behind the call. -/
def buildFilePath (buf : Bytes maxFilePathBytes) (name83 : Name) : Option (Bytes maxFilePathBytes) := do
  let units ← nameUnits name83
  let nodeLen := 4 + units.length * 2
  let (buf, off) ← writeHeader buf 0 typeMedia subtypeFilePath (UInt16.ofNat nodeLen)
  let (buf, off) ← writeUnits buf off units
  let (buf, _) ← writeEnd buf off
  return buf

/-! ## Reading -/

/-- Walking a path by its nodes' lengths: the offset of its End node. -/
def walk {n : Nat} (path : Bytes n) : (fuel off : Nat) → Option Nat
  | 0, _ => none
  | fuel + 1, off =>
    if n < off + 4 then
      none
    else if path.nth off = typeEnd ∧ path.nth (off + 1) = subtypeEndEntire then
      some off
    else
      walk path fuel (off + leNat (path.slice (off + 2) 2))

/-- A Media/FilePath node with the text, and an End node right behind it. -/
structure IsFilePath {n : Nat} (path : Bytes n) (text : List UInt16) : Prop where
  fits : 4 + 2 * text.length + 4 ≤ n
  node : path.slice 0 2 = [typeMedia, subtypeFilePath]
  nodeLen : leNat (path.slice 2 2) = 4 + 2 * text.length
  units : path.slice 4 (2 * text.length) = text.flatMap fun unit => leBytes 2 unit.toNat
  last : path.slice (4 + 2 * text.length) 4 = [typeEnd, subtypeEndEntire, 4, 0]

/-! ## The name's units -/

/-- Units that fit in the array. -/
def fit (units : List UInt16) : Option (List UInt16) := if units.length ≤ 13 then some units else none

theorem fit_bind_pushUnit (units : List UInt16) (unit : UInt16) :
    (fit units).bind (pushUnit · unit) = fit (units ++ [unit]) := by
  simp only [fit, pushUnit, List.length_append, List.length_singleton]
  by_cases h : units.length < 13
  · simp [h, Nat.le_of_lt h, show units.length + 1 ≤ 13 by omega]
  · by_cases h' : units.length ≤ 13
    · simp [h, h', show ¬ units.length + 1 ≤ 13 by omega]
    · simp [h', show ¬ units.length + 1 ≤ 13 by omega]

theorem pushBytes_cons (units : List UInt16) (b : UInt8) (bs : List UInt8) :
    pushBytes units (b :: bs) =
      (if b ≠ 0x20 then pushUnit units b.toUInt16 else some units).bind (pushBytes · bs) := rfl

theorem fit_bind_pushBytes (units : List UInt16) (bs : List UInt8) :
    (fit units).bind (pushBytes · bs) = fit (units ++ (bs.filter (· ≠ 0x20)).map UInt8.toUInt16) := by
  induction bs generalizing units with
  | nil => simp [pushBytes]
  | cons b bs ih =>
      by_cases hb : b = 0x20
      · simpa [pushBytes_cons, hb] using ih units
      · have hpush := ih (units ++ [b.toUInt16])
        rw [← fit_bind_pushUnit, Option.bind_assoc] at hpush
        simpa [pushBytes_cons, hb] using hpush

theorem nameUnits_eq (name83 : Name) : nameUnits name83 = fit (0x5C :: infoName name83) := by
  have hstart : pushUnit [] 0x5C = fit [0x5C] := rfl
  have hbase := fit_bind_pushBytes [0x5C] (name83.slice 0 8)
  simp only [nameUnits, hstart, Option.bind_eq_bind, ← Option.bind_assoc, hbase]
  by_cases hext : name83.slice 8 3 = [0x20, 0x20, 0x20]
  · simp [hext, fit_bind_pushUnit, infoName]
  · simp [hext, ← Option.bind_assoc, fit_bind_pushUnit, fit_bind_pushBytes, infoName]

theorem length_filter_lt_iff (l : List UInt8) : (l.filter (· ≠ 0x20)).length < l.length ↔ 0x20 ∈ l := by
  have hle := List.length_filter_le (fun x => decide (x ≠ 0x20)) l
  have hself : (l.filter (· ≠ 0x20)).length = l.length ↔ 0x20 ∉ l := by
    rw [← filter_eq_self_iff]
    exact ⟨fun h => List.filter_sublist.eq_of_length h, fun h => by rw [h]⟩
  constructor
  · intro hlt
    by_contra hmem
    have := hself.mpr hmem
    omega
  · intro hmem
    have := mt hself.mp (not_not.mpr hmem)
    omega

/-- Only a name of eight and three characters has a unit too many. -/
theorem length_units_le_iff (name83 : Name) : (0x5C :: infoName name83).length ≤ 13 ↔ 0x20 ∈ name83.toList := by
  have hbase := length_filter_lt_iff (name83.slice 0 8)
  have hext := length_filter_lt_iff (name83.slice 8 3)
  have hbaseLen := List.length_filter_le (fun x => decide (x ≠ 0x20)) (name83.slice 0 8)
  have hextLen := List.length_filter_le (fun x => decide (x ≠ 0x20)) (name83.slice 8 3)
  rw [Arr.length_slice _ (by decide)] at hbase hext hbaseLen hextLen
  rw [name83.toList_eq, List.mem_append, ← hbase, ← hext, infoName]
  by_cases hblank : name83.slice 8 3 = [0x20, 0x20, 0x20]
  · have hnil : ((name83.slice 8 3).filter (· ≠ 0x20)).length = 0 := by rw [hblank]; rfl
    rw [if_neg (not_not.mpr hblank)]
    simp only [List.length_cons, List.length_append, List.length_map, List.length_nil]
    omega
  · rw [if_pos hblank]
    simp only [List.length_cons, List.length_append, List.length_map, List.length_nil]
    omega

/-! ## The buffer -/

theorem copyAt_copyAt {n : Nat} (buf : Bytes n) (offset : Nat) (src src' : List UInt8) :
    (copyAt buf offset src).bind (copyAt · (offset + src.length) src') = copyAt buf offset (src ++ src') := by
  simp only [copyAt, List.length_append]
  by_cases h : offset + src.length ≤ n
  · simp [h, Arr.put_append, Nat.add_assoc]
  · simp [h, show ¬ offset + (src.length + src'.length) ≤ n by omega]

theorem writeHeader_eq {n : Nat} (buf : Bytes n) (offset : Nat) (nodeType subType : UInt8) (length : UInt16) :
    writeHeader buf offset nodeType subType length =
      (copyAt buf offset (nodeType :: subType :: leBytes 2 length.toNat)).map fun buf => (buf, offset + 4) := by
  have hhead := copyAt_copyAt buf offset [nodeType] [subType]
  have hlen := copyAt_copyAt buf offset [nodeType, subType] (leBytes 2 length.toNat)
  rw [List.singleton_append, List.length_singleton] at hhead
  simp only [writeHeader, Option.bind_eq_bind, ← Option.bind_assoc, hhead]
  rw [Option.map_eq_bind]
  exact congrArg (Option.bind · fun buf => some (buf, offset + 4)) hlen

theorem writeUnits_cons {n : Nat} (buf : Bytes n) (offset : Nat) (unit : UInt16) (units : List UInt16) :
    writeUnits buf offset (unit :: units) =
      (copyAt buf offset (leBytes 2 unit.toNat)).bind (writeUnits · (offset + 2) units) := by
  simp [writeUnits, List.foldlM_cons, Option.bind_map]

theorem writeUnits_eq {n : Nat} (buf : Bytes n) {offset : Nat} (h : offset ≤ n) (units : List UInt16) :
    writeUnits buf offset units =
      (copyAt buf offset (units.flatMap fun unit => leBytes 2 unit.toNat)).map fun buf =>
        (buf, offset + 2 * units.length) := by
  induction units generalizing buf offset with
  | nil => simp [writeUnits, copyAt, h]
  | cons unit units ih =>
      have hput := copyAt_copyAt buf offset (leBytes 2 unit.toNat) (units.flatMap fun unit => leBytes 2 unit.toNat)
      rw [writeUnits_cons, List.flatMap_cons, ← hput]
      cases hcopy : copyAt buf offset (leBytes 2 unit.toNat) with
      | none => rfl
      | some buf' =>
          have hfits : offset + 2 ≤ n := by
            rw [copyAt, Option.ite_none_right_eq_some] at hcopy
            exact hcopy.1
          have hlen : offset + 2 * (units.length + 1) = offset + 2 + 2 * units.length := by omega
          rw [Option.bind_some, Option.bind_some, ih buf' hfits, List.length_cons, hlen, length_leBytes]

/-- What a call writes in front of the rest of the buffer. -/
def pathBytes (text : List UInt16) : List UInt8 :=
  typeMedia :: subtypeFilePath :: leBytes 2 (4 + text.length * 2) ++ (text.flatMap fun unit => leBytes 2 unit.toNat) ++
    [typeEnd, subtypeEndEntire, 4, 0]

theorem length_flatMap_leBytes (text : List UInt16) :
    (text.flatMap fun unit => leBytes 2 unit.toNat).length = 2 * text.length := by
  simp [List.length_flatMap, Nat.mul_comm]

theorem copyAt_of_le {n : Nat} {buf : Bytes n} {offset : Nat} {src : List UInt8} (h : offset + src.length ≤ n) :
    copyAt buf offset src = some (buf.put offset src) := if_pos h

theorem buildFilePath_eq (buf : Bytes maxFilePathBytes) (name83 : Name) :
    buildFilePath buf name83 = (fit (0x5C :: infoName name83)).map fun text => buf.put 0 (pathBytes text) := by
  rw [buildFilePath, nameUnits_eq]
  cases hfit : fit (0x5C :: infoName name83) with
  | none => rfl
  | some text =>
      have hlen : text.length ≤ 13 := by
        rw [fit, Option.ite_none_right_eq_some] at hfit
        cases hfit.2
        exact hfit.1
      have hmax : maxFilePathBytes = 36 := rfl
      have hbody := length_flatMap_leBytes text
      have hnode : (UInt16.ofNat (4 + text.length * 2)).toNat = 4 + text.length * 2 := by
        rw [UInt16.toNat_ofNat']
        omega
      have hheader : writeHeader buf 0 typeMedia subtypeFilePath (UInt16.ofNat (4 + text.length * 2)) =
          some (buf.put 0 (typeMedia :: subtypeFilePath :: leBytes 2 (4 + text.length * 2)), 4) := by
        rw [writeHeader_eq, hnode, copyAt_of_le (by simp [hmax])]
        rfl
      have hfour : 4 ≤ maxFilePathBytes := by
        rw [hmax]
        decide
      have hunits := writeUnits_eq (buf.put 0 (typeMedia :: subtypeFilePath :: leBytes 2 (4 + text.length * 2))) hfour text
      rw [copyAt_of_le (by omega), Option.map_some] at hunits
      have hend := writeHeader_eq ((buf.put 0 (typeMedia :: subtypeFilePath :: leBytes 2 (4 + text.length * 2))).put 4
        (text.flatMap fun unit => leBytes 2 unit.toNat)) (4 + 2 * text.length) typeEnd subtypeEndEntire 4
      rw [copyAt_of_le (by simp [hmax]; omega), Option.map_some] at hend
      simp only [Option.bind_eq_bind, Option.bind_some, hheader, hunits, writeEnd, hend, Option.map_some, pathBytes,
        Arr.put_append, List.length_append, hbody]
      simp
      rfl

theorem isFilePath_put {buf : Bytes maxFilePathBytes} {text : List UInt16} (h : text.length ≤ 13) :
    IsFilePath (buf.put 0 (pathBytes text)) text := by
  have hmax : maxFilePathBytes = 36 := rfl
  have hbody := length_flatMap_leBytes text
  have hlen : (pathBytes text).length = 8 + 2 * text.length := by
    simp [pathBytes, hbody]
    omega
  have hslice : ∀ i len, i + len ≤ (pathBytes text).length →
      (buf.put 0 (pathBytes text)).slice i len = ((pathBytes text).drop i).take len := by
    intro i len hi
    have hinside : 0 + (pathBytes text).length ≤ maxFilePathBytes := by omega
    rw [← Arr.slice_put_inside buf hinside hi, Nat.zero_add]
  have hhead : pathBytes text = [typeMedia, subtypeFilePath] ++ leBytes 2 (4 + text.length * 2) ++
      ((text.flatMap fun unit => leBytes 2 unit.toNat) ++ [typeEnd, subtypeEndEntire, 4, 0]) := by
    simp [pathBytes]
  constructor
  · omega
  · rw [hslice _ _ (by omega)]
    rfl
  · rw [hslice _ _ (by omega), hhead, take_drop_middle (i := 2) (k := 2) _ _ _ rfl rfl, leNat_leBytes]
    omega
  · rw [hslice _ _ (by omega), pathBytes, take_drop_middle (i := 4) _ _ _ rfl hbody]
  · rw [hslice _ _ (by omega), pathBytes, List.drop_left' (by simp [hbody]; omega)]
    rfl

/-- A walk by the nodes' lengths ends at the End node. -/
theorem IsFilePath.walk {n : Nat} {path : Bytes n} {text : List UInt16} (h : IsFilePath path text) :
    walk path 2 0 = some (4 + 2 * text.length) := by
  have hfits := h.fits
  have hnode : 0 + 2 ≤ n := by omega
  have hfirst := Arr.getElem?_slice path hnode 0
  have hend := Arr.getElem?_slice path hfits 0
  have hsub := Arr.getElem?_slice path hfits 1
  rw [h.node] at hfirst
  rw [h.last] at hend hsub
  simp only [List.getElem?_cons_zero, List.getElem?_cons_succ, Nat.add_zero, Nat.zero_lt_succ, if_true,
    Option.some.injEq, Nat.one_lt_ofNat] at hfirst hend hsub
  have hmedia : ¬ (path.nth 0 = typeEnd ∧ path.nth (0 + 1) = subtypeEndEntire) := by
    rw [← hfirst]
    exact fun h => absurd h.1 (by decide)
  rw [DevicePath.walk, if_neg (by omega), if_neg hmedia, h.nodeLen, Nat.zero_add, DevicePath.walk,
    if_neg (by omega), if_pos ⟨hend.symm, hsub.symm⟩]

theorem IsFilePath.text_eq {n : Nat} {path : Bytes n} {text text' : List UInt16} (h : IsFilePath path text)
    (h' : IsFilePath path text') : text = text' := by
  have hlen : text.length = text'.length := by
    have := h.nodeLen.symm.trans h'.nodeLen
    omega
  refine flatMap_leBytes_inj.mp ?_
  rw [← h.units, ← h'.units, hlen]

/-! ## Names -/

/-- The path of a file is built and well formed iff the name has a space and spaces are padding only. -/
theorem buildFilePath_wellFormed_iff (buf : Bytes maxFilePathBytes) (name83 : Name) :
    (∃ path, buildFilePath buf name83 = some path ∧ IsFilePath path (0x5C :: name83.shown) ∧
        walk path 2 0 = some (4 + 2 * (0x5C :: name83.shown).length)) ↔
      0x20 ∈ name83.toList ∧ name83.Unbroken := by
  rw [← length_units_le_iff, ← Name.infoName_eq_shown_iff, buildFilePath_eq, fit]
  constructor
  · rintro ⟨path, hbuild, hpath, -⟩
    by_cases hlen : (0x5C :: infoName name83).length ≤ 13
    · rw [if_pos hlen] at hbuild
      cases hbuild
      exact ⟨hlen, (List.cons.inj ((isFilePath_put hlen).text_eq hpath)).2⟩
    · rw [if_neg hlen] at hbuild
      cases hbuild
  · rintro ⟨hlen, hname⟩
    rw [if_pos hlen, ← hname]
    exact ⟨_, rfl, isFilePath_put hlen, (isFilePath_put hlen).walk⟩

/-- `BOOTAA64.EFI`. -/
def bootName : Name := .ofList [0x42, 0x4F, 0x4F, 0x54, 0x41, 0x41, 0x36, 0x34, 0x45, 0x46, 0x49]

/-- A name of eight and three characters: the terminator would be the fourteenth unit. -/
theorem buildFilePath_bootName : buildFilePath (.fill 0) bootName = none := by decide +kernel

end DevicePath

end Ferro
