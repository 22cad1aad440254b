import Ferro.Files.DirReads

/-!
# Names shown and names opened

`write_file_info` shows the name of an entry, and an application opens the file by the name that it was shown.
-/

namespace Ferro

/-! ## Padding -/

/-- A name with the given parts. -/
def Name.ofParts (base ext : List UInt8) : Name := ((Arr.fill 0x20 : Name).put 0 base).put 8 ext

/-- Writing over equal elements. -/
theorem Arr.slice_put_replicate {α : Type} [Inhabited α] {n : Nat} {a : Arr α n} {x : α} {off len : Nat} {src : List α}
    (h : off + len ≤ n) (hlen : src.length ≤ len) (hx : ∀ i < len, a.nth (off + i) = x) :
    (a.put off src).slice off len = src ++ List.replicate (len - src.length) x := by
  apply List.ext_getElem?
  intro i
  rw [Arr.getElem?_slice _ h]
  by_cases hi : i < src.length
  · rw [if_pos (by omega), Arr.nth_put_of_mem a src (by omega) (by omega) (by omega), List.getElem?_append_left hi,
      List.getElem?_eq_getElem hi]
    congr 2
    omega
  · rw [List.getElem?_append_right (by omega), List.getElem?_replicate]
    by_cases hi' : i < len
    · rw [if_pos hi', if_pos (by omega), Arr.nth_put_of_not_mem a src (by omega), hx i hi']
    · rw [if_neg hi', if_neg (by omega)]

theorem rdropWhile_append_replicate {l : List UInt8} (h : 0x20 ∉ l) (k : Nat) :
    (l ++ List.replicate k 0x20).rdropWhile (· = 0x20) = l := by
  induction k with
  | zero =>
      rw [List.replicate_zero, List.append_nil, List.rdropWhile_eq_self_iff]
      intro hl hlast
      exact h (of_decide_eq_true hlast ▸ List.getLast_mem hl)
  | succ k ih => rw [List.replicate_succ', ← List.append_assoc, List.rdropWhile_concat_pos _ _ _ (by simp), ih]

/-- A list is its part without the padding, and the padding. -/
theorem append_replicate_rdropWhile (l : List UInt8) :
    l.rdropWhile (· = 0x20) ++ List.replicate (l.length - (l.rdropWhile (· = 0x20)).length) 0x20 = l := by
  have hl := List.rdropWhile_append_rtakeWhile (p := fun x : UInt8 => decide (x = 0x20)) (l := l)
  have hpad : l.rtakeWhile (· = 0x20) = List.replicate (l.rtakeWhile (· = 0x20)).length 0x20 :=
    List.eq_replicate_of_mem fun x hx => by simpa using List.mem_rtakeWhile_imp hx
  have hlen := congrArg List.length hl
  rw [List.length_append] at hlen
  have hpadLen : l.length - (l.rdropWhile (· = 0x20)).length = (l.rtakeWhile (· = 0x20)).length := by omega
  rw [hpadLen, ← hpad, hl]

namespace Name

variable {base ext : List UInt8}

theorem slice_ofParts_base (hb : base.length ≤ 8) :
    (ofParts base ext).slice 0 8 = base ++ List.replicate (8 - base.length) 0x20 := by
  rw [ofParts, Arr.slice_put_disjoint _ _ (by decide) (.inl (by decide))]
  exact Arr.slice_put_replicate (by decide) hb fun i hi => Arr.nth_fill (by omega)

theorem slice_ofParts_ext (hb : base.length ≤ 8) (he : ext.length ≤ 3) :
    (ofParts base ext).slice 8 3 = ext ++ List.replicate (3 - ext.length) 0x20 := by
  refine Arr.slice_put_replicate (by decide) he fun i hi => ?_
  rw [Arr.nth_put_of_not_mem _ _ (.inr (by omega)), Arr.nth_fill (by omega)]

theorem toList_eq (name : Name) : name.toList = name.slice 0 8 ++ name.slice 8 3 := by
  have hall : (name.toList.drop 8).take 3 = name.toList.drop 8 := by
    rw [List.take_of_length_le]
    simp
  rw [Arr.slice, Arr.slice, List.drop_zero, hall, List.take_append_drop]

theorem length_base_le (name : Name) : name.base.length ≤ 8 := by
  have := (List.rdropWhile_prefix (fun x : UInt8 => decide (x = 0x20)) (l := name.slice 0 8)).length_le
  rwa [Arr.length_slice _ (by decide)] at this

theorem length_ext_le (name : Name) : name.ext.length ≤ 3 := by
  have := (List.rdropWhile_prefix (fun x : UInt8 => decide (x = 0x20)) (l := name.slice 8 3)).length_le
  rwa [Arr.length_slice _ (by decide)] at this

theorem ofParts_base_ext (name : Name) : ofParts name.base name.ext = name := by
  have hbase := append_replicate_rdropWhile (name.slice 0 8)
  have hext := append_replicate_rdropWhile (name.slice 8 3)
  rw [Arr.length_slice _ (by decide)] at hbase hext
  have hlist : (ofParts name.base name.ext).toList = name.toList := by
    rw [toList_eq, toList_eq name, slice_ofParts_base name.length_base_le,
      slice_ofParts_ext name.length_base_le name.length_ext_le, base, hbase, ext, hext]
  rw [← Arr.ofList_toList (ofParts name.base name.ext), hlist, Arr.ofList_toList]

/-- The parts of a name are those that it is made of. -/
theorem base_ofParts (hb : base.length ≤ 8) (hsp : 0x20 ∉ base) : (ofParts base ext).base = base := by
  rw [Name.base, slice_ofParts_base hb, rdropWhile_append_replicate hsp]

theorem ext_ofParts (hb : base.length ≤ 8) (he : ext.length ≤ 3) (hsp : 0x20 ∉ ext) :
    (ofParts base ext).ext = ext := by
  rw [Name.ext, slice_ofParts_ext hb he, rdropWhile_append_replicate hsp]

end Name

/-! ## Components -/

/-- The characters of a name, without its padding; the dot only in front of an extension. -/
def component (base ext : List UInt8) : List UInt8 := base ++ if ext = [] then [] else 0x2E :: ext

/-- A component without the dot that nothing follows. -/
def withoutLastDot (comp : List UInt8) : List UInt8 :=
  if comp.findIdx? (· == 0x2E) = some (comp.length - 1) then comp.dropLast else comp

theorem findIdx?_no_dot {comp : List UInt8} (h : 0x2E ∉ comp) : comp.findIdx? (· == 0x2E) = none := by
  rw [List.findIdx?_eq_none_iff]
  intro b hb
  exact beq_false_of_ne fun he => h (he ▸ hb)

theorem findIdx?_dot {base : List UInt8} (h : 0x2E ∉ base) (ext : List UInt8) :
    (base ++ 0x2E :: ext).findIdx? (· == 0x2E) = some base.length := by
  simp [List.findIdx?_append, findIdx?_no_dot h, List.findIdx?_cons]

theorem splitDot_append {base : List UInt8} (h : 0x2E ∉ base) (ext : List UInt8) :
    splitDot (base ++ 0x2E :: ext) = (base, ext) := by
  simp [splitDot, findIdx?_dot h]

theorem splitDot_of_not_mem {comp : List UInt8} (h : 0x2E ∉ comp) : splitDot comp = (comp, []) := by
  simp [splitDot, findIdx?_no_dot h]

/-- A component has no dot, or parts around its first dot. -/
theorem splitDot_cases (comp : List UInt8) :
    (0x2E ∉ comp ∧ splitDot comp = (comp, [])) ∨
      ∃ base ext, 0x2E ∉ base ∧ comp = base ++ 0x2E :: ext ∧ splitDot comp = (base, ext) := by
  by_cases h : 0x2E ∈ comp
  · obtain ⟨base, ext, rfl, hbase⟩ := List.eq_append_cons_of_mem h
    exact .inr ⟨base, ext, hbase, rfl, splitDot_append hbase ext⟩
  · exact .inl ⟨h, splitDot_of_not_mem h⟩

theorem to83_eq_some_iff {comp : List UInt8} {name : Name} :
    to83 comp = some name ↔ (splitDot comp).1 ≠ [] ∧ (splitDot comp).1.length ≤ 8 ∧ (splitDot comp).2.length ≤ 3 ∧
      name = .ofParts ((splitDot comp).1.map toAsciiUppercase) ((splitDot comp).2.map toAsciiUppercase) := by
  rw [to83]
  rcases splitDot comp with ⟨base, ext⟩
  by_cases hfits : base ≠ [] ∧ base.length ≤ 8 ∧ ext.length ≤ 3
  · obtain ⟨hne, hb, he⟩ := hfits
    have hsome : (base.isEmpty || decide (8 < base.length) || decide (3 < ext.length)) = false := by
      simp [hne, hb, he]
    simp only [hsome, Bool.false_eq_true, if_false, Option.some.injEq]
    exact ⟨fun h => ⟨hne, hb, he, h.symm⟩, fun h => h.2.2.2.symm⟩
  · have hnone : (base.isEmpty || decide (8 < base.length) || decide (3 < ext.length)) = true := by
      simp only [Bool.or_eq_true, decide_eq_true_eq, List.isEmpty_iff]
      by_contra hno
      simp only [not_or, Nat.not_lt] at hno
      exact hfits ⟨hno.1.1, hno.1.2, hno.2⟩
    simp only [hnone, if_true, reduceCtorEq, false_iff]
    exact fun h => hfits ⟨h.1, h.2.1, h.2.2.1⟩

theorem component_splitDot (comp : List UInt8) :
    component (splitDot comp).1 (splitDot comp).2 = withoutLastDot comp := by
  rcases splitDot_cases comp with ⟨hdot, he⟩ | ⟨base, ext, hbase, rfl, he⟩
  · simp [he, component, withoutLastDot, findIdx?_no_dot hdot]
  · rw [he, withoutLastDot, findIdx?_dot hbase, component]
    cases ext with
    | nil => simp
    | cons b ext => simp

/-! ## The name in a buffer -/

/-- The `FileName` of an `EFI_FILE_INFO`. -/
def fileName (info : List UInt8) : Ptr16 := fun i => UInt16.ofNat (leNat (((info.drop 80).drop (i * 2)).take 2))

theorem drop_fileInfo (units : List UInt16) (size : Nat) (isDir : Bool) :
    (fileInfo units size isDir).drop 80 = units.flatMap fun unit => leBytes 2 unit.toNat :=
  List.drop_left' (by simp)

theorem fileName_fileInfo {units : List UInt16} {size : Nat} {isDir : Bool} {i : Nat} (h : i < units.length) :
    fileName (fileInfo units size isDir) i = units[i] := by
  have hlt := units[i].toNat_lt
  rw [fileName, drop_fileInfo, take_drop_flatMap units (fun _ => length_leBytes 2 _) h, leNat_leBytes]
  apply UInt16.toNat_inj.mp
  rw [UInt16.toNat_ofNat']
  omega

/-- A string that spells ASCII characters is read as these. -/
theorem char16Loop_spelled {path : Ptr16} {chars : List UInt8} {n i : Nat} (out : List UInt8) (hlen : chars.length ≤ n)
    (hchars : ∀ b ∈ chars, PathByte b)
    (hpath : ∀ j, (h : j < chars.length) → path (i + j) = chars[j].toUInt16) (hend : path (i + chars.length) = 0) :
    char16Loop path n i out = some (out ++ chars) := by
  induction chars generalizing n i out with
  | nil =>
      have hzero : path i = 0 := hend
      rw [List.append_nil]
      cases n <;> simp [char16Loop, hzero]
  | cons b chars ih =>
      obtain ⟨hne, hlt⟩ := hchars b List.mem_cons_self
      have hb : path i = b.toUInt16 := hpath 0 (Nat.zero_lt_succ _)
      have hchar : b.toUInt16.toUInt8 = b := by simp
      have hunit : b.toUInt16 ≠ 0 := fun h => hne (by rw [← hchar, h]; rfl)
      have hascii : b.toUInt16 < 128 := by
        rw [UInt16.lt_iff_toNat_lt, UInt8.toNat_toUInt16]
        exact hlt
      cases n with
      | zero => exact absurd hlen (by simp)
      | succ n =>
          rw [char16Loop, hb, if_neg hunit, if_pos hascii, hchar, ih (out ++ [b]) (by simpa using hlen)
            (fun c hc => hchars c (List.mem_cons_of_mem _ hc)), List.append_assoc, List.singleton_append]
          · intro j hj
            rw [Nat.add_assoc, Nat.add_comm 1 j]
            exact hpath (j + 1) (Nat.succ_lt_succ hj)
          · rwa [List.length_cons, Nat.add_comm chars.length 1, ← Nat.add_assoc] at hend

/-! ## Round trips -/

/-- An ASCII name as a directory holds it: with a base, in upper case, without dots, and with spaces for padding
only. -/
structure Name.Plain (name : Name) : Prop where
  chars : ∀ b ∈ name.toList, b < 0x80 ∧ ¬ (0x61 ≤ b ∧ b ≤ 0x7A) ∧ b ≠ 0x2E ∧ b ≠ 0x5C ∧ b ≠ 0
  base : name.base ≠ []
  padded : name.Unbroken

theorem shown_eq_component (name : Name) :
    name.shown = (component name.base name.ext).map UInt8.toUInt16 ++ [0] := rfl

theorem Name.mem_toList_of_mem_base {name : Name} {b : UInt8} (h : b ∈ name.base) : b ∈ name.toList := by
  rw [toList_eq]
  exact List.mem_append_left _ ((List.rdropWhile_prefix _ _).subset h)

theorem Name.mem_toList_of_mem_ext {name : Name} {b : UInt8} (h : b ∈ name.ext) : b ∈ name.toList := by
  rw [toList_eq]
  exact List.mem_append_right _ ((List.rdropWhile_prefix _ _).subset h)

theorem map_toAsciiUppercase {l : List UInt8} (h : ∀ b ∈ l, ¬ (0x61 ≤ b ∧ b ≤ 0x7A)) :
    l.map toAsciiUppercase = l := by
  refine (List.map_congr_left fun b hb => ?_).trans (List.map_id l)
  exact if_neg (h b hb)

/-- The parser takes a name apart as it was put together. -/
theorem to83_component {name : Name} (h : name.Plain) : to83 (component name.base name.ext) = some name := by
  have hdot : 0x2E ∉ name.base := fun hb => (h.chars _ (Name.mem_toList_of_mem_base hb)).2.2.1 rfl
  have hsplit : splitDot (component name.base name.ext) = (name.base, name.ext) := by
    rw [component]
    by_cases hext : name.ext = []
    · rw [if_pos hext, List.append_nil, splitDot_of_not_mem hdot, hext]
    · rw [if_neg hext, splitDot_append hdot]
  rw [to83_eq_some_iff, hsplit, map_toAsciiUppercase fun b hb => (h.chars b (Name.mem_toList_of_mem_base hb)).2.1,
    map_toAsciiUppercase fun b hb => (h.chars b (Name.mem_toList_of_mem_ext hb)).2.1]
  exact ⟨h.base, name.length_base_le, name.length_ext_le, (Name.ofParts_base_ext name).symm⟩

theorem component_pathByte {name : Name} (h : name.Plain) : ∀ b ∈ component name.base name.ext, PathByte b := by
  have hchar : ∀ b ∈ name.toList, PathByte b := fun b hb => ⟨(h.chars b hb).2.2.2.2, (h.chars b hb).1⟩
  intro b hb
  rw [component] at hb
  rcases List.mem_append.mp hb with hb | hb
  · exact hchar b (Name.mem_toList_of_mem_base hb)
  · by_cases hext : name.ext = []
    · rw [if_pos hext] at hb
      cases hb
    · rw [if_neg hext] at hb
      rcases List.mem_cons.mp hb with rfl | hb
      · exact ⟨by decide, by decide⟩
      · exact hchar b (Name.mem_toList_of_mem_ext hb)

theorem length_component_le (name : Name) : (component name.base name.ext).length ≤ 12 := by
  have hb := name.length_base_le
  have he := name.length_ext_le
  rw [component, List.length_append]
  split
  · simp only [List.length_nil]; omega
  · simp only [List.length_cons]; omega

/-- The characters of a name that is shown. -/
theorem char16PathToAscii_fileName {name : Name} (h : name.Plain) (size : Nat) (isDir : Bool) :
    char16PathToAscii (fileName (fileInfo name.shown size isDir)) = some (component name.base name.ext) := by
  have hlen := length_component_le name
  rw [char16PathToAscii, char16Loop_spelled [] (by omega) (component_pathByte h), List.nil_append]
  · intro j hj
    rw [Nat.zero_add, fileName_fileInfo (by simp [shown_eq_component]; omega)]
    simp [shown_eq_component, hj]
  · rw [Nat.zero_add, fileName_fileInfo (by simp [shown_eq_component])]
    simp [shown_eq_component]

theorem toAsciiUppercase_eq_space {b : UInt8} (h : toAsciiUppercase b = 0x20) : b = 0x20 := by
  have hup := toAsciiUppercase_toNat b
  rw [h] at hup
  apply UInt8.toNat_inj.mp
  change 32 = _ at hup
  change b.toNat = 32
  split at hup <;> omega

theorem space_notMem_map {l : List UInt8} (h : 0x20 ∉ l) : 0x20 ∉ l.map toAsciiUppercase := by
  intro hmem
  obtain ⟨b, hb, he⟩ := List.mem_map.mp hmem
  exact h (toAsciiUppercase_eq_space he ▸ hb)

theorem component_map (base ext : List UInt8) :
    component (base.map toAsciiUppercase) (ext.map toAsciiUppercase) = (component base ext).map toAsciiUppercase := by
  have hdot : toAsciiUppercase 0x2E = 0x2E := rfl
  cases ext <;> simp [component, hdot]

theorem splitDot_subset (comp : List UInt8) :
    (splitDot comp).1 ⊆ comp ∧ (splitDot comp).2 ⊆ comp := by
  rcases splitDot_cases comp with ⟨_, he⟩ | ⟨base, ext, _, rfl, he⟩
  · simp [he]
  · simp [he]

/-- The name that is made of a component without spaces is shown as the component. -/
theorem shown_to83 {comp : List UInt8} {name : Name} (hsp : 0x20 ∉ comp) (h : to83 comp = some name) :
    infoName name = ((withoutLastDot comp).map fun b => (toAsciiUppercase b).toUInt16) ++ [0] := by
  obtain ⟨_, hb, he, rfl⟩ := to83_eq_some_iff.mp h
  obtain ⟨hbase, hext⟩ := splitDot_subset comp
  have hspBase := space_notMem_map fun hmem => hsp (hbase hmem)
  have hspExt := space_notMem_map fun hmem => hsp (hext hmem)
  rw [← List.length_map toAsciiUppercase] at hb he
  have hbaseEq : (Name.ofParts ((splitDot comp).1.map toAsciiUppercase)
      ((splitDot comp).2.map toAsciiUppercase)).base = (splitDot comp).1.map toAsciiUppercase := Name.base_ofParts hb hspBase
  have hextEq := Name.ext_ofParts hb he hspExt
  have hunbroken : (Name.ofParts ((splitDot comp).1.map toAsciiUppercase)
      ((splitDot comp).2.map toAsciiUppercase)).Unbroken := by
    rw [Name.Unbroken, hbaseEq, hextEq]
    exact ⟨hspBase, hspExt⟩
  rw [Name.infoName_eq_shown_iff.mpr hunbroken, shown_eq_component, hbaseEq, hextEq, component_map,
    component_splitDot, List.map_map]
  rfl

theorem length_infoName_le (name : Name) : (infoName name).length ≤ 13 := by
  have hbase : ((name.slice 0 8).filter (· ≠ 0x20)).length ≤ 8 :=
    (List.length_filter_le _ _).trans_eq (Arr.length_slice name (by decide))
  have hext : ((name.slice 8 3).filter (· ≠ 0x20)).length ≤ 3 :=
    (List.length_filter_le _ _).trans_eq (Arr.length_slice name (by decide))
  rw [infoName]
  split <;> simp only [List.length_append, List.length_map, List.length_cons, List.length_nil] <;> omega

theorem writeFileInfo_ok_iff {capacity : UInt64} {name : Name} {size : Nat} {isDir : Bool} {info : List UInt8} :
    writeFileInfo capacity name size isDir = .ok info ↔
      80 + 2 * (infoName name).length ≤ capacity.toNat ∧ info = fileInfo (infoName name) size isDir := by
  rw [writeFileInfo_eq, length_fileInfo]
  split
  · simp only [reduceCtorEq, false_iff, not_and]
    omega
  · rw [Except.ok.injEq, eq_comm]
    exact ⟨fun h => ⟨by omega, h⟩, fun h => h.2⟩

/-- A name is shown wherever there is room for it, a name that is shown can be opened by what is shown, and a name opened
is shown as it was written. -/
theorem shown_names_open :
    (∀ (name : Name) capacity size isDir, (infoName name).length ≤ 13 ∧
      ((∃ info, writeFileInfo capacity name size isDir = .ok info) ↔
        80 + 2 * (infoName name).length ≤ capacity.toNat)) ∧
      (∀ name : Name, name.Plain → ∀ capacity size isDir info, writeFileInfo capacity name size isDir = .ok info →
        (char16PathToAscii (fileName info)).bind to83OrNone = some name ∧
          (char16PathToAscii (fileName info)).bind to83 = some name) ∧
      ∀ (comp : List UInt8) (name : Name), (∀ b ∈ comp, b < 0x80 ∧ b ≠ 0x20) → to83 comp = some name →
        ∀ capacity size isDir info, writeFileInfo capacity name size isDir = .ok info →
          info.drop 80 = (((withoutLastDot comp).map fun b => (toAsciiUppercase b).toUInt16) ++ [0]).flatMap
            fun (unit : UInt16) => leBytes 2 unit.toNat := by
  refine ⟨fun name capacity size isDir => ⟨length_infoName_le name, ?_⟩, ?_, ?_⟩
  · simp only [writeFileInfo_ok_iff, exists_and_left, exists_eq, and_true]
  · intro name hname capacity size isDir info hinfo
    obtain ⟨-, rfl⟩ := writeFileInfo_ok_iff.mp hinfo
    rw [Name.infoName_eq_shown_iff.mpr hname.padded, char16PathToAscii_fileName hname]
    exact ⟨to83_component hname, to83_component hname⟩
  · intro comp name hcomp hname capacity size isDir info hinfo
    obtain ⟨-, rfl⟩ := writeFileInfo_ok_iff.mp hinfo
    rw [drop_fileInfo, shown_to83 (fun hsp => (hcomp _ hsp).2 rfl) hname]

/-- `A.TXT`. -/
def nameATxt : Name := .ofList [0x41, 0x20, 0x20, 0x20, 0x20, 0x20, 0x20, 0x20, 0x54, 0x58, 0x54]

theorem shown_names_open_a : ∃ info, writeFileInfo 92 nameATxt 5 false = .ok info ∧
    (char16PathToAscii (fileName info)).bind to83OrNone = some nameATxt ∧
      info.drop 80 = [0x41, 0, 0x2E, 0, 0x54, 0, 0x58, 0, 0x54, 0, 0, 0] := by
  have hlist : nameATxt.toList = [0x41, 0x20, 0x20, 0x20, 0x20, 0x20, 0x20, 0x20, 0x54, 0x58, 0x54] := by decide
  have hplain : nameATxt.Plain := by
    refine ⟨?_, by decide, by decide⟩
    rw [hlist]
    simp
  have hcomp : ∀ b ∈ ([0x61, 0x2E, 0x74, 0x78, 0x74] : List UInt8), b < 0x80 ∧ b ≠ 0x20 := by
    simp
  obtain ⟨info, hinfo⟩ := (shown_names_open.1 nameATxt 92 5 false).2.mpr (by decide)
  -- the component is `a.txt`
  have hopen := shown_names_open.2.2 [0x61, 0x2E, 0x74, 0x78, 0x74] nameATxt hcomp (by decide) 92 5 false info hinfo
  exact ⟨info, hinfo, (shown_names_open.2.1 nameATxt hplain 92 5 false info hinfo).1, hopen.trans (by decide)⟩

end Ferro
