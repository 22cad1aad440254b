import Ferro.Variables.Lemmas.Store

/-!
# The saved form of a store
-/

namespace Ferro

namespace Variables

/-- The saved form of one variable. -/
def record (e : Key × Value) : List UInt8 :=
  leBytes 2 e.1.1.length ++ e.1.1.flatMap (fun unit => leBytes 2 unit.toNat) ++ guidBytes e.1.2 ++
    leBytes 4 e.2.1.toNat ++ leBytes 4 e.2.2.length ++ e.2.2

/-- The saved form of a list of variables. -/
def image (es : List (Key × Value)) : List UInt8 := magic ++ leBytes 4 es.length ++ es.flatMap record

/-- The saved form of a store. -/
def imageOf (vars : Store) : List UInt8 := image (Slots.entries Variable.entry vars)

/-- A saved form of the store with a variable set: the variable, then the others. -/
def imageWith (vars : Store) (key : Key) (value : Value) : List UInt8 :=
  image ((key, value) :: (Slots.entries Variable.entry vars).filter fun e => e.1 ≠ key)

/-- What a slot in use can hold. -/
structure Storable (e : Key × Value) : Prop where
  name_le : e.1.1.length ≤ maxNameUnits
  name_ne : 0 ∉ e.1.1
  data_ne : e.2.2 ≠ []
  data_le : e.2.2.length ≤ maxDataLen

variable {vars : Store} {v : Variable} {e : Key × Value} {es : List (Key × Value)} {buf pre post : List UInt8}

theorem length_name (hb : v.Bounded) : (v.name.slice 0 v.nameLen).length = v.nameLen :=
  Arr.length_slice _ (by simpa using hb.nameLen_le)

theorem length_data (hb : v.Bounded) : (v.data.slice 0 v.dataLen).length = v.dataLen :=
  Arr.length_slice _ (by simpa using hb.dataLen_le)

theorem storable_of_entry (hb : v.Bounded) (he : v.entry = some e) : Storable e := by
  rw [entry_of_inUse (inUse_of_entry he)] at he
  cases he
  exact {
    name_le := by rw [length_name hb]; exact hb.nameLen_le
    name_ne := hb.name_ne
    data_ne := List.ne_nil_of_length_pos (by rw [length_data hb]; exact hb.dataLen_pos)
    data_le := by rw [length_data hb]; exact hb.dataLen_le }

theorem Valid.storable (hv : Valid vars) : ∀ e ∈ Slots.entries Variable.entry vars, Storable e := by
  intro e he
  obtain ⟨i, hi⟩ := Slots.mem_entries.mp he
  exact storable_of_entry (hv.bounded (inUse_of_entry hi)) hi

/-! ## `serialize` -/

@[simp] theorem length_guidBytes (guid : EfiGuid) : (guidBytes guid).length = 16 := by simp [guidBytes]

theorem length_record (e : Key × Value) : (record e).length = 26 + 2 * e.1.1.length + e.2.2.length := by
  simp [record]
  omega

theorem length_image (es : List (Key × Value)) : (image es).length = 8 + (es.flatMap record).length := by
  simp [image, magic]
  omega

theorem varBytes_eq (hb : v.Bounded) (he : v.entry = some e) :
    varBytes v = record e ∧ 2 + v.nameLen * 2 + 16 + 4 + 4 + v.dataLen = (record e).length := by
  rw [entry_of_inUse (inUse_of_entry he)] at he
  cases he
  constructor
  · simp [varBytes, record, length_name hb, length_data hb]
  · simp only [length_record, length_name hb, length_data hb]
    omega

theorem serializeLoop_eq (bufLen : Nat) (vs : List Variable) (out : List UInt8) (count : Nat)
    (hb : ∀ v ∈ vs, v.inUse → v.Bounded) (hout : 8 + out.length ≤ bufLen) :
    serializeLoop bufLen vs out count =
      if 8 + out.length + ((vs.filterMap Variable.entry).flatMap record).length ≤ bufLen then
        some (out ++ (vs.filterMap Variable.entry).flatMap record, count + (vs.filterMap Variable.entry).length)
      else none := by
  induction vs generalizing out count with
  | nil => simp [serializeLoop, hout]
  | cons v vs ih =>
      have hrest := fun v' hv' => hb v' (List.mem_cons_of_mem v hv')
      unfold serializeLoop
      cases hu : v.inUse with
      | false =>
          have he : v.entry = none := by simp [Variable.entry, hu]
          simp [he, ih _ _ hrest hout]
      | true =>
          obtain ⟨e, he⟩ : ∃ e, v.entry = some e := ⟨_, entry_of_inUse hu⟩
          obtain ⟨hbytes, hlen⟩ := varBytes_eq (hb v List.mem_cons_self hu) he
          simp only [Bool.not_true, Bool.false_eq_true, if_false, hbytes, hlen, List.filterMap_cons_some he,
            List.flatMap_cons, List.length_append, List.length_cons]
          by_cases h : bufLen < 8 + out.length + (record e).length
          · rw [if_pos h, if_neg (by omega)]
          · rw [if_neg h, ih _ _ hrest (by simp only [List.length_append]; omega)]
            simp only [List.length_append, List.append_assoc, Nat.add_assoc, Nat.add_comm 1]

theorem Valid.serialize_eq (hv : Valid vars) (bufLen : Nat) : serialize vars bufLen =
    if (imageOf vars).length ≤ bufLen then some (imageOf vars) else none := by
  have hb : ∀ v ∈ vars.toList, v.inUse → v.Bounded := by
    intro v hmem
    obtain ⟨i, rfl⟩ := Arr.mem_toList.mp hmem
    exact hv.bounded
  unfold serialize imageOf
  rw [length_image]
  by_cases h : bufLen < 8
  · rw [if_pos h, if_neg (by omega)]
  · have hloop := serializeLoop_eq bufLen vars.toList [] 0 hb (by simpa using h)
    simp only [List.length_nil, Nat.add_zero, List.nil_append, Nat.zero_add] at hloop
    by_cases hfit : 8 + ((Slots.entries Variable.entry vars).flatMap record).length ≤ bufLen
    · rw [if_neg h, hloop.trans (if_pos hfit), if_pos hfit]; rfl
    · rw [if_neg h, hloop.trans (if_neg hfit), if_neg hfit]

theorem length_image_perm {es' : List (Key × Value)} (h : es.Perm es') : (image es).length = (image es').length := by
  rw [length_image, length_image, (h.flatMap_right record).length_eq]

theorem Valid.length_imageOf_set {s : CStr16} {guid : EfiGuid} {attributes : UInt32} {data : List UInt8}
    (hv : Valid vars) (hne : data ≠ []) (hok : (set vars s.mem guid attributes data).1 = .ok ()) :
    (imageOf (set vars s.mem guid attributes data).2).length =
      (imageWith vars (s.units, guid) (attributes, data)).length := by
  obtain ⟨hv', _⟩ := hv.set_eq (s := s) guid attributes data
  obtain ⟨_, hmap⟩ := hv.set_ok hok
  rw [if_neg hne] at hmap
  exact length_image_perm (hv'.unique.entries_perm_update hv.unique hmap)

/-! ## Reading a variable back -/

theorem ofNat_leBytes_two (u : UInt16) : UInt16.ofNat (leNat (leBytes 2 u.toNat)) = u := by
  rw [leNat_leBytes, Nat.mod_eq_of_lt (by simpa using u.toNat_lt), UInt16.ofNat_toNat]

theorem ofNat_leBytes_four (u : UInt32) : UInt32.ofNat (leNat (leBytes 4 u.toNat)) = u := by
  rw [leNat_leBytes, Nat.mod_eq_of_lt (by simpa using u.toNat_lt), UInt32.ofNat_toNat]

theorem bytesAt_drop {b c : List UInt8} {pos len : Nat} (hb : b.length = len) (h : buf.drop pos = b ++ c) :
    bytesAt buf pos len = b ∧ buf.drop (pos + len) = c := by
  subst hb
  rw [bytesAt, h, List.take_left, ← List.drop_drop, h, List.drop_left]
  exact ⟨rfl, rfl⟩

theorem guidAt_eq {guid : EfiGuid} {c : List UInt8} {pos : Nat} (h : buf.drop pos = guidBytes guid ++ c) :
    guidAt buf pos = guid ∧ buf.drop (pos + 16) = c := by
  simp only [guidBytes, List.append_assoc] at h
  obtain ⟨h1, h⟩ := bytesAt_drop (length_leBytes 4 _) h
  obtain ⟨h2, h⟩ := bytesAt_drop (length_leBytes 2 _) h
  obtain ⟨h3, h⟩ := bytesAt_drop (length_leBytes 2 _) h
  obtain ⟨h4, h⟩ := bytesAt_drop (Arr.length_toList _) h
  simp only [Nat.add_assoc, Nat.reduceAdd] at h2 h3 h4 h
  refine ⟨?_, h⟩
  simp only [guidAt, leAt, h1, h2, h3, h4, ofNat_leBytes_two, ofNat_leBytes_four, Arr.ofList_toList]

theorem nameAt_eq {units : List UInt16} {c : List UInt8} {pos : Nat}
    (h : buf.drop pos = units.flatMap (fun unit => leBytes 2 unit.toNat) ++ c) :
    (List.range units.length).map (fun i => UInt16.ofNat (leAt buf (pos + 2 * i) 2)) = units ∧
      buf.drop (pos + 2 * units.length) = c := by
  induction units generalizing pos with
  | nil => exact ⟨rfl, h⟩
  | cons u us ih =>
      simp only [List.flatMap_cons, List.append_assoc] at h
      obtain ⟨hu, hrest⟩ := bytesAt_drop (length_leBytes 2 _) h
      obtain ⟨hus, hc⟩ := ih hrest
      have hpos : ∀ i, pos + 2 * (i + 1) = pos + 2 + 2 * i := fun i => by omega
      have hfirst : UInt16.ofNat (leAt buf pos 2) = u := by rw [leAt, hu, ofNat_leBytes_two]
      rw [List.length_cons, List.range_succ_eq_map, hpos]
      refine ⟨?_, hc⟩
      simp only [List.map_cons, List.map_map, Function.comp_def, Nat.succ_eq_add_one, hpos, hus, Nat.mul_zero,
        Nat.add_zero, hfirst]

/-- The variable that `deserialize` reads for an entry. -/
def toParsed (e : Key × Value) : Parsed := ⟨e.1.1, e.1.2, e.2.1, e.2.2⟩

theorem leNat_leBytes_of_lt {k n : Nat} (h : n < 256 ^ k) : leNat (leBytes k n) = n := by
  rw [leNat_leBytes, Nat.mod_eq_of_lt h]

theorem parseAt_record {pos : Nat} (hs : Storable e) (h : buf.drop pos = record e ++ post) :
    parseAt buf pos = some (toParsed e, pos + (record e).length) ∧ buf.drop (pos + (record e).length) = post := by
  obtain ⟨⟨units, guid⟩, attributes, data⟩ := e
  have hname : units.length ≤ 32 := hs.name_le
  have hdata : data.length ≤ 512 := hs.data_le
  have hlen := congrArg List.length h
  rw [List.length_drop, List.length_append] at hlen
  rw [length_record] at hlen ⊢
  dsimp only at hlen ⊢
  -- the fields, in the order in which they are read
  simp only [record, List.append_assoc] at h
  obtain ⟨h1, h⟩ := bytesAt_drop (length_leBytes 2 _) h
  obtain ⟨h2, h⟩ := nameAt_eq h
  obtain ⟨h3, h⟩ := guidAt_eq h
  obtain ⟨h4, h⟩ := bytesAt_drop (length_leBytes 4 _) h
  obtain ⟨h5, h⟩ := bytesAt_drop (length_leBytes 4 _) h
  obtain ⟨h6, h⟩ := bytesAt_drop rfl h
  simp only [Nat.add_assoc, Nat.reduceAdd] at h2 h3 h4 h5 h6 h
  have hnl : leAt buf pos 2 = units.length := by rw [leAt, h1, leNat_leBytes_of_lt (by omega)]
  have hdl : leAt buf (pos + (2 + (2 * units.length + 20))) 4 = data.length := by
    rw [leAt, h5, leNat_leBytes_of_lt (by omega)]
  have hat : UInt32.ofNat (leAt buf (pos + (2 + (2 * units.length + 16))) 4) = attributes := by
    rw [leAt, h4, ofNat_leBytes_four]
  unfold parseAt
  simp only [Nat.add_assoc, Nat.reduceAdd, hnl, h2, h3, hat, hdl, h6, maxNameUnits, maxDataLen]
  rw [if_neg (by omega), if_neg (by omega), if_neg (by omega), if_neg (by omega)]
  have hend : pos + (2 + (2 * units.length + (24 + data.length))) = pos + (26 + (2 * units.length + data.length)) := by
    omega
  rw [hend] at h ⊢
  exact ⟨rfl, h⟩

end Variables

end Ferro
