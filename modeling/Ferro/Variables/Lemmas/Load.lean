import Ferro.Variables.Lemmas.Saved

/-!
# `deserialize` as a sequence of `set` calls
-/

namespace Ferro

namespace VarMap

variable {m : VarMap} {key : Key} {value : Value}

theorem set_storable (hs : Variables.Storable (key, value)) (hroom : m key = none → m.keys.ncard ≠ maxVariables) :
    m.set key value = (.ok (), Function.update m key (some value)) := by
  have h : ¬ (maxDataLen < value.2.length ∨ (m key = none ∧ m.keys.ncard = maxVariables)) := by
    rintro (h | ⟨h, h'⟩)
    · exact absurd hs.data_le (Nat.not_le.mpr h)
    · exact hroom h h'
  unfold set
  rw [if_neg (Nat.not_lt.mpr hs.name_le), if_neg hs.data_ne, if_neg h]

theorem keys_update : keys (Function.update m key (some value)) = insert key m.keys := by
  ext k
  by_cases h : k = key
  · subst h; simp [keys]
  · simp [keys, h]

/-- A map whose keys, with some more, are not too many has room for a new one of them. -/
theorem not_full {t : Set Key} (hfin : m.keys.Finite) (ht : t.Finite)
    (hroom : (insert key m.keys ∪ t).ncard ≤ maxVariables) (hnone : m key = none) :
    m.keys.ncard ≠ maxVariables := by
  have hins := Set.ncard_insert_of_notMem (show key ∉ m.keys by simp [keys, hnone]) hfin
  have hle := Set.ncard_le_ncard (Set.subset_union_left (s := insert key m.keys) (t := t))
    ((hfin.insert key).union ht)
  omega

end VarMap

namespace Variables

variable {vars : Store} {e : Key × Value} {es : List (Key × Value)} {buf post : List UInt8}

/-- The variables that the loop of `deserialize` reads. -/
def records (buf : List UInt8) : (n pos : Nat) → List Parsed
  | 0, _ => []
  | n + 1, pos =>
    match parseAt buf pos with
    | none => []
    | some (p, pos) => p :: records buf n pos

/-- Sets the variables one after the other and counts the successful calls. -/
def setAll : List Parsed → (loaded : Nat) → Store → Nat × Store
  | [], loaded, vars => (loaded, vars)
  | p :: ps, loaded, vars =>
    let (r, vars) := set vars p.namePtr p.guid p.attributes p.data
    setAll ps (if r.isOk then loaded + 1 else loaded) vars

theorem deserializeLoop_eq (buf : List UInt8) (n pos loaded : Nat) (vars : Store) :
    deserializeLoop buf n pos loaded vars = setAll (records buf n pos) loaded vars := by
  induction n generalizing pos loaded vars with
  | zero => rfl
  | succ n ih =>
      unfold deserializeLoop records
      cases parseAt buf pos with
      | none => rfl
      | some r =>
          simp only [setAll]
          cases h : set vars r.1.namePtr r.1.guid r.1.attributes r.1.data with
          | mk res vars' =>
              cases res with
              | ok u => exact ih _ _ _
              | error err => exact ih _ _ _

/-- `name_nt` as a string: a name is cut at its first NUL. -/
def Parsed.cstr (p : Parsed) : CStr16 := ⟨p.namePtr, p.name.length, by simp [Parsed.namePtr]⟩

def Parsed.key (p : Parsed) : Key := (p.cstr.units, p.guid)

theorem Reachable.valid (h : Reachable vars) : Valid vars := by
  induction h with
  | empty => exact valid_empty
  | set _ name guid attributes data ih => exact (ih.set_eq guid attributes data).1

theorem Reachable.setAll (ps : List Parsed) (loaded : Nat) (h : Reachable vars) :
    Reachable (setAll ps loaded vars).2 := by
  induction ps generalizing loaded vars with
  | nil => exact h
  | cons p ps ih => exact ih _ (h.set p.cstr p.guid p.attributes p.data)

theorem Valid.setAll_of_not_mem {key : Key} (ps : List Parsed) (loaded : Nat) (hv : Valid vars)
    (hkey : ∀ p ∈ ps, p.key ≠ key) : toMap (setAll ps loaded vars).2 key = toMap vars key := by
  induction ps generalizing loaded vars with
  | nil => rfl
  | cons p ps ih =>
      obtain ⟨hv', he⟩ := hv.set_eq (s := p.cstr) p.guid p.attributes p.data
      have hsame : toMap (set vars p.cstr.mem p.guid p.attributes p.data).2 key = toMap vars key := by
        rw [← VarMap.set_of_ne (toMap vars) (p.attributes, p.data) (hkey p List.mem_cons_self).symm]
        exact congrFun (congrArg Prod.snd he).symm key
      rw [← hsame]
      exact ih _ hv' fun q hq => hkey q (List.mem_cons_of_mem _ hq)

theorem units_toParsed (h : 0 ∉ e.1.1) : (toParsed e).cstr.units = e.1.1 := by
  have hmem : ∀ i, (toParsed e).cstr.mem i = e.1.1.getD i 0 := fun _ => rfl
  have hlen : (toParsed e).cstr.len = e.1.1.length := by
    refine (Nat.find_eq_iff _).mpr ⟨by simp [hmem], fun i hi h0 => h ?_⟩
    have h0' : e.1.1[i] = 0 := by simpa [hmem, hi] using h0
    exact h0' ▸ List.getElem_mem hi
  apply List.ext_getElem?
  intro i
  rw [CStr16.getElem?_units, hlen, hmem]
  by_cases hi : i < e.1.1.length
  · simp [hi]
  · simp [hi]

theorem Valid.set_storable (hv : Valid vars) (hs : Storable e)
    (hroom : toMap vars e.1 = none → (toMap vars).keys.ncard ≠ maxVariables) :
    ∃ vars', set vars (toParsed e).namePtr (toParsed e).guid (toParsed e).attributes (toParsed e).data =
      (.ok (), vars') ∧ Valid vars' ∧ toMap vars' = Function.update (toMap vars) e.1 (some e.2) := by
  obtain ⟨hv', he⟩ := hv.set_eq (s := (toParsed e).cstr) e.1.2 e.2.1 e.2.2
  rw [units_toParsed hs.name_ne, VarMap.set_storable hs hroom] at he
  obtain ⟨hok, hmap⟩ := Prod.mk.inj he
  exact ⟨_, Prod.ext hok.symm rfl, hv', hmap.symm⟩

/-- Setting storable variables, for which there is room, overrides the map with them. -/
theorem Valid.setAll_storable (es : List (Key × Value)) (loaded : Nat) (hv : Valid vars)
    (hs : ∀ e ∈ es, Storable e) (hnodup : (es.map Prod.fst).Nodup) (hfin : (toMap vars).keys.Finite)
    (hroom : ((toMap vars).keys ∪ {k | k ∈ es.map Prod.fst}).ncard ≤ maxVariables) :
    (setAll (es.map toParsed) loaded vars).1 = loaded + es.length ∧
      ∀ key, toMap (setAll (es.map toParsed) loaded vars).2 key = (Slots.lookup es key).or (toMap vars key) := by
  induction es generalizing loaded vars with
  | nil => exact ⟨rfl, fun _ => rfl⟩
  | cons e es ih =>
      obtain ⟨k, value⟩ := e
      have hall : (toMap vars).keys ∪ {k' | k' ∈ ((k, value) :: es).map Prod.fst} =
          insert k (toMap vars).keys ∪ {k | k ∈ es.map Prod.fst} := by
        ext k'; simp [or_left_comm, or_assoc]
      rw [hall] at hroom
      rw [List.map_cons, List.nodup_cons] at hnodup
      obtain ⟨vars', hset, hv', hmap⟩ := hv.set_storable (hs _ List.mem_cons_self)
        (VarMap.not_full hfin (List.finite_toSet _) hroom)
      have hkeys : (toMap vars').keys = insert k (toMap vars).keys := by rw [hmap, VarMap.keys_update]
      obtain ⟨hcount, hlook⟩ := ih (loaded + 1) hv' (fun e he => hs e (List.mem_cons_of_mem _ he)) hnodup.2
        (by rw [hkeys]; exact hfin.insert _) (by rw [hkeys]; exact hroom)
      have hstep : setAll (((k, value) :: es).map toParsed) loaded vars =
          setAll (es.map toParsed) (loaded + 1) vars' := by
        rw [List.map_cons, setAll, hset]
        rfl
      rw [hstep, hcount, List.length_cons]
      refine ⟨by omega, fun key => ?_⟩
      rw [hlook, hmap]
      by_cases h : key = k
      · subst h
        simp [Slots.lookup_eq_none.mpr hnodup.1]
      · simp [h]

/-! ## Loading a saved store -/

theorem records_image (hs : ∀ e ∈ es, Storable e) {pos : Nat} (h : buf.drop pos = es.flatMap record ++ post) :
    records buf es.length pos = es.map toParsed := by
  induction es generalizing pos with
  | nil => rfl
  | cons e es ih =>
      rw [List.flatMap_cons, List.append_assoc] at h
      obtain ⟨hparse, hrest⟩ := parseAt_record (hs e List.mem_cons_self) h
      unfold records
      simp only [List.length_cons, hparse, List.map_cons, ih (fun e he => hs e (List.mem_cons_of_mem _ he)) hrest]

theorem image_header (hlen : es.length < 2 ^ 32) (post : List UInt8) : bytesAt (image es ++ post) 0 4 = magic ∧
    leAt (image es ++ post) 4 4 = es.length ∧ (image es ++ post).drop 8 = es.flatMap record ++ post := by
  have h : (image es ++ post).drop 0 = magic ++ (leBytes 4 es.length ++ (es.flatMap record ++ post)) := by
    simp [image]
  obtain ⟨hm, h⟩ := bytesAt_drop (show magic.length = 4 from rfl) h
  obtain ⟨hc, h⟩ := bytesAt_drop (length_leBytes 4 _) h
  exact ⟨hm, by rw [leAt, hc, leNat_leBytes_of_lt (by simpa using hlen)], h⟩

theorem deserialize_image (hs : ∀ e ∈ es, Storable e) (hlen : es.length < 2 ^ 32) (vars : Store) :
    deserialize (image es ++ post) vars = some (setAll (es.map toParsed) 0 vars) := by
  obtain ⟨hm, hc, h⟩ := image_header hlen post
  have h8 : ¬ ((image es ++ post).length < 8 ∨ bytesAt (image es ++ post) 0 4 ≠ magic) := by
    rw [List.length_append, length_image]
    rintro (h | h)
    · omega
    · exact h hm
  unfold deserialize
  rw [if_neg h8, hc, deserializeLoop_eq, records_image hs h]

theorem deserialize_eq_some {r : Nat × Store} (h : deserialize buf vars = some r) :
    r = setAll (records buf (leAt buf 4 4) 8) 0 vars := by
  unfold deserialize at h
  split at h
  · cases h
  · rw [deserializeLoop_eq] at h
    exact (Option.some.inj h).symm

theorem finite_keys (vars : Store) : (toMap vars).keys.Finite := by
  have h : (toMap vars).keys = _ := Slots.keys_eq vars
  rw [h]
  exact List.finite_toSet _

theorem length_entries_lt (vars : Store) : (Slots.entries Variable.entry vars).length < 2 ^ 32 :=
  Nat.lt_of_le_of_lt Slots.length_entries_le (by decide)

/-- The records of a saved store have the keys of its variables. -/
theorem Valid.key_of_record (hv : Valid vars) {p : Parsed}
    (hp : p ∈ records (imageOf vars) (leAt (imageOf vars) 4 4) 8) : (toMap vars p.key).isSome := by
  obtain ⟨_, hc, h⟩ := image_header (length_entries_lt vars) []
  rw [List.append_nil, ← imageOf] at hc h
  rw [hc, records_image hv.storable h] at hp
  obtain ⟨e, he, rfl⟩ := List.mem_map.mp hp
  have hkey : (toParsed e).key = e.1 := Prod.ext (units_toParsed (hv.storable e he).name_ne) rfl
  have hsome : toMap vars e.1 = some e.2 := (Slots.lookup_eq_some hv.unique.nodup_keys).mpr he
  rw [hkey, hsome]
  rfl

/-- A saved store that is loaded where there is room for it overrides what is there. -/
theorem Valid.deserialize_saved {saved : Store} (hs : Valid saved) (post : List UInt8) (hv : Valid vars)
    (hroom : ((toMap vars).keys ∪ (toMap saved).keys).ncard ≤ maxVariables) :
    ∃ vars', deserialize (imageOf saved ++ post) vars = some (count saved, vars') ∧
      toMap vars' = (toMap vars).override (toMap saved) := by
  have hkeys : (toMap saved).keys = {k | k ∈ (Slots.entries Variable.entry saved).map Prod.fst} := Slots.keys_eq saved
  rw [hkeys] at hroom
  obtain ⟨hcount, hmap⟩ := hv.setAll_storable (Slots.entries Variable.entry saved) 0 hs.storable hs.unique.nodup_keys
    (finite_keys vars) hroom
  rw [imageOf, deserialize_image hs.storable (length_entries_lt saved)]
  refine ⟨_, congrArg some (Prod.ext ?_ rfl), funext fun key => ?_⟩
  · rw [hcount, Nat.zero_add]; rfl
  · rw [hmap]; rfl

theorem keys_empty : (toMap empty).keys = ∅ := by
  rw [toMap_empty]
  ext
  simp [VarMap.keys]

theorem Valid.room_empty (hv : Valid vars) : ((toMap empty).keys ∪ (toMap vars).keys).ncard ≤ maxVariables := by
  have hcard : (toMap vars).keys.ncard = (Slots.entries Variable.entry vars).length := Slots.ncard_keys hv.unique
  rw [keys_empty, Set.empty_union, hcard]
  exact Slots.length_entries_le

end Variables

end Ferro
