import Ferro.Base.Assoc
import Ferro.Boot.Theorems

/-!
# The configuration table

`CONFIG_TABLE`, its count and the two fields of the system table that publish it, as `InstallConfigurationTable` works on
them. `Boot.configTable` is the list of the entries in front of the count.
-/

namespace Ferro

structure ConfigEntry where
  vendorGuid : EfiGuid
  vendorTable : UInt64
  deriving DecidableEq

instance : Inhabited ConfigEntry := ⟨⟨⟨0, 0, 0, .fill 0⟩, 0⟩⟩

/-- `size_of::<EfiConfigurationTableEntry>()`. -/
def configEntrySize : Nat := 24

structure ConfigTable where
  /-- `CONFIG_TABLE`. -/
  entries : Arr ConfigEntry maxConfigTableEntries
  /-- `CONFIG_TABLE_COUNT`. -/
  count : Nat
  configurationTable : UInt64
  numberOfTableEntries : Nat

namespace ConfigTable

variable {addr : UInt64} {t t' : ConfigTable} {guid : Option EfiGuid} {g : EfiGuid} {table : UInt64} {st : EfiStatus}
  {k : Fin maxConfigTableEntries}

/-- At boot. -/
def init : ConfigTable := ⟨.fill default, 0, 0, 0⟩

/-- `entries.copy_within(start..stop, dest)`. -/
def copyWithin (entries : Arr ConfigEntry maxConfigTableEntries) (start stop dest : Nat) :
    Option (Arr ConfigEntry maxConfigTableEntries) :=
  if start ≤ stop ∧ stop ≤ maxConfigTableEntries ∧ dest ≤ maxConfigTableEntries - (stop - start) then
    some (entries.put dest (entries.slice start (stop - start)))
  else
    none

/-- The stores into the system table. -/
def publish (addr : UInt64) (t : ConfigTable) : ConfigTable :=
  { t with configurationTable := addr, numberOfTableEntries := t.count }

/-- `addr` is the address of `CONFIG_TABLE`. Out of bounds is `none`. -/
def installConfigurationTable (addr : UInt64) (t : ConfigTable) (guid : Option EfiGuid) (table : UInt64) :
    Option (EfiStatus × ConfigTable) :=
  match guid with
  | none => some (.invalidParameter, t)
  | some g =>
    -- `entries[..count]`
    if maxConfigTableEntries < t.count then
      none
    else
      match Fin.find? fun i => decide (i.val < t.count) && decide ((t.entries.get i).vendorGuid = g) with
      | some k =>
        if table = 0 then
          let existing := addr.toNat + k.val * configEntrySize
          let idx := (existing - addr.toNat) / configEntrySize
          (copyWithin t.entries (idx + 1) t.count idx).map fun entries =>
            (.success, publish addr { t with entries, count := t.count - 1 })
        else
          some (.success, publish addr
            { t with entries := t.entries.set k { t.entries.get k with vendorTable := table } })
      | none =>
        if table = 0 then
          some (.notFound, t)
        else if h : t.count < maxConfigTableEntries then
          some (.success, publish addr { t with
            entries := t.entries.set ⟨t.count, h⟩ ⟨g, table⟩
            count := t.count + 1 })
        else
          some (.outOfResources, t)

/-- The GUID and the pointer of an entry. -/
def pair (e : ConfigEntry) : EfiGuid × UInt64 := (e.vendorGuid, e.vendorTable)

/-- What the system table publishes: that many entries at the address of `CONFIG_TABLE`. -/
def published (t : ConfigTable) : List (EfiGuid × UInt64) := (t.entries.slice 0 t.numberOfTableEntries).map pair

/-- The entries in front of the count. -/
def listing (t : ConfigTable) : List (EfiGuid × UInt64) := (t.entries.slice 0 t.count).map pair

/-- The count is in range, and what is published is current. -/
structure Sound (addr : UInt64) (t : ConfigTable) : Prop where
  fits : t.count ≤ maxConfigTableEntries
  number : t.numberOfTableEntries = t.count
  pointer : t.count ≠ 0 → t.configurationTable = addr

theorem Sound.published_eq (h : Sound addr t) : t.published = t.listing := by rw [published, h.number, listing]

theorem getElem?_listing (h : t.count ≤ maxConfigTableEntries) (j : Nat) :
    t.listing[j]? = if j < t.count then some (pair (t.entries.nth j)) else none := by
  rw [listing, List.getElem?_map, Arr.getElem?_slice _ (by omega), Nat.zero_add]
  split <;> rfl

theorem length_listing (h : t.count ≤ maxConfigTableEntries) : t.listing.length = t.count := by
  rw [listing, List.length_map, Arr.length_slice _ (by omega)]

theorem nth_set (a : Arr ConfigEntry maxConfigTableEntries) (x : ConfigEntry) (j : Nat) :
    (a.set k x).nth j = if j = k.val then x else a.nth j := by
  by_cases hj : j < maxConfigTableEntries
  · rw [Arr.nth, dif_pos hj, Arr.nth, dif_pos hj]
    by_cases hk : j = k.val
    · have hk' : (⟨j, hj⟩ : Fin maxConfigTableEntries) = k := Fin.ext hk
      rw [if_pos hk, hk', Arr.get_set_self]
    · have hk' : (⟨j, hj⟩ : Fin maxConfigTableEntries) ≠ k := fun h => hk (congrArg Fin.val h)
      rw [if_neg hk, Arr.get_set_of_ne _ _ hk']
  · have hk : j ≠ k.val := fun h => hj (h ▸ k.isLt)
    rw [Arr.nth, dif_neg hj, Arr.nth, dif_neg hj, if_neg hk]

/-! ## The array against the list -/

theorem listing_entry (h : t.count ≤ maxConfigTableEntries) (hk : k.val < t.count) :
    t.listing[k.val]? = some (pair (t.entries.get k)) := by
  rw [getElem?_listing h, if_pos hk, Arr.nth, dif_pos k.isLt]

theorem getElem_listing {j : Nat} (hj : j < t.listing.length) (h : t.count ≤ maxConfigTableEntries) (hk : k.val = j) :
    t.listing[j] = pair (t.entries.get k) := by
  subst hk
  exact (List.getElem_eq_iff _).mpr (listing_entry h (length_listing h ▸ hj))

/-- The search of the array finds what the search of the list finds. -/
theorem find?_listing (h : t.count ≤ maxConfigTableEntries) (g : EfiGuid) :
    (Fin.find? fun i : Fin maxConfigTableEntries =>
      decide (i.val < t.count) && decide ((t.entries.get i).vendorGuid = g)).map Fin.val =
      t.listing.findIdx? fun e => e.1 = g := by
  cases hf : Fin.find? fun i : Fin maxConfigTableEntries =>
      decide (i.val < t.count) && decide ((t.entries.get i).vendorGuid = g) with
  | some k =>
      obtain ⟨hk, hbefore⟩ := Fin.find?_eq_some_iff.mp hf
      rw [Bool.and_eq_true, decide_eq_true_eq, decide_eq_true_eq] at hk
      symm
      refine List.findIdx?_eq_some_iff_getElem.mpr ⟨by rw [length_listing h]; exact hk.1, ?_, fun j hj => ?_⟩
      · rw [getElem_listing _ h rfl]
        exact decide_eq_true hk.2
      · have hjk := hbefore ⟨j, hj.trans k.isLt⟩ hj
        rw [decide_eq_true (hj.trans hk.1), Bool.true_and] at hjk
        rw [getElem_listing (k := ⟨j, hj.trans k.isLt⟩) _ h rfl]
        exact Bool.not_eq_true _ ▸ hjk
  | none =>
      symm
      refine List.findIdx?_eq_none_iff.mpr fun e he => ?_
      obtain ⟨j, hj, rfl⟩ := List.mem_iff_getElem.mp he
      have hlt : j < t.count := length_listing h ▸ hj
      have hnot := Fin.find?_eq_none_iff.mp hf ⟨j, by omega⟩
      rw [decide_eq_true hlt, Bool.true_and] at hnot
      rw [getElem_listing (k := ⟨j, by omega⟩) hj h rfl]
      exact hnot

theorem listing_remove (h : t.count ≤ maxConfigTableEntries) (hk : k.val < t.count) :
    listing { t with
      entries := t.entries.put k (t.entries.slice (k + 1) (t.count - (k + 1)))
      count := t.count - 1 } = t.listing.eraseIdx k := by
  apply List.ext_getElem?
  intro j
  rw [List.getElem?_eraseIdx, getElem?_listing h, getElem?_listing h, getElem?_listing (by dsimp only; omega)]
  dsimp only
  by_cases hj : j < t.count - 1
  · rw [if_pos hj, Arr.nth_put _ _ (by omega)]
    by_cases hjk : j < k.val
    · rw [if_neg (by omega), if_pos hjk, if_pos (by omega)]
    · have hsum : k.val + 1 + (j - k.val) = j + 1 := by omega
      rw [if_neg hjk, if_pos (by omega), if_pos (by omega), Arr.getElem?_slice _ (by omega), if_pos (by omega), hsum]
      rfl
  · rw [if_neg hj]
    by_cases hjk : j < k.val
    · omega
    · rw [if_neg hjk, if_neg (by omega)]

theorem listing_set (h : t.count ≤ maxConfigTableEntries) (hk : k.val < t.count) (e : ConfigEntry) :
    listing { t with entries := t.entries.set k e } = t.listing.set k (pair e) := by
  apply List.ext_getElem?
  intro j
  rw [List.getElem?_set, length_listing h, getElem?_listing h]
  refine (getElem?_listing (t := { t with entries := t.entries.set k e }) h j).trans ?_
  dsimp only
  rw [nth_set]
  by_cases hj : j = k.val
  · subst hj
    simp [hk]
  · rw [if_neg hj, if_neg (Ne.symm hj)]

theorem listing_append (h : t.count < maxConfigTableEntries) (e : ConfigEntry) :
    listing { t with entries := t.entries.set ⟨t.count, h⟩ e, count := t.count + 1 } = t.listing ++ [pair e] := by
  apply List.ext_getElem?
  intro j
  have hle : t.count ≤ maxConfigTableEntries := by omega
  rw [getElem?_listing (by dsimp only; omega), nth_set, List.getElem?_append, length_listing hle, getElem?_listing hle]
  dsimp only
  rcases Nat.lt_trichotomy j t.count with hj | hj | hj
  · rw [if_pos (by omega), if_neg (by omega), if_pos hj, if_pos hj]
  · subst hj
    simp
  · rw [if_neg (by omega), if_neg (by omega)]
    exact (List.getElem?_eq_none (by rw [List.length_singleton]; omega)).symm

/-! ## Calls -/

/-- What a call returns, and what it does to the list. -/
inductive Installed (addr : UInt64) (t : ConfigTable) :
    Option EfiGuid → UInt64 → EfiStatus → ConfigTable → Prop where
  | invalid {table : UInt64} : Installed addr t none table .invalidParameter t
  | removed {t' : ConfigTable} {g : EfiGuid} {i : Nat} (hfind : t.listing.findIdx? (fun e => e.1 = g) = some i)
      (hs : Sound addr t') (hlist : t'.listing = t.listing.eraseIdx i) : Installed addr t (some g) 0 .success t'
  | replaced {t' : ConfigTable} {g : EfiGuid} {table : UInt64} {i : Nat} (htable : table ≠ 0)
      (hfind : t.listing.findIdx? (fun e => e.1 = g) = some i) (hs : Sound addr t')
      (hlist : t'.listing = t.listing.set i (g, table)) : Installed addr t (some g) table .success t'
  | absent {g : EfiGuid} (hfind : t.listing.findIdx? (fun e => e.1 = g) = none) :
      Installed addr t (some g) 0 .notFound t
  | full {g : EfiGuid} {table : UInt64} (htable : table ≠ 0)
      (hfind : t.listing.findIdx? (fun e => e.1 = g) = none) (hfull : maxConfigTableEntries ≤ t.listing.length) :
      Installed addr t (some g) table .outOfResources t
  | added {t' : ConfigTable} {g : EfiGuid} {table : UInt64} (htable : table ≠ 0)
      (hfind : t.listing.findIdx? (fun e => e.1 = g) = none) (hroom : t.listing.length < maxConfigTableEntries)
      (hs : Sound addr t') (hlist : t'.listing = t.listing ++ [(g, table)]) : Installed addr t (some g) table .success t'

theorem publish_sound (h : t.count ≤ maxConfigTableEntries) : Sound addr (publish addr t) := ⟨h, rfl, fun _ => rfl⟩

/-- The difference of the two addresses is the index. -/
theorem index_of_address (base : Nat) (i : Nat) : (base + i * configEntrySize - base) / configEntrySize = i := by
  rw [Nat.add_sub_cancel_left, Nat.mul_div_cancel _ (by decide)]

theorem installConfigurationTable_installed (hs : Sound addr t) (guid : Option EfiGuid) (table : UInt64) :
    ∃ st t', installConfigurationTable addr t guid table = some (st, t') ∧ Installed addr t guid table st t' := by
  have hfits := hs.fits
  cases guid with
  | none => exact ⟨_, _, rfl, .invalid⟩
  | some g =>
      have hfind := find?_listing hfits g
      rw [installConfigurationTable]
      dsimp only
      rw [if_neg (Nat.not_lt.mpr hfits)]
      cases hf : Fin.find? fun i : Fin maxConfigTableEntries =>
          decide (i.val < t.count) && decide ((t.entries.get i).vendorGuid = g) with
      | some k =>
          obtain ⟨hk, _⟩ := Fin.find?_eq_some_iff.mp hf
          rw [Bool.and_eq_true, decide_eq_true_eq, decide_eq_true_eq] at hk
          obtain ⟨hk, hg⟩ := hk
          rw [hf, Option.map_some] at hfind
          dsimp only
          split
          · rename_i htable
            subst htable
            rw [index_of_address, copyWithin, if_pos (by omega)]
            exact ⟨_, _, rfl, .removed hfind.symm (publish_sound (by dsimp only; omega)) (listing_remove hfits hk)⟩
          · rename_i htable
            refine ⟨_, _, rfl, .replaced htable hfind.symm (publish_sound hfits) ?_⟩
            subst hg
            exact listing_set hfits hk _
      | none =>
          rw [hf, Option.map_none] at hfind
          dsimp only
          split
          · rename_i htable
            subst htable
            exact ⟨_, _, rfl, .absent hfind.symm⟩
          · rename_i htable
            split
            · rename_i hroom
              refine ⟨_, _, rfl, .added htable hfind.symm ?_ (publish_sound (by dsimp only; omega)) ?_⟩
              · rwa [length_listing hfits]
              · exact listing_append hroom _
            · rename_i hfull
              refine ⟨_, _, rfl, .full htable hfind.symm ?_⟩
              rw [length_listing hfits]
              exact Nat.not_lt.mp hfull

theorem Installed.of_eq (hs : Sound addr t) (h : installConfigurationTable addr t guid table = some (st, t')) :
    Installed addr t guid table st t' := by
  obtain ⟨st', t'', heq, hi⟩ := installConfigurationTable_installed hs guid table
  cases h.symm.trans heq
  exact hi

theorem Installed.sound (h : Installed addr t guid table st t') (hs : Sound addr t) : Sound addr t' := by
  cases h with
  | invalid => exact hs
  | removed _ hs' _ => exact hs'
  | replaced _ _ hs' _ => exact hs'
  | absent _ => exact hs
  | full _ _ _ => exact hs
  | added _ _ _ hs' _ => exact hs'

theorem Installed.unchanged (h : Installed addr t guid table st t') (hst : st ≠ .success) : t' = t := by
  cases h with
  | invalid => rfl
  | removed _ _ _ => exact absurd rfl hst
  | replaced _ _ _ _ => exact absurd rfl hst
  | absent _ => rfl
  | full _ _ _ => rfl
  | added _ _ _ _ _ => exact absurd rfl hst

/-- The service on the list does what the service on the array does. -/
theorem Installed.boot (h : Installed addr t guid table st t') {s : Boot} (hl : s.configTable = t.listing) :
    s.installConfigurationTable guid table = (.just st, { s with configTable := t'.listing }) := by
  have hsame : s = { s with configTable := t.listing } := by rw [← hl]
  cases h with
  | invalid => exact congrArg _ hsame
  | removed hfind _ hlist =>
      rw [Boot.installConfigurationTable, hl]
      simp only [hfind, hlist, if_true]
  | replaced htable hfind _ hlist =>
      rw [Boot.installConfigurationTable, hl]
      simp only [hfind, hlist, htable, if_false]
  | absent hfind =>
      rw [Boot.installConfigurationTable, hl]
      simp only [hfind, if_true]
      rw [← hsame]
  | full htable hfind hfull =>
      rw [Boot.installConfigurationTable, hl]
      simp only [hfind, htable, hfull, if_true, if_false]
      rw [← hsame]
  | added htable hfind hroom _ hlist =>
      rw [Boot.installConfigurationTable, hl]
      simp only [hfind, htable, Nat.not_le.mpr hroom, hlist, if_false]

/-- The status that the list gives. -/
def expected (l : List (EfiGuid × UInt64)) (guid : Option EfiGuid) (table : UInt64) : EfiStatus :=
  match guid with
  | none => .invalidParameter
  | some g =>
    if g ∈ Assoc.keys l then
      .success
    else if table = 0 then
      .notFound
    else if maxConfigTableEntries ≤ l.length then
      .outOfResources
    else
      .success

theorem mem_keys_of_findIdx? {l : List (EfiGuid × UInt64)} {i : Nat} (h : l.findIdx? (fun e => e.1 = g) = some i) :
    g ∈ Assoc.keys l := by
  by_contra hno
  rw [Assoc.findIdx?_eq_none_iff.mpr hno] at h
  cases h

theorem Installed.status (h : Installed addr t guid table st t') : st = expected t.listing guid table := by
  cases h with
  | invalid => rfl
  | removed hfind _ _ => rw [expected, if_pos (mem_keys_of_findIdx? hfind)]
  | replaced _ hfind _ _ => rw [expected, if_pos (mem_keys_of_findIdx? hfind)]
  | absent hfind => rw [expected, if_neg (Assoc.findIdx?_eq_none_iff.mp hfind), if_pos rfl]
  | full htable hfind hfull =>
      rw [expected, if_neg (Assoc.findIdx?_eq_none_iff.mp hfind), if_neg htable, if_pos hfull]
  | added htable hfind hroom _ _ =>
      rw [expected, if_neg (Assoc.findIdx?_eq_none_iff.mp hfind), if_neg htable, if_neg (Nat.not_le.mpr hroom)]

/-- What a call that succeeded has changed: the pointer of the GUID, or its removal. -/
def change (guid : Option EfiGuid) (table : UInt64) (st : EfiStatus) : List (EfiGuid × Option UInt64) :=
  match guid with
  | some g => if st = .success then [(g, if table = 0 then none else some table)] else []
  | none => []

theorem Installed.records {ops : List (EfiGuid × Option UInt64)} (h : Installed addr t guid table st t')
    (hr : Assoc.Records ops t.listing) : Assoc.Records (ops ++ change guid table st) t'.listing := by
  cases h with
  | invalid => exact (List.append_nil ops).symm ▸ hr
  | absent _ => exact (List.append_nil ops).symm ▸ hr
  | full _ _ _ => exact (List.append_nil ops).symm ▸ hr
  | removed hfind _ hlist =>
      obtain ⟨e, he, hk⟩ := Assoc.findIdx?_eq_some hfind
      rw [hlist, Assoc.eraseIdx_eq_delete hr.nodup he hk]
      exact hr.delete _
  | replaced htable hfind _ hlist =>
      obtain ⟨e, he, hk⟩ := Assoc.findIdx?_eq_some hfind
      rw [hlist, Assoc.set_eq_put hr.nodup he hk, change, if_pos rfl, if_neg htable]
      exact hr.put _ _
  | @added _ g table htable hfind _ _ hlist =>
      have hput := hr.put g table
      rw [hlist, change, if_pos rfl, if_neg htable]
      rw [Assoc.put, if_neg (Assoc.findIdx?_eq_none_iff.mp hfind)] at hput
      exact hput

/-! ## Runs -/

/-- One call of a run. -/
structure Install where
  before : ConfigTable
  guid : Option EfiGuid
  table : UInt64
  status : EfiStatus
  after : ConfigTable

/-- The calls of the log are made one after the other, from `t` to `t'`. -/
def Installs (addr : UInt64) : ConfigTable → List Install → ConfigTable → Prop
  | t, [], t' => t = t'
  | t, x :: log, t' => x.before = t ∧ t.installConfigurationTable addr x.guid x.table = some (x.status, x.after) ∧
      Installs addr x.after log t'

/-- The changes of the calls that succeeded. -/
def changes (log : List Install) : List (EfiGuid × Option UInt64) :=
  log.flatMap fun x => change x.guid x.table x.status

theorem Installs.records {ops : List (EfiGuid × Option UInt64)} {log : List Install} (h : Installs addr t log t')
    (hs : Sound addr t) (hr : Assoc.Records ops t.listing) :
    Sound addr t' ∧ Assoc.Records (ops ++ changes log) t'.listing := by
  induction log generalizing t ops with
  | nil =>
      cases h
      exact ⟨hs, (List.append_nil ops).symm ▸ hr⟩
  | cons x log ih =>
      obtain ⟨rfl, hstep, hrest⟩ := h
      have hi := Installed.of_eq hs hstep
      rw [changes, List.flatMap_cons, ← List.append_assoc]
      exact ih hrest (hi.sound hs) (hi.records hr)

theorem Installs.statuses {log : List Install} {x : Install} (h : Installs addr t log t') (hs : Sound addr t)
    (hx : x ∈ log) : x.status = expected x.before.published x.guid x.table ∧
      (x.status ≠ .success → x.after = x.before) := by
  induction log generalizing t with
  | nil => cases hx
  | cons y log ih =>
      obtain ⟨hbefore, hstep, hrest⟩ := h
      have hi := Installed.of_eq hs hstep
      rcases List.mem_cons.mp hx with rfl | hx
      · subst hbefore
        rw [hs.published_eq]
        exact ⟨hi.status, hi.unchanged⟩
      · exact ih hrest (hi.sound hs) hx

theorem init_sound : Sound addr init := ⟨Nat.zero_le _, rfl, fun h => absurd rfl h⟩

/-- The arguments and the reply of a configuration call among the boot services calls. -/
def configCall (x : Boot.Made) : Option (Option EfiGuid × UInt64 × Reply) :=
  match x.call with
  | .installConfigurationTable guid table => some (guid, table, x.reply)
  | _ => none

/-- In every run of the boot services, the list of entries is the one in front of the array's count, after the
configuration calls of the run. -/
theorem exists_installs {image : Image} {s s' : Boot} {log : List Boot.Made} (h : Boot.Run image s log s')
    (hs : Sound addr t) (hl : s.configTable = t.listing) : ∃ calls t', Installs addr t calls t' ∧ Sound addr t' ∧
      s'.configTable = t'.listing ∧
      calls.map (fun x => (x.guid, x.table, Reply.just x.status)) = log.filterMap configCall := by
  induction log generalizing s t with
  | nil =>
      cases h
      exact ⟨[], t, rfl, hs, hl, rfl⟩
  | cons x log ih =>
      obtain ⟨rfl, hx, hlog⟩ := h
      by_cases hcall : ∃ guid table, x.call = .installConfigurationTable guid table
      · obtain ⟨guid, table, hcall⟩ := hcall
        obtain ⟨st, t₁, hstep, hi⟩ := installConfigurationTable_installed hs guid table
        rw [hcall] at hx
        obtain ⟨hreply, hafter⟩ := Prod.mk.inj ((hi.boot hl).symm.trans (Option.some.inj hx))
        obtain ⟨calls, t', hcalls, hs', hl', hmap⟩ := ih hlog (hi.sound hs) (by rw [← hafter])
        refine ⟨⟨t, guid, table, st, t₁⟩ :: calls, t', ⟨rfl, hstep, hcalls⟩, hs', hl', ?_⟩
        have hconfig : configCall x = some (guid, table, Reply.just st) := by rw [configCall, hcall, hreply]
        rw [List.map_cons, hmap, List.filterMap_cons, hconfig]
      · have hother : x.call.touches ≠ .config := by
          cases hc : x.call with
          | installConfigurationTable guid table => exact absurd ⟨guid, table, hc⟩ hcall
          | _ => simp [Call.touches]
        have hsame := (Boot.step_touches hx).frame.configTable hother
        obtain ⟨calls, t', hcalls, hs', hl', hmap⟩ := ih hlog hs (hsame.trans hl)
        refine ⟨calls, t', hcalls, hs', hl', ?_⟩
        have hconfig : configCall x = none := by
          rw [configCall]
          split
          · rename_i guid table hc
            exact absurd ⟨guid, table, hc⟩ hcall
          · rfl
        rw [hmap, List.filterMap_cons, hconfig]

/-- After every sequence of calls, none of which panics, the published entries are the one list that the calls that
succeeded leave, and each call returned what the entries before it say. -/
theorem published_iff {log : List Install} (h : Installs addr init log t) :
    (∀ l, Assoc.Records (changes log) l ↔ l = t.published) ∧ (t.published ≠ [] → t.configurationTable = addr) ∧
    (∀ x ∈ log, x.status = expected x.before.published x.guid x.table ∧ (x.status ≠ .success → x.after = x.before)) ∧
    ∀ guid table, (t.installConfigurationTable addr guid table).isSome := by
  obtain ⟨hs, hr⟩ := h.records init_sound Assoc.Records.nil
  rw [List.nil_append] at hr
  refine ⟨fun l => ?_, fun hne => ?_, fun x hx => h.statuses init_sound hx, fun guid table => ?_⟩
  · rw [hs.published_eq]
    constructor
    · exact fun hl => hl.unique hr
    · rintro rfl
      exact hr
  · refine hs.pointer fun hzero => hne ?_
    rw [hs.published_eq, listing, hzero]
    rfl
  · obtain ⟨st, t', heq, _⟩ := installConfigurationTable_installed hs guid table
    exact Option.isSome_iff_exists.mpr ⟨_, heq⟩

/-- A GUID that is removed and installed again goes to the end. -/
theorem published_again :
    let e₁ : Arr ConfigEntry maxConfigTableEntries := init.entries.set ⟨0, by decide⟩ ⟨loadedImageProtocolGuid, 0x1000⟩
    let e₂ := e₁.set ⟨1, by decide⟩ ⟨simpleTextOutputProtocolGuid, 0x2000⟩
    let e₃ := e₂.put 0 (e₂.slice 1 1)
    let e₄ := e₃.set ⟨1, by decide⟩ ⟨loadedImageProtocolGuid, 0x3000⟩
    let log : List Install := [⟨init, some loadedImageProtocolGuid, 0x1000, .success, ⟨e₁, 1, 0x80300, 1⟩⟩,
      ⟨⟨e₁, 1, 0x80300, 1⟩, some simpleTextOutputProtocolGuid, 0x2000, .success, ⟨e₂, 2, 0x80300, 2⟩⟩,
      ⟨⟨e₂, 2, 0x80300, 2⟩, some loadedImageProtocolGuid, 0, .success, ⟨e₃, 1, 0x80300, 1⟩⟩,
      ⟨⟨e₃, 1, 0x80300, 1⟩, some loadedImageProtocolGuid, 0x3000, .success, ⟨e₄, 2, 0x80300, 2⟩⟩]
    Installs 0x80300 init log ⟨e₄, 2, 0x80300, 2⟩ ∧
    changes log = [(loadedImageProtocolGuid, some 0x1000), (simpleTextOutputProtocolGuid, some 0x2000),
      (loadedImageProtocolGuid, none), (loadedImageProtocolGuid, some 0x3000)] ∧
    Assoc.Records (changes log) [(simpleTextOutputProtocolGuid, 0x2000), (loadedImageProtocolGuid, 0x3000)] := by
  intro e₁ e₂ e₃ e₄ log
  have h₁ : installConfigurationTable 0x80300 init (some loadedImageProtocolGuid) 0x1000 =
    some (.success, ⟨e₁, 1, 0x80300, 1⟩) := rfl
  have h₂ : installConfigurationTable 0x80300 ⟨e₁, 1, 0x80300, 1⟩ (some simpleTextOutputProtocolGuid) 0x2000 =
    some (.success, ⟨e₂, 2, 0x80300, 2⟩) := rfl
  have h₃ : installConfigurationTable 0x80300 ⟨e₂, 2, 0x80300, 2⟩ (some loadedImageProtocolGuid) 0 =
    some (.success, ⟨e₃, 1, 0x80300, 1⟩) := rfl
  have h₄ : installConfigurationTable 0x80300 ⟨e₃, 1, 0x80300, 1⟩ (some loadedImageProtocolGuid) 0x3000 =
    some (.success, ⟨e₄, 2, 0x80300, 2⟩) := rfl
  have hrun : Installs 0x80300 init log ⟨e₄, 2, 0x80300, 2⟩ := ⟨rfl, h₁, rfl, h₂, rfl, h₃, rfl, h₄, rfl⟩
  have hpub : published ⟨e₄, 2, 0x80300, 2⟩ =
    [(simpleTextOutputProtocolGuid, 0x2000), (loadedImageProtocolGuid, 0x3000)] := rfl
  refine ⟨hrun, ?_, ((published_iff hrun).1 _).mpr hpub.symm⟩
  simp [changes, change, log]

end ConfigTable

end Ferro
