import Ferro.Base.Serve
import Ferro.Files.Lemmas.Opening
import Mathlib.Data.List.DropRight

/-!
# Reading a directory handle

A directory handle holds the listing that was made when it was opened, of at most 16 entries, and `Read` shows every
entry of it as a directory.
-/

namespace Ferro

/-! ## Names and file information -/

namespace Name

variable (name : Name)

/-- The name before the dot, without its padding. -/
def base : List UInt8 := (name.slice 0 8).rdropWhile (· = 0x20)

/-- The extension, without its padding. -/
def ext : List UInt8 := (name.slice 8 3).rdropWhile (· = 0x20)

/-- The name as `BASE.EXT`, with a terminator. -/
def shown : List UInt16 := (name.base ++ if name.ext = [] then [] else 0x2E :: name.ext).map UInt8.toUInt16 ++ [0]

/-- Spaces are padding only. -/
def Unbroken : Prop := 0x20 ∉ name.base ∧ 0x20 ∉ name.ext

instance : Decidable name.Unbroken := inferInstanceAs (Decidable (_ ∧ _))

end Name

/-- The bytes of an `EFI_FILE_INFO`: its size, the two sizes of the file, three times, the attribute and the name. -/
def fileInfo (fileName : List UInt16) (size : Nat) (isDir : Bool) : List UInt8 :=
  leBytes 8 (80 + fileName.length * 2) ++ leBytes 8 size ++ leBytes 8 size ++ List.replicate 48 0 ++
    leBytes 8 (if isDir then efiFileDirectory else 0).toNat ++ fileName.flatMap fun unit => leBytes 2 unit.toNat

/-- The information on a directory entry. -/
def DirEntry.info (entry : DirEntry) : List UInt8 := fileInfo entry.name.shown entry.size entry.isDir

theorem length_fileInfo (fileName : List UInt16) (size : Nat) (isDir : Bool) :
    (fileInfo fileName size isDir).length = 80 + fileName.length * 2 := by
  simp [fileInfo, List.length_flatMap]
  omega

theorem filter_rdropWhile (l : List UInt8) : (l.rdropWhile (· = 0x20)).filter (· ≠ 0x20) = l.filter (· ≠ 0x20) := by
  conv_rhs => rw [← List.rdropWhile_append_rtakeWhile (p := fun x : UInt8 => decide (x = 0x20)) (l := l)]
  rw [List.filter_append]
  have hpad : (l.rtakeWhile (· = 0x20)).filter (· ≠ 0x20) = [] := by
    rw [List.filter_eq_nil_iff]
    intro x hx
    have := List.mem_rtakeWhile_imp hx
    simpa using this
  rw [hpad, List.append_nil]

theorem filter_eq_self_iff {l : List UInt8} : l.filter (· ≠ 0x20) = l ↔ 0x20 ∉ l := by
  rw [List.filter_eq_self]
  constructor
  · intro h hmem
    exact absurd (h _ hmem) (by decide)
  · intro h x hx
    refine decide_eq_true ?_
    rintro rfl
    exact h hx

namespace Name

variable {name : Name}

theorem ext_eq_nil_iff : name.ext = [] ↔ name.slice 8 3 = [0x20, 0x20, 0x20] := by
  have hlen : (name.slice 8 3).length = 3 := Arr.length_slice _ (by decide)
  rw [ext, List.rdropWhile_eq_nil_iff]
  constructor
  · intro h
    exact List.eq_replicate_of_mem (fun x hx => of_decide_eq_true (h x hx)) |>.trans (by rw [hlen]; rfl)
  · intro h x hx
    rw [h] at hx
    simp at hx
    exact decide_eq_true hx

theorem infoName_eq : infoName name = (name.base.filter (· ≠ 0x20) ++
    if name.ext = [] then [] else 0x2E :: name.ext.filter (· ≠ 0x20)).map UInt8.toUInt16 ++ [0] := by
  rw [infoName, base, filter_rdropWhile, List.map_append]
  by_cases hext : name.ext = []
  · rw [if_pos hext, if_neg (not_not.mpr (ext_eq_nil_iff.mp hext))]
    rfl
  · rw [if_neg hext, if_pos (fun h => hext (ext_eq_nil_iff.mpr h)), ext, filter_rdropWhile]
    rfl

/-- `write_file_info` drops every space, and so shows the names without inner spaces as they are. -/
theorem infoName_eq_shown_iff : infoName name = name.shown ↔ name.Unbroken := by
  rw [infoName_eq, shown, List.append_cancel_right_eq, List.map_inj_right (fun _ _ => UInt8.toUInt16_inj.mp), Unbroken,
    ← filter_eq_self_iff, ← filter_eq_self_iff]
  have hbase := List.length_filter_le (fun x => decide (x ≠ 0x20)) name.base
  have hext := List.length_filter_le (fun x => decide (x ≠ 0x20)) name.ext
  constructor
  · intro h
    have hlen := congrArg List.length h
    rw [List.length_append, List.length_append] at hlen
    by_cases hnil : name.ext = []
    · rw [if_pos hnil, if_pos hnil, List.append_nil, List.append_nil] at h
      exact ⟨h, by rw [hnil]; rfl⟩
    · rw [if_neg hnil, if_neg hnil] at h hlen
      rw [List.length_cons, List.length_cons] at hlen
      obtain ⟨hb, he⟩ := List.append_inj h (by omega)
      exact ⟨hb, (List.cons.inj he).2⟩
  · rintro ⟨hb, he⟩
    rw [hb, he]

end Name

theorem flatMap_leBytes_inj {l l' : List UInt16} :
    (l.flatMap fun unit => leBytes 2 unit.toNat) = (l'.flatMap fun unit => leBytes 2 unit.toNat) ↔ l = l' := by
  refine ⟨fun h => ?_, fun h => by rw [h]⟩
  induction l generalizing l' with
  | nil =>
      cases l' with
      | nil => rfl
      | cons y l' => cases h
  | cons x l ih =>
      cases l' with
      | nil => cases h
      | cons y l' =>
          rw [List.flatMap_cons, List.flatMap_cons] at h
          obtain ⟨hx, hl⟩ := List.append_inj h rfl
          have hnat := congrArg leNat hx
          rw [leNat_leBytes, leNat_leBytes, Nat.mod_eq_of_lt (x.toNat_lt.trans_eq (by decide)),
            Nat.mod_eq_of_lt (y.toNat_lt.trans_eq (by decide))] at hnat
          rw [UInt16.toNat_inj.mp hnat, ih hl]

theorem fileInfo_inj {fileName fileName' : List UInt16} {size : Nat} {isDir isDir' : Bool} :
    fileInfo fileName size isDir = fileInfo fileName' size isDir' ↔ fileName = fileName' ∧ isDir = isDir' := by
  refine ⟨fun h => ?_, fun ⟨hn, hd⟩ => by rw [hn, hd]⟩
  obtain ⟨h, hname⟩ := List.append_inj h (by simp)
  obtain ⟨_, hattr⟩ := List.append_inj h (by simp)
  refine ⟨flatMap_leBytes_inj.mp hname, ?_⟩
  cases isDir <;> cases isDir'
  · rfl
  · exact absurd hattr (by decide)
  · exact absurd hattr (by decide)
  · rfl

theorem writeFileInfo_eq (capacity : UInt64) (name : Name) (size : Nat) (isDir : Bool) :
    writeFileInfo capacity name size isDir =
      if capacity.toNat < (fileInfo (infoName name) size isDir).length then
        .error (fileInfo (infoName name) size isDir).length
      else .ok (fileInfo (infoName name) size isDir) := by
  rw [length_fileInfo]
  rfl

namespace Files

open DirEntry Serve

variable {fs : Fat32} {s s' : Files} {faults : Faults} {i c : Nat} {slot : Fin maxOpenFiles} {l : List Nat}

/-! ## The handle -/

/-- The answer to a `Read` of an entry, and whether the entry is handed out. -/
def infoReply (info : List UInt8) (bufferSize : UInt64) : Reply × Bool :=
  if bufferSize.toNat < info.length then (.buffer .bufferTooSmall info.length [], false)
  else (.buffer .success info.length info, true)

/-- The replies to `Read`s with the given buffer sizes. -/
def reads (s : Files) (this : Nat) : List UInt64 → List Reply
  | [] => []
  | n :: ns => (s.fileRead this (some n) true).1 :: reads (s.fileRead this (some n) true).2 this ns

/-- Reading the handle gives one `EFI_FILE_INFO` for each entry, in order, and nothing behind the last one. A read into
a buffer that is too small returns the size needed, and the entry is read again. -/
def Enumerates (s : Files) (this : Nat) (es : List DirEntry) : Prop :=
  ∀ sizes, s.reads this sizes =
    serve (fun entry => infoReply (DirEntry.info entry)) (fun _ => .buffer .success 0 []) es sizes

/-- What is shown of a listed entry. -/
def listedInfo (x : Name × Nat) : List UInt8 := fileInfo (infoName x.1) x.2 true

theorem readDir_eq {x : Name × Nat} (n : UInt64)
    (h : (s.files.get slot).dirEntries[(s.files.get slot).dirIndex]? = some x) :
    s.readDir slot n = ((infoReply (listedInfo x) n).1, if (infoReply (listedInfo x) n).2 then
      s.setFile slot { s.files.get slot with dirIndex := (s.files.get slot).dirIndex + 1 } else s) := by
  obtain ⟨name, size⟩ := x
  rw [readDir, h]
  dsimp only
  have hinfo : listedInfo (name, size) = fileInfo (infoName name) size true := rfl
  rw [writeFileInfo_eq, infoReply, hinfo]
  by_cases hsmall : n.toNat < (fileInfo (infoName name) size true).length
  · simp only [if_pos hsmall, Bool.false_eq_true, if_false]
  · simp only [if_neg hsmall, if_true]

theorem reads_eq {f : OpenFile} (hin : f.inUse) (hdir : f.dirCluster.isSome) (hf : s.files.get slot = f)
    (sizes : List UInt64) :
    s.reads slot sizes = serve (fun x => infoReply (listedInfo x)) (fun _ => .buffer .success 0 [])
      (f.dirEntries.drop f.dirIndex) sizes := by
  induction sizes generalizing s f with
  | nil => rw [reads, serve]
  | cons n ns ih =>
      have hthis : s.thisToIndex slot = some slot := thisToIndex_eq_some.mpr ⟨rfl, by rw [hf]; exact hin⟩
      have hread : s.fileRead slot (some n) true = s.readDir slot n := by
        simp only [fileRead, hthis, hf, hdir, if_true]
      rw [reads, hread]
      cases hnext : f.dirEntries[f.dirIndex]? with
      | none =>
          have hdrop : f.dirEntries.drop f.dirIndex = [] :=
            List.drop_eq_nil_iff.mpr (List.getElem?_eq_none_iff.mp hnext)
          have hrest := ih hin hdir hf
          rw [hdrop] at hrest
          rw [hdrop, serve, readDir, hf, hnext, hrest]
      | some x =>
          obtain ⟨hlt, hx⟩ := List.getElem?_eq_some_iff.mp hnext
          have hdrop : f.dirEntries.drop f.dirIndex = x :: f.dirEntries.drop (f.dirIndex + 1) := by
            rw [List.drop_eq_getElem_cons hlt, hx]
          rw [hdrop, serve, readDir_eq n (by rw [hf]; exact hnext), hf]
          cases (infoReply (listedInfo x) n).2 with
          | false =>
              have hrest := ih hin hdir hf
              rw [hdrop] at hrest
              exact congrArg _ hrest
          | true => exact congrArg _ (ih (f := { f with dirIndex := f.dirIndex + 1 }) hin hdir setFile_get_self)

theorem infoReply_inj {info info' : List UInt8} (hlen : info.length < 2 ^ 64)
    (h : ∀ b, (infoReply info b).1 = (infoReply info' b).1) : info = info' := by
  have hbig := h 0xFFFFFFFFFFFFFFFF
  have hmax : (0xFFFFFFFFFFFFFFFF : UInt64).toNat = 2 ^ 64 - 1 := rfl
  rw [infoReply, if_neg (by omega), infoReply] at hbig
  split at hbig
  · cases hbig
  · exact (Reply.buffer.inj hbig).2.2

theorem listedInfo_eq_iff {entry : DirEntry} :
    listedInfo (entry.name, entry.size) = entry.info ↔ entry.isDir ∧ entry.name.Unbroken := by
  have hlisted : listedInfo (entry.name, entry.size) = fileInfo (infoName entry.name) entry.size true := rfl
  rw [hlisted, DirEntry.info, fileInfo_inj, Name.infoName_eq_shown_iff, and_comm, eq_comm]

theorem length_field_le (l : List UInt8) (dot : UInt8) (l' : List UInt8) (c : Prop) [Decidable c] :
    ((l ++ if c then [] else dot :: l').map UInt8.toUInt16 ++ [0]).length ≤ l.length + l'.length + 2 := by
  rw [List.length_append, List.length_map, List.length_append]
  split <;> simp <;> omega

theorem length_slice_le (name : Name) : (name.slice 0 8).length = 8 ∧ (name.slice 8 3).length = 3 :=
  ⟨Arr.length_slice _ (by decide), Arr.length_slice _ (by decide)⟩

theorem length_base_add_ext (name : Name) : name.base.length + name.ext.length ≤ 11 := by
  have hbase := (List.rdropWhile_prefix (fun x => decide (x = 0x20)) (name.slice 0 8)).length_le
  have hext := (List.rdropWhile_prefix (fun x => decide (x = 0x20)) (name.slice 8 3)).length_le
  obtain ⟨h8, h3⟩ := length_slice_le name
  exact Nat.le_trans (Nat.add_le_add hbase hext) (by omega)

theorem length_listedInfo (x : Name × Nat) : 0 < (listedInfo x).length ∧ (listedInfo x).length < 2 ^ 64 := by
  have hle := length_base_add_ext x.1
  have hbase := List.length_filter_le (fun x => decide (x ≠ 0x20)) x.1.base
  have hext := List.length_filter_le (fun x => decide (x ≠ 0x20)) x.1.ext
  have := length_field_le (x.1.base.filter (· ≠ 0x20)) 0x2E (x.1.ext.filter (· ≠ 0x20)) (x.1.ext = [])
  rw [listedInfo, length_fileInfo, Name.infoName_eq]
  omega

theorem length_info (entry : DirEntry) : 0 < entry.info.length ∧ entry.info.length < 2 ^ 64 := by
  have hle := length_base_add_ext entry.name
  have := length_field_le entry.name.base 0x2E entry.name.ext (entry.name.ext = [])
  rw [DirEntry.info, length_fileInfo, Name.shown]
  omega

/-! ## What is opened -/

/-- What a directory handle lists: nothing if a block of the listing fails, and else the first 16 entries. -/
theorem openDir_eq (hc : Chain (fs.nextAt s.card) c l) (h : s.openDir faults i fs c = some (some slot, s')) :
    ∃ es, s'.files.get slot = .freshDir c es ∧
      (((∀ j < (fs.listDir c maxDirEntries).ops s.card, faults (i + j) = none) ∧
          es = (listing (fs.dirEntries s.card l)).take maxDirEntries) ∨
        (¬ (∀ j < (fs.listDir c maxDirEntries).ops s.card, faults (i + j) = none) ∧ es = [])) := by
  have hstop (j : Nat) : faults.stop j = none ↔ faults j = none := by rw [Faults.stop, Option.map_eq_none_iff]
  unfold openDir at h
  rcases s.allocSlot_cases with ⟨_, hn⟩ | ⟨k, _, ha⟩
  · rw [hn] at h
    cases h
  · rw [ha] at h
    obtain ⟨⟨r, j, t⟩, hexec, he⟩ := Option.bind_eq_some_iff.mp h
    obtain rfl := exec_readOnly (fs.readOnly_listDir c maxDirEntries) hexec
    obtain ⟨x, hx, hrun, _⟩ := exec_eq_some hexec
    cases he
    refine ⟨_, by rw [setFile_get_self, setFile_get_self]; rfl, ?_⟩
    by_cases hno : ∀ j < (fs.listDir c maxDirEntries).ops s.card, faults (i + j) = none
    · have heq := Prog.runFaults_eq_run (p := fs.listDir c maxDirEntries) (i := i) (d := s.card)
        fun j hj => (hstop _).mpr (hno j hj)
      have hcard : (s.setFile slot { emptyFile with inUse := true }).card = s.card := rfl
      rw [hcard, heq, fs.run_listDir_chain s.card hc] at hrun
      obtain ⟨rfl, _⟩ := Prod.mk.inj hrun
      cases hx
      exact .inl ⟨hno, rfl⟩
    · refine .inr ⟨hno, ?_⟩
      cases r with
      | error e => rfl
      | ok es =>
          rw [Stop.returned_ok.mp hx] at hrun
          have hok := Prog.ops_of_runFaults_ok (congrArg Prod.fst hrun)
          exact absurd (fun j hj => (hstop _).mp (hok j hj)) hno

/-- The first items of a list are those of a whole list exactly when it is no longer. -/
theorem forall₂_take_map_iff {α β : Type} {R : β → α → Prop} (f : α → β) (n : Nat) (l : List α) :
    List.Forall₂ R ((l.map f).take n) l ↔ l.length ≤ n ∧ ∀ x ∈ l, R (f x) x := by
  constructor
  · intro h
    have hlen := h.length_eq
    rw [List.length_take, List.length_map] at hlen
    have hle : l.length ≤ n := by omega
    rw [List.take_of_length_le (by rw [List.length_map]; exact hle), List.forall₂_map_left_iff] at h
    exact ⟨hle, List.forall₂_same.mp h⟩
  · rintro ⟨hle, h⟩
    rw [List.take_of_length_le (by rw [List.length_map]; exact hle), List.forall₂_map_left_iff]
    exact List.forall₂_same.mpr h

/-- A directory handle enumerates the live entries of a directory of at most 16 entries, all of them subdirectories with
unbroken names, if no block of the listing has failed. -/
theorem enumeratesDir_iff (hc : Chain (fs.nextAt s.card) c l) (hopen : s.openDir faults i fs c = some (some slot, s')) :
    Enumerates s' slot (live (fs.dirEntries s.card l)) ↔
      ((∀ j < (fs.listDir c maxDirEntries).ops s.card, faults (i + j) = none) ∨ live (fs.dirEntries s.card l) = []) ∧
      (live (fs.dirEntries s.card l)).length ≤ maxDirEntries ∧
      ∀ entry ∈ live (fs.dirEntries s.card l), entry.isDir ∧ entry.name.Unbroken := by
  obtain ⟨es, hslot, hes⟩ := openDir_eq hc hopen
  have hreads (sizes : List UInt64) := reads_eq (f := .freshDir c es) rfl rfl hslot sizes
  have hmax : (0xFFFFFFFFFFFFFFFF : UInt64).toNat = 2 ^ 64 - 1 := rfl
  have hbig {info : List UInt8} (h : 0 < info.length ∧ info.length < 2 ^ 64) :
      infoReply info 0xFFFFFFFFFFFFFFFF = (.buffer .success info.length info, true) := by
    rw [infoReply, if_neg (by omega)]
  have hne {info : List UInt8} (h : 0 < info.length) : Reply.buffer .success info.length info ≠ .buffer .success 0 [] := by
    intro he
    have := (Reply.buffer.inj he).2.1
    omega
  have hserve : (∀ sizes, serve (fun x => infoReply (listedInfo x)) (fun _ => .buffer .success 0 []) es sizes =
      serve (fun entry => infoReply (DirEntry.info entry)) (fun _ => .buffer .success 0 [])
        (live (fs.dirEntries s.card l)) sizes) ↔
      List.Forall₂ (fun x entry => infoReply (listedInfo x) = infoReply (DirEntry.info entry)) es
        (live (fs.dirEntries s.card l)) :=
    serve_eq_iff 0xFFFFFFFFFFFFFFFF (fun x => by rw [hbig (length_listedInfo x)]) (fun y => by rw [hbig (length_info y)])
      (fun x => by rw [hbig (length_listedInfo x)]; exact hne (length_listedInfo x).1)
      (fun y => by rw [hbig (length_info y)]; exact hne (length_info y).1)
      (fun x y h => by rw [infoReply_inj (length_listedInfo x).2 h])
  have hlisted (entry : DirEntry) : infoReply (listedInfo (entry.name, entry.size)) = infoReply entry.info ↔
      entry.isDir ∧ entry.name.Unbroken := by
    rw [← listedInfo_eq_iff]
    exact ⟨fun h => infoReply_inj (length_listedInfo _).2 fun b => by rw [h], fun h => by rw [h]⟩
  rw [Enumerates]
  simp only [hreads]
  refine Iff.trans hserve ?_
  rcases hes with ⟨hno, rfl⟩ | ⟨hfail, rfl⟩
  · rw [listing, forall₂_take_map_iff]
    simp only [hlisted]
    exact ⟨fun h => ⟨.inl hno, h⟩, fun h => h.2⟩
  · rw [List.forall₂_nil_left_iff]
    constructor
    · intro h
      rw [h]
      exact ⟨.inr rfl, Nat.zero_le _, by simp⟩
    · rintro ⟨h | h, _⟩
      · exact absurd h hfail
      · exact h

/-! ## Small directories -/

open Fat32 (fileA fileB smallFs listedCard)

theorem exists_free_init (context : Option Fat32) (card : Disk) :
    ∃ k, ((init context card).files.get k).inUse = false :=
  ⟨⟨0, by decide⟩, rfl⟩

theorem exists_openDir_init (context : Option Fat32) {card : Disk} (hc : Chain (fs.nextAt card) dir l) :
    ∃ slot s', (init context card).openDir noFaults 0 fs dir = some (some slot, s') := by
  obtain ⟨k, _, hopen⟩ := openDir_of_chain (s := init context card) (i := 0) (fun _ => rfl) hc (exists_free_init _ _)
  exact ⟨k, _, hopen⟩

/-- The root directory of `listedCard` with a subdirectory in the place of the file, and another one behind it. -/
def subdirsCard : Disk :=
  Function.update listedCard 3 (((listedCard 3).put 43 [0x10]).put 64 ((entryBytes fileB 4 0).set 11 0x10))

set_option maxRecDepth 8000 in
theorem enumerates_subdirs : ∃ slot s' first second,
    (init (some smallFs) subdirsCard).openDir noFaults 0 smallFs 2 = some (some slot, s') ∧
    live (smallFs.dirEntries subdirsCard [2]) = [first, second] ∧ DirEntry.name first = fileA ∧
      DirEntry.name second = fileB ∧ Enumerates s' slot [first, second] := by
  have hend : smallFs.nextAt subdirsCard 2 = none := by rfl
  have hc : Chain (smallFs.nextAt subdirsCard) 2 [2] := .last hend
  obtain ⟨slot, s', hopen⟩ := exists_openDir_init (some smallFs) hc
  have hlive : live (smallFs.dirEntries subdirsCard [2]) = [(subdirsCard 3).entry 1, (subdirsCard 3).entry 2] := by rfl
  have henum := (enumeratesDir_iff (s := init (some smallFs) subdirsCard) hc hopen).mpr
  refine ⟨slot, s', _, _, hopen, hlive, by decide, by decide, ?_⟩
  change _ → Enumerates s' slot (live (smallFs.dirEntries subdirsCard [2])) at henum
  rw [hlive] at henum
  refine henum ⟨.inl fun _ _ => rfl, by decide, fun entry h => ?_⟩
  rcases List.mem_pair.mp h with rfl | rfl
  · exact ⟨by decide, by decide⟩
  · exact ⟨by decide, by decide⟩

set_option maxRecDepth 8000 in
/-- A file in the root directory is shown as a directory. -/
theorem not_enumerates_file : ∃ slot s',
    (init (some smallFs) listedCard).openDir noFaults 0 smallFs 2 = some (some slot, s') ∧
    live (smallFs.dirEntries listedCard [2]) = [newEntry fileA 3 600] ∧
      s'.reads slot [200] = [.buffer .success 84 (fileInfo [0x41, 0] 600 true)] ∧
        ¬ Enumerates s' slot [newEntry fileA 3 600] := by
  have hend : smallFs.nextAt listedCard 2 = none := by rfl
  have hc : Chain (smallFs.nextAt listedCard) 2 [2] := .last hend
  obtain ⟨slot, s', hopen⟩ := exists_openDir_init (some smallFs) hc
  have hlive : live (smallFs.dirEntries listedCard [2]) = [newEntry fileA 3 600] := by rfl
  have hlisting : (listing (smallFs.dirEntries listedCard [2])).take maxDirEntries = [(fileA, 600)] := by rfl
  have hshown : listedInfo (fileA, 600) = fileInfo [0x41, 0] 600 true := by rfl
  have hinfo : (newEntry fileA 3 600).info = fileInfo [0x41, 0] 600 false := by rfl
  have hlen (isDir : Bool) : (fileInfo [0x41, 0] 600 isDir).length = 84 := length_fileInfo _ _ _
  obtain ⟨es, hslot, ⟨_, hes⟩ | ⟨hfail, _⟩⟩ := openDir_eq (s := init (some smallFs) listedCard) hc hopen
  · have hread : s'.reads slot [200] = [.buffer .success 84 (fileInfo [0x41, 0] 600 true)] := by
      rw [reads_eq (f := .freshDir 2 es) rfl rfl hslot, hes]
      change serve _ _ ((listing (smallFs.dirEntries listedCard [2])).take maxDirEntries) _ = _
      rw [hlisting, serve, serve, hshown, infoReply, hlen, if_neg (by decide)]
    refine ⟨slot, s', hopen, hlive, hread, fun h => ?_⟩
    have hsame := h [200]
    rw [hread, serve, serve, hinfo, infoReply, hlen, if_neg (by decide)] at hsame
    have hbytes := (Reply.buffer.inj (List.cons.inj hsame).1).2.2
    exact absurd (fileInfo_inj.mp hbytes).2 (by decide)
  · exact absurd (fun _ _ => rfl) hfail

end Files

end Ferro
