import Ferro.Fat32.Lemmas.Contents
import Ferro.Files.Lemmas.Handles

/-!
# Runs of the file protocol

What a call does to the contents of the files on a working card, and what stays the same over whole runs.
-/

namespace Ferro

namespace Files

variable {fs : Fat32} {s s' t : Files} {m : Made} {w : Write} {log log' : List Made} {name name' : Name}
  {c : List UInt8} {k : Fin maxOpenFiles} {b : ByteFile}

theorem Run.append : Run s (log ++ log') s' ↔ ∃ t, Run s log t ∧ Run t log' s' := by
  induction log generalizing s with
  | nil => simp [Run]
  | cons m log ih => simp [Run, ih, and_assoc]

theorem Run.step_of_mem (h : Run s log s') (hm : m ∈ log) :
    m.before.step m.faults m.call = some (m.reply, m.after) := by
  induction log generalizing s with
  | nil => cases hm
  | cons m' log ih =>
      obtain ⟨rfl, hm', hlog⟩ := h
      rcases List.mem_cons.mp hm with rfl | hm
      · exact hm'
      · exact ih hlog hm

theorem Run.context (h : Run s log s') : s'.context = s.context := by
  induction log generalizing s with
  | nil => cases h; rfl
  | cons m log ih =>
      obtain ⟨rfl, hm, hlog⟩ := h
      exact (ih hlog).trans (step_context hm)

theorem Run.valid (h : Run s log s') (hv : ∀ k, (s.files.get k).Valid) : ∀ k, (s'.files.get k).Valid := by
  induction log generalizing s with
  | nil => cases h; exact hv
  | cons m log ih =>
      obtain ⟨rfl, hm, hlog⟩ := h
      exact ih hlog (step_valid hm hv)

/-- A state that the protocol reaches from power-on. -/
def Reachable (s : Files) : Prop := ∃ context card log, Run (init context card) log s

theorem Reachable.init (context : Option Fat32) (card : Disk) : Reachable (init context card) := ⟨context, card, [], rfl⟩

theorem Reachable.step {faults : Faults} {c : Call} {r : Reply} (h : Reachable s)
    (hs : s.step faults c = some (r, s')) : Reachable s' := by
  obtain ⟨context, card, log, hrun⟩ := h
  have hlast : Run s [⟨s, faults, c, r, s'⟩] s' := ⟨rfl, hs, rfl⟩
  exact ⟨context, card, _, Run.append.mpr ⟨s, hrun, hlast⟩⟩

theorem Reachable.valid (h : Reachable s) (k : Fin maxOpenFiles) : (s.files.get k).Valid := by
  obtain ⟨context, card, log, hrun⟩ := h
  exact hrun.valid (fun _ => OpenFile.valid_empty) k

/-! ## Handles -/

/-- The handle holds the byte file that its calls have made of it. -/
theorem Run.refines (h : Run s log s') (hv : ∀ k, (s.files.get k).Valid) (hh : s.Handle k name b)
    (hplain : ∀ m ∈ log, m.call.this = some k.val → m.call.plain) :
    ∃ b', Refines k b log b' ∧ s'.Handle k name b' := by
  induction log generalizing s b with
  | nil => cases h; exact ⟨b, rfl, hh⟩
  | cons m log ih =>
      obtain ⟨rfl, hm, hlog⟩ := h
      have hrest : ∀ m ∈ log, m.call.this = some k.val → m.call.plain := fun x hx => hplain x (List.mem_cons_of_mem m hx)
      by_cases hk : m.call.this = some k.val
      · obtain ⟨b₁, ha⟩ := hh.call (hv k) hm hk (hplain m List.mem_cons_self hk)
        obtain ⟨b', hr, hb⟩ := ih hlog (step_valid hm hv) ha.handle hrest
        refine ⟨b', ?_, hb⟩
        rw [Refines, if_pos hk]
        exact ⟨b₁, ha.reply, hr⟩
      · obtain ⟨b', hr, hb⟩ := ih hlog (step_valid hm hv) (hh.other hm hk) hrest
        refine ⟨b', ?_, hb⟩
        rw [Refines, if_neg hk]
        exact hr

/-! ## One call and the card -/

/-- What the protocol relies on. -/
structure Sound (fs : Fat32) (s : Files) : Prop where
  context : s.context = some fs
  valid : ∀ k, (s.files.get k).Valid
  wellFormed : fs.WellFormed (fs.volume s.card)

/-- The call writes no subdirectory, and a write from elsewhere has a proper name and fewer than `2 ^ 32` bytes. -/
structure Orderly (fs : Fat32) (m : Made) : Prop where
  notSubdir {w : Write} : m.request = some w → fs.NotSubdir (fs.volume m.before.card) w.name
  direct {name : Name} {data : List UInt8} : m.call = .writeFile name data → name.Proper ∧ data.length < 2 ^ 32

/-- The same for all names but `name`. -/
structure Polite (fs : Fat32) (name : Name) (m : Made) : Prop where
  notSubdir {w : Write} : m.request = some w → w.name ≠ name → fs.NotSubdir (fs.volume m.before.card) w.name
  direct {name : Name} {data : List UInt8} : m.call = .writeFile name data → name.Proper ∧ data.length < 2 ^ 32

theorem flushWrite_eq_some {this : Nat} (hs : Sound fs s) (h : s.flushWrite this = some w) :
    w.fs = fs ∧ w.name.Proper ∧ w.data.length < 2 ^ 32 := by
  cases hk : s.thisToIndex this with
  | none => rw [flushWrite_none hk] at h; cases h
  | some k =>
      rw [flushWrite_eq hk, hs.context] at h
      split at h
      · rename_i hd
        cases h
        have hv := hs.valid k
        have hlen := hv.len_le
        rw [Bool.and_eq_true] at hd
        refine ⟨rfl, hv.proper hd.1, ?_⟩
        rw [OpenFile.length_bytes hv]
        omega
      · cases h

/-- A request is for the mounted volume, and of the protocol itself it has a proper name and at most 65536 bytes. -/
theorem request_eq_some {faults : Faults} {c : Call} (hs : Sound fs s) (h : s.request faults c = some w) :
    w.fs = fs ∧ ((w.name.Proper ∧ w.data.length < 2 ^ 32) ∨ c = .writeFile w.name w.data) := by
  cases c with
  | fileOpen this newHandle fileName mode =>
      cases newHandle with
      | false => cases h
      | true =>
          cases fileName with
          | none => cases h
          | some path =>
              obtain ⟨⟨fs', p⟩, hroot, h⟩ := Option.bind_eq_some_iff.mp h
              obtain ⟨name, hname, h⟩ := Option.bind_eq_some_iff.mp h
              obtain ⟨⟨x, i, t⟩, _, h⟩ := Option.bind_eq_some_iff.mp h
              have hfs : fs' = fs := by
                obtain ⟨_, _, _, _, _, hc, _⟩ := rootPath_eq_some.mp hroot
                rw [hs.context] at hc
                exact (Option.some.inj hc).symm
              cases x with
              | ok buf => cases h
              | error e =>
                  dsimp only at h
                  split at h
                  · cases h
                    exact ⟨hfs, Or.inl ⟨to83_proper hname (rootPath_bytes hroot), Nat.two_pow_pos 32⟩⟩
                  · cases h
  | fileClose this => exact (flushWrite_eq_some hs h).imp_right Or.inl
  | fileDelete this => exact (flushWrite_eq_some hs h).imp_right Or.inl
  | fileFlush this => exact (flushWrite_eq_some hs h).imp_right Or.inl
  | writeFile name data =>
      simp only [request, hs.context] at h
      cases h
      exact ⟨rfl, Or.inr rfl⟩
  | openVolume root => cases h
  | fileRead this size buffer => cases h
  | fileWrite this size buffer => cases h
  | fileGetPosition this position => cases h
  | fileSetPosition this position => cases h
  | fileGetInfo this guid size buffer => cases h
  | fileSetInfo this => cases h

theorem Write.Quiet.run {faults : Faults} {card : Disk} (h : w.Quiet faults card) :
    (w.run faults card).1 = ((w.fs.writeFile w.name w.data).run card).1 ∧
      (w.run faults card).2.2 = ((w.fs.writeFile w.name w.data).run card).2 := by
  have heq : w.run faults card = _ := Prog.runFaults_eq_run fun j hj => by rw [Faults.stop, h j hj]; rfl
  rw [heq]
  exact ⟨rfl, rfl⟩

theorem Write.quiet_of_ok {faults : Faults} {card : Disk} (h : (w.run faults card).1 = .ok ()) :
    w.Quiet faults card := by
  intro j hj
  simpa [Faults.stop] using Prog.ops_of_runFaults_ok h j hj

theorem Made.Working.quiet (h : m.Working) : w.Quiet m.faults m.before.card := fun _ _ => h _

section Orderly

variable (hs : Sound fs m.before) (ha : fs.Addressable) (ho : Orderly fs m)
  (hm : m.before.step m.faults m.call = some (m.reply, m.after))

include hs ho in
theorem Orderly.callable (hw : m.request = some w) :
    w.fs = fs ∧ fs.Callable (fs.volume m.before.card) w.name w.data := by
  obtain ⟨hfs, hcall⟩ := request_eq_some hs hw
  have hprop : w.name.Proper ∧ w.data.length < 2 ^ 32 := hcall.elim id ho.direct
  exact ⟨hfs, hprop.1, ho.notSubdir hw, hprop.2⟩

theorem Sound.step_none {faults : Faults} {call : Call} {r : Reply} (hs : Sound fs s)
    (h : s.step faults call = some (r, s')) (hreq : s.request faults call = none) : Sound fs s' ∧ s'.card = s.card := by
  have hcard : s'.card = s.card := by rw [step_card h, hreq]; rfl
  exact ⟨⟨(step_context h).trans hs.context, step_valid h hs.valid, by rw [hcard]; exact hs.wellFormed⟩, hcard⟩

include hm in
theorem after_card : m.after.card = m.before.cardAfter m.faults m.request := step_card hm

include hs ha ho hm in
theorem Orderly.overwrites (hw : m.request = some w) (hq : w.Quiet m.faults m.before.card) :
    fs.Overwrites m.before.card w.name w.data (w.run m.faults m.before.card).1 m.after.card := by
  obtain ⟨rfl, hcall⟩ := ho.callable hs hw
  rw [after_card hm, hw, cardAfter, hq.run.1, hq.run.2]
  exact Fat32.run_overwrites hs.wellFormed ha hcall

include hs ha ho hm in
theorem Orderly.sound (hq : ∀ w, m.request = some w → w.Quiet m.faults m.before.card) : Sound fs m.after := by
  refine ⟨(step_context hm).trans hs.context, step_valid hm hs.valid, ?_⟩
  cases hw : m.request with
  | none =>
      rw [after_card hm, hw]
      exact hs.wellFormed
  | some w => exact (ho.overwrites hs ha hm hw (hq w hw)).wellFormed

end Orderly

section Polite

variable (hs : Sound fs m.before) (ha : fs.Addressable) (hp : Polite fs name m)
  (hdir : fs.NotSubdir (fs.volume m.before.card) name)
  (hm : m.before.step m.faults m.call = some (m.reply, m.after))

include hp hdir in
theorem Polite.orderly : Orderly fs m := by
  refine ⟨fun {w} hw => ?_, hp.direct⟩
  by_cases hne : w.name = name
  · rw [hne]; exact hdir
  · exact hp.notSubdir hw hne

include hs ha hp hdir hm

/-- A call on a working card: the volume stays well formed, and the file `name` has what the call saves to it. -/
theorem Polite.step (hwork : m.Working) : Sound fs m.after ∧ fs.NotSubdir (fs.volume m.after.card) name ∧
    ∀ c, fs.Contents m.before.card name c → fs.Contents m.after.card name ((m.saved name).getD c) := by
  have ho := hp.orderly hdir
  refine ⟨ho.sound hs ha hm fun w _ => hwork.quiet, ?_⟩
  cases hw : m.request with
  | none =>
      rw [after_card hm, Made.saved, hw]
      exact ⟨hdir, fun c hc => hc⟩
  | some w =>
      have hover := ho.overwrites hs ha hm hw hwork.quiet
      refine ⟨hover.notSubdir hdir, fun c hc => ?_⟩
      rw [Made.saved, hw, Option.bind_some]
      split
      · rename_i hok
        obtain ⟨rfl, hok⟩ := hok
        refine hover.written ?_
        rcases hover.result with h | h
        · exact h
        · rw [h] at hok; cases hok
      · rename_i hno
        refine hover.other ?_ hc
        by_cases hne : name = w.name
        · refine Or.inr fun hok => hno ⟨hne.symm, ?_⟩
          rw [hok]
          rfl
        · exact Or.inl hne

end Polite

/-! ## Opening a root file -/

section Open

variable {faults : Faults} {this new : Nat} {path : Ptr16} {p : List UInt8} {mode : UInt64}

theorem exec_quiet {α : Type} {i : Nat} {prog : CardM α} (hf : ∀ j < prog.ops s.card, faults (i + j) = none) :
    s.exec faults i prog = (Stop.returned (prog.run s.card).1).map fun r =>
      (r, i + prog.ops s.card, { s with card := (prog.run s.card).2 }) := by
  have heq : prog.runFaults faults.stop i s.card = _ :=
    Prog.runFaults_eq_run fun j hj => by rw [Faults.stop, hf j hj]; rfl
  simp only [exec, heq]

theorem exec_working {α : Type} (hf : ∀ i, faults i = none) (i : Nat) (prog : CardM α) :
    s.exec faults i prog = (Stop.returned (prog.run s.card).1).map fun r =>
      (r, i + prog.ops s.card, { s with card := (prog.run s.card).2 }) :=
  exec_quiet fun _ _ => hf _

theorem exec_of_readOnly {α : Type} (hf : ∀ i, faults i = none) {prog : CardM α} (hp : prog.ReadOnly) {a : α}
    (hr : (prog.run s.card).1 = .ok a) (i : Nat) : s.exec faults i prog = some (.ok a, i + prog.ops s.card, s) := by
  rw [exec_working hf, hr, hp.run]
  rfl

theorem exec_readFile (hf : ∀ i, faults i = none) (name : Name) (outLen : Nat) :
    s.exec faults 0 (fs.readFile name outLen) = (Stop.returned ((fs.readFile name outLen).run s.card).1).map fun r =>
      (r, (fs.readFile name outLen).ops s.card, s) := by
  rw [exec_working hf, (fs.readOnly_readFile name outLen).run, Nat.zero_add]

/-- The `write_file` of an open is for the file that is opened. -/
theorem request_fileOpen (hroot : s.rootPath this path = some (fs, p)) (hname : to83OrNone p = some name)
    (h : s.request faults (.fileOpen this true (some path) mode) = some w) : w.name = name := by
  simp only [request, hroot, createWrite, hname, Option.bind_eq_bind, Option.bind_some] at h
  obtain ⟨⟨x, i, t⟩, _, h⟩ := Option.bind_eq_some_iff.mp h
  cases x with
  | ok buf => cases h
  | error e =>
      dsimp only at h
      split at h
      · cases h; rfl
      · cases h

theorem createWrite_of_contents (hf : ∀ i, faults i = none) (hname : to83OrNone p = some name)
    (hc : fs.Contents s.card name c) : s.createWrite faults fs p mode = none := by
  simp only [createWrite, hname, exec_readFile hf, hc maxFileBytes, Option.bind_eq_bind, Option.bind_some, Stop.returned,
    Option.map_some]

/-- A handle for writing holds the first 65536 bytes of the file. -/
theorem open_handle (hs : Sound fs s) (ha : fs.Addressable) (hroot : s.rootPath this path = some (fs, p))
    (hname : to83OrNone p = some name) (hdir : fs.NotSubdir (fs.volume s.card) name)
    (hmode : mode &&& efiFileModeWrite ≠ 0) (hf : ∀ i, faults i = none)
    (h : s.step faults (.fileOpen this true (some path) mode) = some (.opened new, s')) :
    ∃ k c, new = k.val ∧ (s.files.get k).inUse = false ∧ s'.files.get k = .fresh name (c.take 65536) true ∧
      fs.Contents s'.card name c ∧ (∀ c₀, fs.Contents s.card name c₀ → s'.card = s.card) ∧ Sound fs s' ∧
      fs.NotSubdir (fs.volume s'.card) name := by
  have hp : Polite fs name ⟨s, faults, .fileOpen this true (some path) mode, .opened new, s'⟩ :=
    ⟨fun hw hne => absurd (request_fileOpen hroot hname hw) hne, fun he => by cases he⟩
  obtain ⟨hs', hdir', _⟩ := hp.step hs ha hdir h hf
  have hreq : s.request faults (.fileOpen this true (some path) mode) = s.createWrite faults fs p mode := by
    simp only [request, hroot, Option.bind_eq_bind, Option.bind_some]
  have hstep := h
  rw [step, fileOpen_root hroot] at h
  have hw := decide_eq_true hmode
  cases openedRoot h with
  | @found name' buf i slot hname' hread hno hfree =>
      cases hname.symm.trans hname'
      obtain ⟨c, hc, rfl⟩ := Fat32.exists_contents hs.wellFormed hread
      exact ⟨slot, c, rfl, hfree, by rw [setFile_get_self, hw]; rfl, hc, fun _ _ => rfl, hs', hdir'⟩
  | @created name' i slot hname' hcreate hok hfree =>
      cases hname.symm.trans hname'
      refine ⟨slot, [], rfl, hfree, by rw [setFile_get_self, hw]; rfl, ?_, fun c₀ hc₀ => ?_, hs', hdir'⟩
      · exact ((hp.orderly hdir).overwrites hs ha hstep (hreq.trans hcreate) fun _ _ => hf _).written hok
      · rw [createWrite_of_contents hf hname hc₀] at hcreate
        cases hcreate

end Open

/-! ## Writing back -/

/-- A flush or a close of the handle. -/
def WritesBack (k : Fin maxOpenFiles) (m : Made) : Prop := m.call = .fileFlush k ∨ m.call = .fileClose k

section WriteBack

variable (hctx : m.before.context = some fs) (hh : m.before.Handle k name b)

theorem plain_request (hk : m.call.this = some k.val) (hplain : m.call.plain) (hw : m.request = some w) :
    m.call = .fileFlush k := by
  rw [Made.request] at hw
  cases hc : m.call with
  | fileFlush this => rw [hc] at hk; cases hk; rfl
  | fileRead this size buffer => rw [hc] at hw; cases hw
  | fileWrite this size buffer => rw [hc] at hw; cases hw
  | fileGetPosition this position => rw [hc] at hw; cases hw
  | fileSetPosition this position => rw [hc] at hw; cases hw
  | _ => rw [hc] at hplain; cases hplain

theorem WritesBack.this (hcall : WritesBack k m) : m.call.this = some k.val := by
  rcases hcall with h | h <;> rw [h] <;> rfl

include hctx hh in
theorem WritesBack.request (hcall : WritesBack k m) :
    m.request = if (m.before.files.get k).dirty then some ⟨fs, name, b.bytes, 0⟩ else none := by
  rw [← hh.flushWrite hctx, Made.request]
  rcases hcall with h | h <;> rw [h] <;> rfl

include hctx hh in
theorem WritesBack.polite (hcall : WritesBack k m) : Polite fs name m := by
  refine ⟨fun {w} hw hne => absurd ?_ hne, fun he => ?_⟩
  · rw [hcall.request hctx hh] at hw
    split at hw
    · cases hw; rfl
    · cases hw
  · rcases hcall with h | h <;> (rw [h] at he; cases he)

include hctx hh in
theorem polite_plain (hk : m.call.this = some k.val) (hplain : m.call.plain) : Polite fs name m := by
  refine ⟨fun {w} hw => ?_, fun he => ?_⟩
  · exact (WritesBack.polite hctx hh (Or.inl (plain_request hk hplain hw))).notSubdir hw
  · rw [he] at hplain; cases hplain

variable (hs : Sound fs m.before) (ha : fs.Addressable) (hdir : fs.NotSubdir (fs.volume m.before.card) name)
  (hm : m.before.step m.faults m.call = some (m.reply, m.after))

include hs hh ha hdir hm

/-- If no `write_file` fails, a handle that was in sync if clean is in sync after it is written back. -/
theorem WritesBack.sync (hcall : WritesBack k m)
    (hc : (m.before.files.get k).dirty = false → fs.Contents m.before.card name b.bytes)
    (hok : ∀ r, m.result = some r → r = .ok ()) :
    fs.Contents m.after.card name b.bytes ∧ Sound fs m.after ∧ fs.NotSubdir (fs.volume m.after.card) name := by
  have ho := (hcall.polite hs.context hh).orderly hdir
  have hreq := hcall.request hs.context hh
  have hsound : Sound fs m.after := ho.sound hs ha hm fun w hw =>
    Write.quiet_of_ok (hok _ (by rw [Made.result, hw]; rfl))
  cases hd : (m.before.files.get k).dirty with
  | false =>
      rw [hd, if_neg Bool.false_ne_true] at hreq
      have hcard : m.after.card = m.before.card := by rw [after_card hm, hreq]; rfl
      rw [hcard]
      exact ⟨hc hd, hsound, hdir⟩
  | true =>
      rw [hd, if_pos rfl] at hreq
      have hr := hok _ (by rw [Made.result, hreq]; rfl)
      have hover := ho.overwrites hs ha hm hreq (Write.quiet_of_ok hr)
      exact ⟨hover.written hr, hsound, hover.notSubdir hdir⟩

end WriteBack

/-! ## Calls return -/

section Returns

variable {faults : Faults} {c : Call} (hf : ∀ i, faults i = none)

include hf in
theorem flushIfDirty_of_run (hctx : s.context = some fs) {r : Except Fat32Error Unit}
    (hr : Stop.returned ((fs.writeFile (s.files.get k).name83 (s.files.get k).bytes).run s.card).1 = some r) :
    ∃ s', s.flushIfDirty faults k = some s' := by
  unfold flushIfDirty
  cases hd : (s.files.get k).forWrite && (s.files.get k).dirty with
  | false => exact ⟨s, by simp only [hd, Bool.false_eq_true, if_false]⟩
  | true =>
      rw [OpenFile.bytes] at hr
      simp only [hd, if_true, hctx, exec_working hf, hr]
      exact ⟨_, rfl⟩

theorem fileClose_of_flush {t : Files} (hk : s.thisToIndex k = some k) (h : s.flushIfDirty faults k = some t) :
    s.step faults (.fileClose k) = some (.just .success, t.setFile k { t.files.get k with inUse := false }) := by
  simp only [step, fileClose, hk, h]
  rfl

theorem fileFlush_of_flush {t : Files} (hk : s.thisToIndex k = some k) (h : s.flushIfDirty faults k = some t) :
    s.step faults (.fileFlush k) = some (.just .success, t) := by
  simp only [step, fileFlush, hk, h]
  rfl

section Dirty

variable (hctx : s.context = some fs) (hh : s.Handle k name b) (hd : (s.files.get k).dirty) {x : Except Stop Unit}
  {d : Disk} {r : Except Fat32Error Unit} (hrun : (fs.writeFile name b.bytes).run s.card = (x, d))
  (hr : Stop.returned x = some r)

include hf hctx hh hd hrun hr

theorem Handle.flushed : ∃ t, s.flushIfDirty faults k = some t ∧ t.card = d ∧ (t.files.get k).dirty = false ∧
    (s.flushWrite k).map (fun w => (w.run faults s.card).1) = some x := by
  have hquiet : (⟨fs, name, b.bytes, 0⟩ : Write).Quiet faults s.card := fun _ _ => hf _
  have hw := hquiet.run
  rw [hrun] at hw
  obtain ⟨t, ht⟩ := flushIfDirty_of_run (k := k) hf hctx (by rw [hh.name, hh.bytes, hrun]; exact hr)
  have heq := flushIfDirty_eq hh.index ht
  have hreq := hh.flushWrite hctx
  rw [hd, if_pos rfl] at hreq
  rw [hreq, cardAfter, hw.2] at heq
  refine ⟨t, ht, by rw [heq]; rfl, ?_, by rw [hreq, Option.map_some, hw.1]⟩
  rw [heq, setFile_get_self, Files.flushed, hh.forWrite, Bool.not_true, Bool.and_false]

theorem Handle.closes : ∃ s', s.step faults (.fileClose k) = some (.just .success, s') ∧ s'.card = d ∧
    Made.result ⟨s, faults, .fileClose k, .just .success, s'⟩ = some x := by
  obtain ⟨t, ht, hcard, _, hres⟩ := Handle.flushed hf hctx hh hd hrun hr
  exact ⟨_, fileClose_of_flush hh.index ht, hcard, hres⟩

theorem Handle.flushes : ∃ s', s.step faults (.fileFlush k) = some (.just .success, s') ∧ s'.card = d ∧
    (s'.files.get k).dirty = false ∧ Made.result ⟨s, faults, .fileFlush k, .just .success, s'⟩ = some x := by
  obtain ⟨t, ht, hcard, hclean, hres⟩ := Handle.flushed hf hctx hh hd hrun hr
  exact ⟨t, fileFlush_of_flush hh.index ht, hcard, hclean, hres⟩

end Dirty

variable (hs : Sound fs s) (ha : fs.Addressable) (hdir : fs.NotSubdir (fs.volume s.card) name)
  (hh : s.Handle k name b)

include hs ha hdir hh hf

theorem flushIfDirty_returns : ∃ s', s.flushIfDirty faults k = some s' := by
  have hv := hs.valid k
  have hlen := hv.len_le
  have hcall : fs.Callable (fs.volume s.card) (s.files.get k).name83 (s.files.get k).bytes :=
    ⟨hv.proper hh.forWrite, by rw [hh.name]; exact hdir, by rw [OpenFile.length_bytes hv]; omega⟩
  rcases (Fat32.run_overwrites hs.wellFormed ha hcall).result with h | h
  · exact flushIfDirty_of_run hf hs.context (Stop.returned_ok.mpr h)
  · exact flushIfDirty_of_run hf hs.context (Stop.returned_error.mpr h)

theorem fileClose_returns : ∃ s', s.step faults (.fileClose k) = some (.just .success, s') := by
  obtain ⟨t, ht⟩ := flushIfDirty_returns hf hs ha hdir hh
  exact ⟨_, fileClose_of_flush hh.index ht⟩

theorem Handle.returns (hk : c.this = some k.val) (hplain : c.plain) (hsize : c.Sized) : (s.step faults c).isSome := by
  cases c with
  | fileRead this size buffer => rfl
  | fileGetPosition this position => rfl
  | fileSetPosition this position => rfl
  | fileFlush this =>
      cases hk
      obtain ⟨t, ht⟩ := flushIfDirty_returns hf hs ha hdir hh
      rw [fileFlush_of_flush hh.index ht]
      rfl
  | fileWrite this size buffer =>
      cases hk
      simp only [step, Files.fileWrite, hh.index, hh.file, hh.forWrite]
      have hpos := (hs.valid k).pos_le
      cases size with
      | none => rfl
      | some n =>
          have hn : n.toNat < 2 ^ 63 := hsize
          have he : ((s.files.get k).pos + n.toNat) % 2 ^ 64 = (s.files.get k).pos + n.toNat :=
            Nat.mod_eq_of_lt (by omega)
          cases buffer with
          | none => rfl
          | some ptr =>
              simp only [he, Option.isSome_none, Bool.false_eq_true, if_false, Bool.not_true]
              split
              · rfl
              · rw [if_neg (by omega)]
                rfl
  | openVolume root => cases hplain
  | fileOpen this newHandle fileName mode => cases hplain
  | fileClose this => cases hplain
  | fileDelete this => cases hplain
  | fileGetInfo this guid size buffer => cases hplain
  | fileSetInfo this => cases hplain
  | writeFile name data => cases hplain

end Returns

/-! ## Whole runs on a working card -/

/-- The call is for other files than `name`. -/
structure Aside (fs : Fat32) (name : Name) (m : Made) : Prop where
  polite : Polite fs name m
  name {w : Write} : m.request = some w → w.name ≠ name

theorem Aside.saved (h : Aside fs name m) : m.saved name = none := by
  rw [Made.saved]
  cases hw : m.request with
  | none => rfl
  | some w => rw [Option.bind_some, if_neg fun he => h.name hw he.1]

theorem Refines.append {this : Nat} {b' : ByteFile} :
    Refines this b (log ++ log') b' ↔ ∃ b₁, Refines this b log b₁ ∧ Refines this b₁ log' b' := by
  induction log generalizing b with
  | nil => simp [Refines]
  | cons m log ih =>
      simp only [List.cons_append, Refines]
      split
      · simp only [ih]
        constructor
        · rintro ⟨b₂, hb, b₁, h, h'⟩; exact ⟨b₁, ⟨b₂, hb, h⟩, h'⟩
        · rintro ⟨b₁, ⟨b₂, hb, h⟩, h'⟩; exact ⟨b₂, hb, b₁, h, h'⟩
      · exact ih

theorem resultsOn_append (this : Nat) : resultsOn this (log ++ log') = resultsOn this log ++ resultsOn this log' :=
  List.filterMap_append

/-- The last `write_file` made on the handle, if any, has succeeded. -/
def LastOk (this : Nat) (log : List Made) : Prop := ∀ r, (resultsOn this log).getLast? = some r → r = .ok ()

theorem lastOk_snoc_none {this : Nat} (h : m.call.this = some this → m.result = none) :
    LastOk this (log ++ [m]) ↔ LastOk this log := by
  have hres : resultsOn this [m] = [] := by
    simp only [resultsOn, List.filterMap_cons, List.filterMap_nil]
    split
    · rfl
    · rename_i r hr
      split at hr
      · rw [h ‹_›] at hr; cases hr
      · cases hr
  rw [LastOk, LastOk, resultsOn_append, hres, List.append_nil]

theorem lastOk_snoc {this : Nat} {r : Except Stop Unit} (hk : m.call.this = some this) (hr : m.result = some r) :
    LastOk this (log ++ [m]) ↔ r = .ok () := by
  have hres : resultsOn this [m] = [r] := by
    simp only [resultsOn, List.filterMap_cons, List.filterMap_nil, hk, if_true, hr]
  rw [LastOk, resultsOn_append, hres]
  simp

/-- A flush or close after which the last write-back has succeeded. -/
theorem WritesBack.contents (hcall : WritesBack k m) (hs : Sound fs m.before) (hh : m.before.Handle k name b)
    (ha : fs.Addressable) (hdir : fs.NotSubdir (fs.volume m.before.card) name)
    (hm : m.before.step m.faults m.call = some (m.reply, m.after)) (hc : fs.Contents m.before.card name c)
    (hsync : (m.before.files.get k).dirty = false → LastOk k log → c = b.bytes) (hlast : LastOk k (log ++ [m])) :
    fs.Contents m.after.card name b.bytes := by
  refine (hcall.sync hh hs ha hdir hm (fun hd => ?_) fun r hr => (lastOk_snoc hcall.this hr).mp hlast).1
  -- nothing is written, so the last write-back was before
  have hreq := hcall.request hs.context hh
  rw [hd, if_neg Bool.false_ne_true] at hreq
  have hlast' := (lastOk_snoc_none fun _ => by rw [Made.result, hreq]; rfl).mp hlast
  rw [← hsync hd hlast']
  exact hc

/-- A clean handle is in sync with its file as long as the last write-back has succeeded. -/
theorem Run.synced (ha : fs.Addressable) (h : Run s log s') (hs : Sound fs s)
    (hdir : fs.NotSubdir (fs.volume s.card) name) (hh : s.Handle k name b)
    (hc : (s.files.get k).dirty = false → fs.Contents s.card name b.bytes) (hwork : ∀ m ∈ log, m.Working)
    (huse : ∀ m ∈ log, (m.call.this = some k.val ∧ m.call.plain) ∨ (m.call.this ≠ some k.val ∧ Aside fs name m))
    {c₀ : List UInt8} (hc₀ : fs.Contents s.card name c₀) :
    ∃ b' c', Refines k b log b' ∧ s'.Handle k name b' ∧ Sound fs s' ∧ fs.NotSubdir (fs.volume s'.card) name ∧
      fs.Contents s'.card name c' ∧ ((s'.files.get k).dirty = false → LastOk k log → c' = b'.bytes) := by
  induction log using List.reverseRecOn generalizing s' with
  | nil =>
      cases h
      exact ⟨b, c₀, rfl, hh, hs, hdir, hc₀, fun hd _ => hc₀.unique (hc hd)⟩
  | append_singleton log m ih =>
      obtain ⟨t, hlog, rfl, hm, rfl⟩ := Run.append.mp h
      obtain ⟨b₁, c₁, href, hh₁, hs₁, hdir₁, hc₁, hsync⟩ := ih hlog
        (fun x hx => hwork x (List.mem_append_left _ hx)) fun x hx => huse x (List.mem_append_left _ hx)
      have hmem : m ∈ log ++ [m] := List.mem_append_right _ List.mem_cons_self
      have hwm := hwork m hmem
      rcases huse m hmem with ⟨hk, hplain⟩ | ⟨hk, haside⟩
      · obtain ⟨b', ha'⟩ := hh₁.call (hs₁.valid k) hm hk hplain
        have href' : Refines k b (log ++ [m]) b' := by
          refine Refines.append.mpr ⟨b₁, href, ?_⟩
          rw [Refines, if_pos hk]
          exact ⟨b', ha'.reply, rfl⟩
        have hp := polite_plain hs₁.context hh₁ hk hplain
        obtain ⟨hs', hdir', hcont⟩ := hp.step hs₁ ha hdir₁ hm hwm
        refine ⟨b', _, href', ha'.handle, hs', hdir', hcont c₁ hc₁, fun hd hlast => ?_⟩
        obtain ⟨hbytes, hclean⟩ := ha'.clean hd
        have hreq : m.call = .fileFlush k → m.request = _ := fun hf => WritesBack.request hs₁.context hh₁ (Or.inl hf)
        rw [hbytes]
        cases hw : m.request with
        | none =>
            rw [Made.saved, hw]
            have hclean₁ : (m.before.files.get k).dirty = false := by
              refine hclean.elim id fun hf => ?_
              have hr := hreq hf
              rw [hw] at hr
              split at hr
              · cases hr
              · rename_i hnd; exact Bool.eq_false_iff.mpr hnd
            exact hsync hclean₁ ((lastOk_snoc_none fun _ => by rw [Made.result, hw]; rfl).mp hlast)
        | some w =>
            have hr := hreq (plain_request hk hplain hw)
            rw [hw] at hr
            split at hr
            · cases hr
              have hok := (lastOk_snoc hk (by rw [Made.result, hw]; rfl)).mp hlast
              dsimp only at hok
              rw [Made.saved, hw, Option.bind_some, hok, if_pos ⟨rfl, rfl⟩]
              rfl
            · cases hr
      · have hnone : m.call.this = some k.val → m.result = none := fun h => absurd h hk
        obtain ⟨hs', hdir', hcont⟩ := haside.polite.step hs₁ ha hdir₁ hm hwm
        have hc' := hcont c₁ hc₁
        rw [haside.saved] at hc'
        refine ⟨b₁, c₁, Refines.append.mpr ⟨b₁, href, ?_⟩, hh₁.other hm hk, hs', hdir', hc', fun hd hlast => ?_⟩
        · rw [Refines, if_neg hk]; rfl
        · rw [step_slot hm hh₁.inUse hk] at hd
          exact hsync hd ((lastOk_snoc_none hnone).mp hlast)

theorem Run.contents (ha : fs.Addressable) (h : Run s log s') (hs : Sound fs s)
    (hdir : fs.NotSubdir (fs.volume s.card) name) (hwork : ∀ m ∈ log, m.Working) (hp : ∀ m ∈ log, Polite fs name m)
    (hc : fs.Contents s.card name c) : Sound fs s' ∧ fs.NotSubdir (fs.volume s'.card) name ∧
      fs.Contents s'.card name (lastSaved name log c) := by
  induction log generalizing s c with
  | nil => cases h; exact ⟨hs, hdir, hc⟩
  | cons m log ih =>
      obtain ⟨rfl, hm, hlog⟩ := h
      obtain ⟨hs', hdir', hc'⟩ := (hp m List.mem_cons_self).step hs ha hdir hm (hwork m List.mem_cons_self)
      exact ih hlog hs' hdir' (fun x hx => hwork x (List.mem_cons_of_mem m hx))
        (fun x hx => hp x (List.mem_cons_of_mem m hx)) (hc' c hc)

end Files

end Ferro
