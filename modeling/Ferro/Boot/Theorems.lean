import Ferro.Boot.Lemmas.Runs
import Ferro.Memory.Theorems

/-!
# The allocator and the handshake over whole runs
-/

namespace Ferro

/-- The bytes that a call of `AllocatePages` or `AllocatePool` asks for. -/
def Call.requested : Call → Option Nat
  | .allocatePages pages _ => some (pages.toNat * 4096)
  | .allocatePool size _ => some size.toNat
  | _ => none

/-- The base returned with success. -/
def Reply.base : Reply → Option UInt64
  | .word .success out => out
  | _ => none

namespace Boot

variable {image : Image} {s₀ s s' : Boot} {c : Call} {r : Reply} {fbBase fbSize k count : UInt64} {mem : Mem}
  {log pre mid post : List Made} {x e g : Made} {bytes : Nat} {a : Allocator}

/-! ## What the allocator grants -/

/-- The base and the size of what an `AllocatePages` or `AllocatePool` that returned success granted. -/
def Made.extent (x : Made) : Option (Nat × Nat) :=
  x.call.requested.bind fun bytes => x.reply.base.map fun base => (base.toNat, bytes)

def extents (log : List Made) : List (Nat × Nat) := log.filterMap Made.extent

/-- Two extents have no address in common. -/
def Apart (e e' : Nat × Nat) : Prop := Disjoint (Set.Ico e.1 (e.1 + e.2)) (Set.Ico e'.1 (e'.1 + e'.2))

/-- Everything granted starts at a page boundary, lies between the firmware and the end of RAM, and is granted once. -/
structure Sound (image : Image) (es : List (Nat × Nat)) : Prop where
  aligned : ∀ e ∈ es, 4096 ∣ e.1
  inside : ∀ e ∈ es, Memory.firstPage image ≤ e.1 ∧ e.1 + e.2 ≤ 0x3F000000
  disjoint : es.Pairwise Apart

/-- `count` pages above the bump pointer do not wrap around, or wrap around to an address above RAM. -/
def NoWrapPages (bump : UInt64) (count : Nat) : Prop :=
  bump.toNat + count * 4096 < 2 ^ 64 ∨ 0x3F000000 < (bump.toNat + count * 4096) % 2 ^ 64

/-- The request does not wrap around to something that is granted. A pool size that wraps when it is rounded up is
taken for one page. -/
def NoWrap (bump : UInt64) : Call → Prop
  | .allocatePages pages true => NoWrapPages bump pages.toNat
  | .allocatePool size true =>
    if size.toNat + 4095 < 2 ^ 64 then
      NoWrapPages bump (max ((size.toNat + 4095) / 4096) 1)
    else
      0x3F000000 < (bump.toNat + 4096) % 2 ^ 64
  | _ => True

theorem toNat_poolPages (size : UInt64) :
    (poolPages size).toNat = max ((size.toNat + 4095) % 2 ^ 64 / 4096) 1 := by
  have hlt := size.toNat_lt
  have hsum : (size + pageSize - 1).toNat = (size.toNat + 4095) % 2 ^ 64 := by
    simp only [pageSize, UInt64.toNat_sub, UInt64.toNat_add, UInt64.reduceToNat]
    omega
  rw [poolPages, UInt64.toNat_max, UInt64.toNat_div, hsum]
  rfl

/-- The two ways to ask. -/
theorem requested_cases (hq : c.requested = some bytes) (hs : ¬ s.exited) :
    (∃ pages memory, c = .allocatePages pages memory ∧ bytes = pages.toNat * 4096 ∧
        s.asked c = if memory then some pages else none) ∨
      ∃ size buffer, c = .allocatePool size buffer ∧ bytes = size.toNat ∧
        s.asked c = if buffer then some (poolPages size) else none := by
  cases c with
  | allocatePages pages memory =>
      cases hq
      refine Or.inl ⟨pages, memory, rfl, rfl, ?_⟩
      cases memory <;> simp_all [asked]
  | allocatePool size buffer =>
      cases hq
      refine Or.inr ⟨size, buffer, rfl, rfl, ?_⟩
      cases buffer <;> simp_all [asked]
  | _ => cases hq

/-- A granted request that does not wrap around has its pages. -/
theorem noWrap_granted (hq : c.requested = some bytes) (hs : ¬ s.exited) (ha : s.asked c = some count)
    (hn : NoWrap s.alloc.nextFreePage c) (hle : Memory.bumped s.alloc count ≤ 0x3F000000) :
    s.alloc.nextFreePage.toNat + count.toNat * 4096 < 2 ^ 64 ∧ bytes ≤ count.toNat * 4096 := by
  unfold Memory.bumped at hle
  rcases requested_cases hq hs with ⟨pages, memory, rfl, rfl, h⟩ | ⟨size, buffer, rfl, rfl, h⟩
  · cases memory with
    | false => rw [h] at ha; cases ha
    | true =>
        rw [h] at ha
        cases ha
        rcases hn with hn | hn
        · exact ⟨hn, le_rfl⟩
        · omega
  · cases buffer with
    | false => rw [h] at ha; cases ha
    | true =>
        rw [h] at ha
        cases ha
        rw [toNat_poolPages] at hle ⊢
        by_cases hlt : size.toNat + 4095 < 2 ^ 64
        · rw [NoWrap, if_pos hlt, NoWrapPages] at hn
          rw [Nat.mod_eq_of_lt hlt] at hle ⊢
          omega
        · have := size.toNat_lt
          rw [NoWrap, if_neg hlt] at hn
          omega

/-- A request does not wrap around if it has room wherever it is granted. -/
theorem noWrap_of (hq : c.requested = some bytes) (hs : ¬ s.exited)
    (h : ∀ count, s.asked c = some count → Memory.bumped s.alloc count ≤ 0x3F000000 →
      s.alloc.nextFreePage.toNat + bytes ≤ 0x3F000000) : NoWrap s.alloc.nextFreePage c := by
  unfold Memory.bumped at h
  rcases requested_cases hq hs with ⟨pages, memory, rfl, rfl, ha⟩ | ⟨size, buffer, rfl, rfl, ha⟩
  · cases memory with
    | false => trivial
    | true =>
        have hroom := h pages ha
        simp only [NoWrap, NoWrapPages]
        omega
  · cases buffer with
    | false => trivial
    | true =>
        have hroom := h _ ha
        rw [toNat_poolPages] at hroom
        rw [NoWrap]
        cases Nat.lt_or_ge (size.toNat + 4095) (2 ^ 64) with
        | inl hlt =>
            rw [if_pos hlt, NoWrapPages]
            rw [Nat.mod_eq_of_lt hlt] at hroom
            omega
        | inr hge =>
            have := size.toNat_lt
            rw [if_neg (Nat.not_lt.mpr hge)]
            omega

/-- What a request grants. -/
theorem step_request (h : s.step image c = some (r, s')) (hq : c.requested = some bytes) (hs : ¬ s.exited) :
    (r.base = none ∧ s' = s ∧ ∀ count, s.asked c = some count → 0x3F000000 < Memory.bumped s.alloc count) ∨
      ∃ count alloc, s.asked c = some count ∧
        Memory.allocatePages s.alloc count = some (s.alloc.nextFreePage, alloc) ∧
        r.base = some s.alloc.nextFreePage ∧ s' = { s with alloc } := by
  -- `AllocatePool` is `AllocatePages` of its pages
  have hpages : ∀ pages memory, some (s.allocatePages pages memory) = some (r, s') →
      s.asked c = (if memory then some pages else none) →
      (r.base = none ∧ s' = s ∧ ∀ count, s.asked c = some count → 0x3F000000 < Memory.bumped s.alloc count) ∨
      ∃ count alloc, s.asked c = some count ∧
        Memory.allocatePages s.alloc count = some (s.alloc.nextFreePage, alloc) ∧
        r.base = some s.alloc.nextFreePage ∧ s' = { s with alloc } := by
    intro pages memory h ha
    rw [allocatePages, if_neg hs] at h
    cases memory with
    | false => cases h; exact Or.inl ⟨rfl, rfl, fun count hc => by rw [ha] at hc; cases hc⟩
    | true =>
        rcases Memory.allocatePages_cases s.alloc pages with ⟨hlt, hnone⟩ | ⟨_, alloc, hsome, _⟩
        · simp only [hnone, Bool.not_true, Bool.false_eq_true, if_false] at h
          cases h
          refine Or.inl ⟨rfl, rfl, fun count hc => ?_⟩
          rw [ha] at hc
          cases hc
          exact hlt
        · simp only [hsome, Bool.not_true, Bool.false_eq_true, if_false] at h
          cases h
          exact Or.inr ⟨pages, alloc, ha, hsome, rfl, rfl⟩
  rcases requested_cases hq hs with ⟨pages, memory, rfl, rfl, ha⟩ | ⟨size, buffer, rfl, rfl, ha⟩
  · exact hpages pages memory h ha
  · exact hpages (poolPages size) buffer h ha

/-- A run of requests that do not wrap around: what it grants lies one behind the other from the bump pointer on. -/
theorem Run.sound (h : Run image s log s') (hq : ∀ x ∈ log, x.call.requested.isSome) (hs : ¬ s.exited)
    (hb : 4096 ∣ s.alloc.nextFreePage.toNat) (hn : ∀ x ∈ log, NoWrap x.before.alloc.nextFreePage x.call) :
    (∀ e ∈ extents log, 4096 ∣ e.1 ∧ s.alloc.nextFreePage.toNat ≤ e.1 ∧ e.1 + e.2 ≤ 0x3F000000) ∧
      (extents log).Pairwise Apart := by
  induction log generalizing s with
  | nil => simp [extents]
  | cons x log ih =>
      obtain ⟨rfl, hx, hlog⟩ := h
      obtain ⟨bytes, hbytes⟩ := Option.isSome_iff_exists.mp (hq x List.mem_cons_self)
      have hq' : ∀ y ∈ log, y.call.requested.isSome := fun y hy => hq y (List.mem_cons_of_mem x hy)
      have hn' : ∀ y ∈ log, NoWrap y.before.alloc.nextFreePage y.call := fun y hy => hn y (List.mem_cons_of_mem x hy)
      rcases step_request hx hbytes hs with ⟨hbase, heq, _⟩ | ⟨count, alloc, hask, halloc, hbase, heq⟩
      · have hext : extents (x :: log) = extents log := by
          simp [extents, Made.extent, hbytes, hbase]
        rw [heq] at hlog
        rw [hext]
        exact ih hlog hq' hs hb hn'
      · have hext : extents (x :: log) = (x.before.alloc.nextFreePage.toNat, bytes) :: extents log := by
          simp [extents, Made.extent, hbytes, hbase]
        obtain ⟨_, hle, hnext, _⟩ := Memory.allocatePages_eq_some halloc
        obtain ⟨hlt, hsize⟩ := noWrap_granted hbytes hs hask (hn x List.mem_cons_self) hle
        rw [Memory.bumped_eq hlt] at hle hnext
        have hafter : x.after.alloc.nextFreePage.toNat = x.before.alloc.nextFreePage.toNat + count.toNat * 4096 := by
          rw [heq]; exact hnext
        obtain ⟨hin, hdis⟩ := ih hlog hq' (by rw [heq]; exact hs) (by rw [hafter]; omega) hn'
        rw [hext]
        refine ⟨fun e he => ?_, .cons (fun e he => ?_) hdis⟩
        · rcases List.mem_cons.mp he with rfl | he
          · exact ⟨hb, le_rfl, by dsimp only; omega⟩
          · obtain ⟨h₁, h₂, h₃⟩ := hin e he
            exact ⟨h₁, by omega, h₃⟩
        · obtain ⟨_, hge, _⟩ := hin e he
          refine Set.Ico_disjoint_Ico.mpr ?_
          dsimp only
          omega

theorem Run.not_exited_of_requests (h : Run image s log s') (hq : ∀ x ∈ log, x.call.requested.isSome)
    (hs : ¬ s.exited) (hx : x ∈ log) : ¬ x.before.exited := by
  induction log generalizing s with
  | nil => cases hx
  | cons y log ih =>
      obtain ⟨rfl, hy, hlog⟩ := h
      cases hx with
      | head => exact hs
      | tail _ hx =>
          refine ih hlog (fun z hz => hq z (List.mem_cons_of_mem y hz)) ?_ hx
          have hne : ∀ k, y.call ≠ .exitBootServices k := by
            intro k hk
            have hsome := hq y List.mem_cons_self
            rw [hk] at hsome
            cases hsome
          rw [step_exited hy hne]
          exact hs

/-- Every sequence of `AllocatePages` and `AllocatePool` calls is served soundly exactly when none of them wraps around
to something that is granted. -/
theorem allocations_sound_iff (h : Run image (init image fbBase fbSize mem) log s)
    (hq : ∀ x ∈ log, x.call.requested.isSome) :
    Sound image (extents log) ↔ ∀ x ∈ log, NoWrap x.before.alloc.nextFreePage x.call := by
  have hs : ¬ (init image fbBase fbSize mem).exited := Bool.false_ne_true
  constructor
  · intro hsound x hx
    obtain ⟨bytes, hbytes⟩ := Option.isSome_iff_exists.mp (hq x hx)
    have hbefore := h.not_exited_of_requests hq hs hx
    refine noWrap_of hbytes hbefore fun count hask hle => ?_
    rcases step_request (h.step hx) hbytes hbefore with ⟨_, _, hno⟩ | ⟨_, alloc, _, _, hbase, _⟩
    · exact absurd (hno count hask) (Nat.not_lt.mpr hle)
    · refine (hsound.inside (x.before.alloc.nextFreePage.toNat, bytes) ?_).2
      exact List.mem_filterMap.mpr ⟨x, hx, by simp [Made.extent, hbytes, hbase]⟩
  · intro hn
    obtain ⟨hin, hdis⟩ := h.sound hq hs (Memory.dvd_firstPage image) hn
    exact ⟨fun e he => (hin e he).1, fun e he => (hin e he).2, hdis⟩

/-- The firmware with an image of one page and no framebuffer. -/
def bare : Boot := init Memory.onePage 0x3F000000 0 fun _ => 0

/-- The firmware after allocations up to `bump`. -/
def bareAt (bump generation : UInt64) : Boot := { bare with alloc := ⟨bump, generation⟩ }

theorem allocations_sound_bare :
    Run Memory.onePage bare
      [⟨bare, .allocatePages 2 true, .word .success (some 0x81000), bareAt 0x83000 1⟩,
        ⟨bareAt 0x83000 1, .allocatePool 5000 true, .word .success (some 0x83000), bareAt 0x85000 2⟩]
      (bareAt 0x85000 2) ∧ Sound Memory.onePage [(0x81000, 8192), (0x83000, 5000)] := by
  have hrun : Run Memory.onePage bare
      [⟨bare, .allocatePages 2 true, .word .success (some 0x81000), bareAt 0x83000 1⟩,
        ⟨bareAt 0x83000 1, .allocatePool 5000 true, .word .success (some 0x83000), bareAt 0x85000 2⟩]
      (bareAt 0x85000 2) := ⟨rfl, rfl, rfl, rfl, rfl⟩
  refine ⟨hrun, (allocations_sound_iff hrun ?_).mpr ?_⟩
  · simp [Call.requested]
  · intro x hx
    simp only [List.mem_cons, List.not_mem_nil, or_false] at hx
    rcases hx with rfl | rfl
    · exact Or.inl (by decide)
    · rw [NoWrap, if_pos (by decide)]
      exact Or.inl (by decide)

/-- `2 ^ 52` pages are granted, all of the address space. -/
theorem allocations_unsound_bare :
    Run Memory.onePage bare
      [⟨bare, .allocatePages 0x10000000000000 true, .word .success (some 0x81000), bareAt 0x81000 1⟩]
      (bareAt 0x81000 1) ∧
    extents [⟨bare, .allocatePages 0x10000000000000 true, .word .success (some 0x81000), bareAt 0x81000 1⟩] =
      [(0x81000, 2 ^ 64)] ∧ ¬ Sound Memory.onePage [(0x81000, 2 ^ 64)] := by
  refine ⟨⟨rfl, rfl, rfl⟩, rfl, fun h => ?_⟩
  have hin := (h.inside _ List.mem_cons_self).2
  exact absurd hin (by decide)

/-! ## The handshake -/

/-- What a successful `GetMemoryMap` returns. -/
theorem getMemoryMap_success {size : Option UInt64} {mm mk ds dv : OutPtr} {out : MapOut}
    (h : s.step image (.getMemoryMap size mm mk ds dv) = some (.memoryMap .success out, s')) :
    s' = s ∧ (∀ m, out.memoryMap = some m → s.currentMap image = some m) ∧
      ∀ k, out.mapKey = some k → s.alloc.generation = k := by
  simp only [step, getMemoryMap] at h
  cases size with
  | none => cases h
  | some size =>
      cases hm : s.currentMap image with
      | none => rw [hm] at h; cases h
      | some scratch =>
          simp only [hm] at h
          split at h
          · cases h
          · cases h
            refine ⟨rfl, fun m hmap => ?_, fun k hk => ?_⟩
            · dsimp only at hmap
              split at hmap
              · exact hmap
              · cases hmap
            · dsimp only at hk
              split at hk
              · exact Option.some.inj hk
              · cases hk

/-- The exit that a refused handshake leaves out changes nothing. -/
theorem Refused.unchanged (h : Run image s log s') (hr : Refused log) (hx : x ∈ log)
    (hk : x.call = .exitBootServices k) : x.reply = .just .invalidParameter ∧ x.after = x.before := by
  have hstep := h.step hx
  have hno := hr x hx k hk
  rw [hk] at hstep
  rcases exitBootServices_cases hstep with ⟨hrep, _⟩ | ⟨hrep, _, _, heq⟩ | ⟨hrep, _⟩
  · exact absurd (by rw [hrep]; rfl) hno
  · exact ⟨hrep, heq⟩
  · exact absurd (by rw [hrep]; rfl) hno

/-- If `GetMemoryMap` returned the map `m` with key `k` and `ExitBootServices(k)` is the first exit that returns
success, then the memory map is still `m`, and the earlier exits were refused and changed nothing. -/
theorem exit_handshake {size : Option UInt64} {mm mk ds dv : OutPtr} {out : MapOut} {m : List EfiMemoryDescriptor}
    (h : Run image s₀ (pre ++ g :: mid ++ [e]) s) (hs : ¬ s₀.exited)
    (hfew : allocations (pre ++ g :: mid ++ [e]) < 2 ^ 64)
    (hg : g.call = .getMemoryMap size mm mk ds dv) (hgr : g.reply = .memoryMap .success out)
    (hm : out.memoryMap = some m) (hk : out.mapKey = some k)
    (he : e.call = .exitBootServices k) (her : e.reply.status = some .success) (hfirst : Refused (pre ++ g :: mid)) :
    e.before.currentMap image = some m ∧ e.after.currentMap image = some m ∧
      ∀ x ∈ pre ++ g :: mid, ∀ k', x.call = .exitBootServices k' →
        x.reply = .just .invalidParameter ∧ x.after = x.before := by
  obtain ⟨t, hrun, hlast⟩ := Run.append.mp h
  obtain ⟨rfl, hestep, _⟩ := hlast
  obtain ⟨u, hpre, hgmid⟩ := Run.append.mp hrun
  obtain ⟨rfl, hgstep, hmid⟩ := id hgmid
  rw [hg, hgr] at hgstep
  obtain ⟨_, hmap, hkey⟩ := getMemoryMap_success hgstep
  -- the flag is not set yet, so the key was compared
  have hnot := hrun.not_exited hs hfirst
  have hgen : e.before.alloc.generation = k := by
    rw [he] at hestep
    rcases exitBootServices_cases hestep with ⟨_, hex, _⟩ | ⟨hrep, _⟩ | ⟨_, _, hkg, _⟩
    · exact absurd hex hnot
    · rw [hrep] at her; cases her
    · exact hkg.symm
  -- fewer than `2 ^ 64` allocations leave the generation only if there is none
  have hzero : allocations (g :: mid) = 0 := by
    have hcount := hgmid.generation
    have hle : allocations (g :: mid) ≤ allocations (pre ++ g :: mid ++ [e]) := by
      simp only [allocations, List.countP_append]
      omega
    have hlt := k.toNat_lt
    rw [hgen, hkey k hk] at hcount
    omega
  have hsame := currentMap_congr image (hgmid.alloc hzero) hgmid.framebuffer
  have hbefore : e.before.currentMap image = some m := hsame.trans (hmap m hm)
  refine ⟨hbefore, ?_, fun x hx k' hk' => hfirst.unchanged hrun hx hk'⟩
  rw [he] at hestep
  obtain ⟨ha, hf⟩ := exitBootServices_core hestep
  rw [currentMap_congr image ha hf]
  exact hbefore

/-- The map after one page was allocated. -/
def bareMap : List EfiMemoryDescriptor :=
  [⟨.conventionalMemory, 0, 0, 0x80, 0⟩, ⟨.bootServicesCode, 0x80000, 0x80000, 1, 0⟩,
    ⟨.bootServicesData, 0x81000, 0x81000, 1, 0⟩, ⟨.conventionalMemory, 0x82000, 0x82000, 0x3EF7E, 0⟩,
    ⟨.memoryMappedIo, 0x3F000000, 0x3F000000, 0x1000, 0⟩, ⟨.memoryMappedIo, 0x40000000, 0x40000000, 0x40000, 0⟩]

/-- A page is allocated, an exit with an old key is refused, the map is read, and the exit with its key succeeds. -/
theorem exit_handshake_bare :
    Run Memory.onePage bare
      [⟨bare, .allocatePages 1 true, .word .success (some 0x81000), bareAt 0x82000 1⟩,
        ⟨bareAt 0x82000 1, .exitBootServices 0, .just .invalidParameter, bareAt 0x82000 1⟩,
        ⟨bareAt 0x82000 1, .getMemoryMap (some 320) true true false false,
          .memoryMap .success ⟨some 240, some bareMap, some 1, none, none⟩, bareAt 0x82000 1⟩,
        ⟨bareAt 0x82000 1, .exitBootServices 1, .just .success, { bareAt 0x82000 1 with exited := true }⟩]
      { bareAt 0x82000 1 with exited := true } ∧
    (bareAt 0x82000 1).currentMap Memory.onePage = some bareMap := by
  have hrun : Run Memory.onePage bare
      ([⟨bare, .allocatePages 1 true, .word .success (some 0x81000), bareAt 0x82000 1⟩,
        ⟨bareAt 0x82000 1, .exitBootServices 0, .just .invalidParameter, bareAt 0x82000 1⟩] ++
        ⟨bareAt 0x82000 1, .getMemoryMap (some 320) true true false false,
          .memoryMap .success ⟨some 240, some bareMap, some 1, none, none⟩, bareAt 0x82000 1⟩ :: [] ++
        [⟨bareAt 0x82000 1, .exitBootServices 1, .just .success, { bareAt 0x82000 1 with exited := true }⟩])
      { bareAt 0x82000 1 with exited := true } := ⟨rfl, rfl, rfl, rfl, rfl, rfl, rfl, rfl, rfl⟩
  refine ⟨hrun, (exit_handshake hrun Bool.false_ne_true ?_ rfl rfl rfl rfl rfl rfl ?_).1⟩
  · exact (List.countP_le_length).trans_lt (by decide)
  · intro x hx k hk
    simp only [List.cons_append, List.nil_append, List.mem_cons, List.not_mem_nil, or_false] at hx
    rcases hx with rfl | rfl | rfl
    · cases hk
    · simp [Reply.status]
    · cases hk

/-! ## After the exit -/

/-- The handles that `LocateHandleBuffer` counts. -/
def handlesFound (s : Boot) (searchType : UInt32) (protocol : Option EfiGuid) : Nat :=
  match s.searchHandles searchType protocol with
  | .ok (count, _) => count
  | .error _ => 0

/-- The protocols that `ProtocolsPerHandle` counts. -/
def protocolsFound (s : Boot) (handle : UInt64) : Nat :=
  match ProtocolDb.protocolsOnHandle s.handles handle with
  | some (some guids) => guids.length
  | _ => 0

/-- Not even one page is left. -/
def NoPage (s : Boot) : Prop := 0x3F000000 < (s.alloc.nextFreePage.toNat + 4096) % 2 ^ 64

/-- The call is not a `LocateHandleBuffer` or `ProtocolsPerHandle` with something to return and a page for it. -/
def Quiet (s : Boot) : Call → Prop
  | .locateHandleBuffer searchType protocol numHandles buffer =>
    numHandles = false ∨ buffer = false ∨ s.handlesFound searchType protocol = 0 ∨ s.NoPage
  | .protocolsPerHandle handle protocolBuffer protocolBufferCount =>
    protocolBuffer = false ∨ protocolBufferCount = false ∨ s.protocolsFound handle = 0 ∨ s.NoPage
  | _ => True

theorem bufferPages_eq_one {bytes : Nat} (h : 1 ≤ bytes) (hle : bytes ≤ 4096) : bufferPages bytes = 1 := by
  have hof : (UInt64.ofNat bytes).toNat = bytes := by
    rw [UInt64.toNat_ofNat', Nat.mod_eq_of_lt (by omega)]
  have hsum : (UInt64.ofNat bytes + pageSize - 1).toNat = bytes + 4095 := by
    simp only [pageSize, UInt64.toNat_sub, UInt64.toNat_add, UInt64.reduceToNat, hof]
    omega
  apply UInt64.toNat_inj.mp
  rw [bufferPages, UInt64.toNat_max, UInt64.toNat_div, hsum]
  simp only [pageSize, UInt64.reduceToNat]
  omega

theorem granted_one : granted s.alloc (some 1) = s.alloc ↔ s.NoPage := by
  have hb : Memory.bumped s.alloc 1 = (s.alloc.nextFreePage.toNat + 4096) % 2 ^ 64 := rfl
  rw [NoPage, ← hb]
  rcases Memory.allocatePages_cases s.alloc 1 with ⟨hlt, hn⟩ | ⟨hle, a', hs, _, hgen⟩
  · simp only [granted, hn, Option.map_none, Option.getD_none, hlt]
  · simp only [granted, hs, Option.map_some, Option.getD_some]
    constructor
    · intro heq
      rw [heq] at hgen
      exact absurd hgen.symm (generation_ne _)
    · intro hlt; omega

theorem length_handlesWith_le (hs : Handles) (guid : EfiGuid) :
    (ProtocolDb.handlesWith hs guid).length ≤ maxHandles := by
  rw [ProtocolDb.handlesWith, List.length_map]
  exact (List.length_filter_le _ _).trans (List.length_finRange).le

theorem handlesFound_le (searchType : UInt32) (protocol : Option EfiGuid) :
    s.handlesFound searchType protocol ≤ 64 := by
  unfold handlesFound searchHandles
  have hle := length_handlesWith_le s.handles
  have h₁ := hle loadedImageProtocolGuid
  have h₂ := hle simpleTextOutputProtocolGuid
  simp only [maxHandles] at hle h₁ h₂
  split
  · rename_i h
    split at h
    · cases h; omega
    · split at h
      · cases h
      · cases h; exact (hle _).trans (by decide)
  · exact Nat.zero_le _

theorem protocolsFound_le (handle : UInt64) : s.protocolsFound handle ≤ 8 := by
  unfold protocolsFound
  split
  · rename_i guids h
    simp only [ProtocolDb.protocolsOnHandle] at h
    split at h
    · cases h
    · obtain ⟨i, _, h⟩ := Option.map_eq_some_iff.mp h
      obtain ⟨j, _, rfl⟩ := Option.map_eq_some_iff.mp h
      exact (List.length_filterMap_le _ _).trans (Arr.length_toList _).le
  · exact Nat.zero_le _

/-- After the exit a call leaves the allocator exactly when it is quiet. -/
theorem granted_eq_iff (hs : s.exited) : granted s.alloc (s.asked c) = s.alloc ↔ Quiet s c := by
  cases c with
  | allocatePages pages memory => simp [asked, hs, granted, Quiet]
  | allocatePool size buffer => simp [asked, hs, granted, Quiet]
  | loadImage parent src size handle => simp [asked, hs, granted, Quiet]
  | locateHandleBuffer searchType protocol numHandles buffer =>
      have hle := s.handlesFound_le searchType protocol
      cases numHandles with
      | false => simp [asked, granted, Quiet]
      | true =>
          cases buffer with
          | false => simp [asked, granted, Quiet]
          | true =>
              simp only [asked, Quiet, handlesFound] at hle ⊢
              cases hf : s.searchHandles searchType protocol with
              | error st => simp [granted]
              | ok p =>
                  simp only [hf] at hle
                  by_cases hz : p.1 = 0
                  · simp [hz, granted]
                  · have hone : bufferPages (p.1 * 8) = 1 := bufferPages_eq_one (by omega) (by omega)
                    simp [hz, hone, granted_one]
  | protocolsPerHandle handle protocolBuffer protocolBufferCount =>
      have hle := s.protocolsFound_le handle
      cases protocolBuffer with
      | false => simp [asked, granted, Quiet]
      | true =>
          cases protocolBufferCount with
          | false => simp [asked, granted, Quiet]
          | true =>
              simp only [asked, Quiet, protocolsFound] at hle ⊢
              cases hf : ProtocolDb.protocolsOnHandle s.handles handle with
              | none => simp [granted]
              | some p =>
                  cases p with
                  | none => simp [granted]
                  | some guids =>
                      simp only [hf] at hle
                      by_cases hz : guids.length = 0
                      · simp [hz, granted]
                      · have hone : bufferPages (guids.length * 8 + guids.length * 16) = 1 :=
                          bufferPages_eq_one (by omega) (by omega)
                        simp [hz, hone, granted_one]
  | _ => simp [asked, granted, Quiet]

theorem step_frozen_iff (h : s.step image c = some (r, s')) (hs : s.exited) :
    (s'.alloc = s.alloc ∧ s'.currentMap image = s.currentMap image) ↔ Quiet s c := by
  have halloc : s'.alloc = granted s.alloc (s.asked c) := by
    by_cases hc : ∃ k, c = .exitBootServices k
    · obtain ⟨k, rfl⟩ := hc
      exact (exitBootServices_core h).1
    · exact congrArg Prod.fst (step_core h (not_exists.mp hc))
  rw [← granted_eq_iff hs, ← halloc]
  exact ⟨fun hk => hk.1, fun ha => ⟨ha, currentMap_congr image ha (step_framebuffer h)⟩⟩

/-- After an `ExitBootServices` that returned success, the later calls leave the bump pointer, the generation and the
memory map exactly when none of them is a `LocateHandleBuffer` or `ProtocolsPerHandle` that gets a page. -/
theorem exited_frozen_iff (h : Run image s₀ (pre ++ e :: post) s) (he : e.call = .exitBootServices k)
    (her : e.reply.status = some .success) :
    (∀ x ∈ post, x.after.alloc = x.before.alloc ∧ x.after.currentMap image = x.before.currentMap image) ↔
      ∀ x ∈ post, Quiet x.before x.call := by
  obtain ⟨t, _, rfl, hestep, hpost⟩ := Run.append.mp h
  rw [he] at hestep
  have hexited : e.after.exited := by
    rcases exitBootServices_cases hestep with ⟨_, hex, heq⟩ | ⟨hrep, _⟩ | ⟨_, _, _, heq⟩
    · rw [heq]; exact hex
    · rw [hrep] at her; cases her
    · rw [heq]
  exact forall₂_congr fun x hx => step_frozen_iff (hpost.step hx) (hpost.exited hexited hx)

/-- The bare firmware after the exit. -/
def gone : Boot := { bare with exited := true }

/-- After the exit `AllocatePages` is refused and `LocateHandleBuffer` finds nothing. -/
def goneCalls : List Made :=
  [⟨gone, .allocatePages 1 true, .just .unsupported, gone⟩,
    ⟨gone, .locateHandleBuffer allHandles none true true, .buffer .notFound none none, gone⟩]

theorem exited_frozen_bare :
    Run Memory.onePage bare ([] ++ ⟨bare, .exitBootServices 0, .just .success, gone⟩ :: goneCalls) gone ∧
    ∀ x ∈ goneCalls, x.after.alloc = x.before.alloc ∧
      x.after.currentMap Memory.onePage = x.before.currentMap Memory.onePage := by
  have hrun : Run Memory.onePage bare ([] ++ ⟨bare, .exitBootServices 0, .just .success, gone⟩ :: goneCalls) gone :=
    ⟨rfl, rfl, rfl, rfl, rfl, rfl, rfl⟩
  refine ⟨hrun, (exited_frozen_iff hrun rfl rfl).mpr fun x hx => ?_⟩
  simp only [goneCalls, List.mem_cons, List.not_mem_nil, or_false] at hx
  rcases hx with rfl | rfl
  · trivial
  · exact Or.inr (Or.inr (Or.inl rfl))

/-- A table with one handle that carries one protocol. -/
def oneHandle : Handles :=
  (ProtocolDb.install (ProtocolDb.empty.set ⟨0, by decide⟩ { emptyHandle with inUse := true }) ⟨0, by decide⟩
    loadedImageProtocolGuid 0x1000).2

/-- The firmware after one protocol is installed on a new handle. -/
def withHandle : Boot := { bare with handles := oneHandle }

/-- A protocol is installed, the exit succeeds, and `LocateHandleBuffer` allocates a page for the one handle. -/
theorem exited_unfrozen_bare : ∃ x s,
    Run Memory.onePage bare
      ([⟨bare, .installProtocolInterface (some 0) (some loadedImageProtocolGuid) 0x1000, .word .success (some 1),
          withHandle⟩] ++
        ⟨withHandle, .exitBootServices 0, .just .success, { gone with handles := oneHandle }⟩ :: [x]) s ∧
    x.call = .locateHandleBuffer byProtocol (some loadedImageProtocolGuid) true true ∧
    x.before.alloc.nextFreePage = 0x81000 ∧ x.after.alloc.nextFreePage = 0x82000 ∧
    x.after.alloc.generation ≠ x.before.alloc.generation ∧
    x.after.currentMap Memory.onePage ≠ x.before.currentMap Memory.onePage := by
  refine ⟨⟨_, .locateHandleBuffer byProtocol (some loadedImageProtocolGuid) true true, _, _⟩, _,
    ⟨rfl, rfl, rfl, rfl, rfl, rfl, rfl⟩, rfl, rfl, rfl, ?_, ?_⟩
  · decide +kernel
  · decide +kernel

end Boot

end Ferro
