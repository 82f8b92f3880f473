import AthenaOS.Memory.Frames

/-!
# Frames are handed out once

The boot allocator never returns a frame it is past, and the buddy allocator gets the frames from
the cursor up only. Exhausted, it falls back to frames it handed out itself.
-/

namespace AthenaOS

open Lib

/-! ## The boot allocator -/

/-- Frame `f` is the `k`-th frame of region `i`, and the boot allocator is past it. -/
def Handed (b : BootInfoFrameAllocator) (f : Nat) : Prop :=
  ∃ i r k, b.memoryRegions[i]? = some r ∧ r.usable = true ∧ f * frameSize = r.start + k * frameSize ∧
    f * frameSize < r.stop ∧ (i < b.regionIdx ∨ i = b.regionIdx ∧ k < b.frameIdx)

variable {regions : List MemoryRegion} {r : MemoryRegion}

/-- The usable regions of a valid map share no address. -/
theorem ValidMap.region_eq (h : ValidMap regions) {i j : Nat} {r' : MemoryRegion}
    (hr : regions[i]? = some r) (hr' : regions[j]? = some r') (hu : r.usable = true)
    (hu' : r'.usable = true) {a : Nat} (ha : r.start ≤ a ∧ a < r.stop)
    (ha' : r'.start ≤ a ∧ a < r'.stop) : i = j := by
  obtain ⟨hi, rfl⟩ := List.getElem?_eq_some_iff.mp hr
  obtain ⟨hj, rfl⟩ := List.getElem?_eq_some_iff.mp hr'
  have hpair := List.pairwise_iff_getElem.mp h.disjoint
  rcases Nat.lt_trichotomy i j with hlt | heq | hgt
  · have := hpair i j hi hj hlt hu hu'
    omega
  · exact heq
  · have := hpair j i hj hi hgt hu' hu
    omega

/-- **The boot allocator never returns a frame it is past.** -/
theorem bootAllocate_fresh {b : BootInfoFrameAllocator} (hmap : ValidMap b.memoryRegions) :
    b.allocateFrame.2.memoryRegions = b.memoryRegions ∧
      (∀ f, Handed b f → Handed b.allocateFrame.2 f) ∧
      ∀ addr, b.allocateFrame.1 = some addr → addr % frameSize = 0 ∧
        ¬ Handed b (addr / frameSize) ∧ Handed b.allocateFrame.2 (addr / frameSize) := by
  induction hn : b.memoryRegions.length - b.regionIdx using Nat.strong_induction_on
    generalizing b with
  | _ n ih =>
    rw [BootInfoFrameAllocator.allocateFrame]
    split
    · exact ⟨rfl, fun _ hf => hf, fun _ hc => by cases hc⟩
    · rename_i i hfind
      obtain ⟨hlt, hidx⟩ := List.findIdx?_eq_some_iff_findIdx_eq.mp hfind
      rw [List.length_drop] at hlt
      split
      · exact ⟨rfl, fun _ hf => hf, fun _ hc => by cases hc⟩
      · rename_i r hr
        have husable : r.usable = true := by
          obtain ⟨_, hget, -⟩ := List.findIdx?_eq_some_iff_getElem.mp hfind
          rw [List.getElem_drop] at hget
          obtain ⟨_, hr⟩ := List.getElem?_eq_some_iff.mp hr
          rwa [hr] at hget
        have hal := hmap.aligned r (List.mem_of_getElem? hr) husable
        dsimp only
        split
        · -- the region has no frame left
          obtain ⟨hregions, hmono, hfresh⟩ := ih
            (b.memoryRegions.length - (b.regionIdx + i + 1)) (by omega)
            (b := { b with regionIdx := b.regionIdx + i + 1, frameIdx := 0 }) hmap rfl
          have hpast : ∀ f, Handed b f →
              Handed { b with regionIdx := b.regionIdx + i + 1, frameIdx := 0 } f := by
            rintro f ⟨j, r', k, hr', hu, hf, hstop, hbefore⟩
            exact ⟨j, r', k, hr', hu, hf, hstop, .inl (by show j < b.regionIdx + i + 1; omega)⟩
          refine ⟨hregions, fun f hf => hmono f (hpast f hf), fun addr haddr => ?_⟩
          obtain ⟨hpage, hnew, hdone⟩ := hfresh addr haddr
          exact ⟨hpage, fun hf => hnew (hpast _ hf), hdone⟩
        · rename_i hroom
          refine ⟨rfl, ?_, fun addr haddr => ?_⟩
          · rintro f ⟨j, r', k, hr', hu, hf, hstop, hbefore⟩
            refine ⟨j, r', k, hr', hu, hf, hstop, ?_⟩
            show j < b.regionIdx + i ∨ j = b.regionIdx + i ∧ k < b.frameIdx + 1
            omega
          · have haddr : r.start + b.frameIdx * frameSize = addr := Option.some.inj haddr
            have hpage : addr % frameSize = 0 := by
              rw [← haddr, Nat.add_mul_mod_self_right, hal.1]
            have hframe : addr / frameSize * frameSize = addr :=
              Nat.div_mul_cancel (Nat.dvd_of_mod_eq_zero hpage)
            refine ⟨hpage, ?_, ?_⟩
            · rintro ⟨j, r', k, hr', hu, hf, hstop, hbefore⟩
              rw [hframe] at hf hstop
              have heq := hmap.region_eq hr' hr hu husable (a := addr) ⟨by omega, hstop⟩
                ⟨by omega, by omega⟩
              subst heq
              rw [hr'] at hr
              obtain rfl := Option.some.inj hr
              have hk : k * frameSize = b.frameIdx * frameSize := by omega
              have := Nat.eq_of_mul_eq_mul_right (by decide : 0 < frameSize) hk
              omega
            · refine ⟨b.regionIdx + i, r, b.frameIdx, hr, husable, ?_, ?_, .inr ⟨rfl, Nat.lt_succ_self _⟩⟩
              · rw [hframe, haddr]
              · rw [hframe, ← haddr]
                omega

/-! ## Seeding the buddy allocator -/

/-- Every usable region ends by `max_phys`. -/
theorem stop_le_maxPhys (hr : r ∈ regions) (hu : r.usable = true) : r.stop ≤ maxPhys regions := by
  have hmono : ∀ (l : List MemoryRegion) (m : Nat), m ≤ l.foldl
      (fun maxPhys r => if r.usable && maxPhys < r.stop then r.stop else maxPhys) m := by
    intro l
    induction l with
    | nil => exact fun m => Nat.le_refl m
    | cons r l ih =>
      intro m
      refine Nat.le_trans ?_ (ih _)
      dsimp only
      split
      · rename_i hc
        simp only [Bool.and_eq_true, decide_eq_true_eq] at hc
        omega
      · exact Nat.le_refl m
  have hmem : ∀ (l : List MemoryRegion) (m : Nat), r ∈ l → r.stop ≤ l.foldl
      (fun maxPhys r => if r.usable && maxPhys < r.stop then r.stop else maxPhys) m := by
    intro l
    induction l with
    | nil => exact fun _ hr => absurd hr List.not_mem_nil
    | cons r' l ih =>
      intro m hr
      rcases List.mem_cons.mp hr with rfl | hr
      · refine Nat.le_trans ?_ (hmono l _)
        dsimp only
        rw [hu]
        split
        · exact Nat.le_refl _
        · rename_i hc
          simp only [Bool.true_and, decide_eq_true_eq] at hc
          omega
      · exact ih _ hr
  exact hmem regions 0 hr

/-- A frame of a usable region has a bit in the buddy's bitmap. -/
theorem frame_lt_total (hmap : ValidMap regions) (hr : r ∈ regions) (hu : r.usable = true) {f : Nat}
    (hf : f * frameSize < r.stop) : f < maxPhys regions / frameSize := by
  have hle := stop_le_maxPhys hr hu
  have hal := (hmap.aligned r hr hu).2
  rw [frameSize] at hf hal ⊢
  omega

/-- What the buddy allocator may hold after some of the regions: frames of those regions,
from the cursor up. -/
def FromRegions (bootCursor : Nat) (regions : List MemoryRegion) (f : Nat) : Prop :=
  bootCursor ≤ f * frameSize ∧
    ∃ r ∈ regions, r.usable = true ∧ r.start ≤ f * frameSize ∧ f * frameSize < r.stop

/-- A buddy allocator that holds only frames of the given regions, from the cursor up. -/
structure Seeded (buddy : BuddyAllocator) (blocks : Nat → List Nat) (totalFrames bootCursor : Nat)
    (regions : List MemoryRegion) : Prop where
  consistent : BuddyConsistent buddy blocks
  words : buddy.totalFrames ≤ 64 * buddy.bitmapLen
  total : buddy.totalFrames = totalFrames
  covered : ∀ f, Covered blocks f → FromRegions bootCursor regions f

section Seeding

variable {buddy : BuddyAllocator} {blocks : Nat → List Nat} {totalFrames bootCursor : Nat}
variable {regions : List MemoryRegion} {r : MemoryRegion}

/-- Adding a part of a new region. -/
theorem Seeded.addRange (h : Seeded buddy blocks totalFrames bootCursor regions) {start stop : Nat}
    (hr : r ∈ regions) (hu : r.usable = true) (hstart : r.start ≤ start ∧ bootCursor ≤ start)
    (hpos : 0 < start) (hstop : stop ≤ r.stop ∧ stop % frameSize = 0)
    (hrange : stop ≤ totalFrames * frameSize)
    (hout : ∀ f, start ≤ f * frameSize → f * frameSize < stop → ¬ Covered blocks f) :
    ∃ buddy' blocks', buddy.addRange start stop = some buddy' ∧
      Seeded buddy' blocks' totalFrames bootCursor regions ∧
      ∀ f, Covered blocks' f →
        (start ≤ f * frameSize ∧ f * frameSize < stop) ∨ Covered blocks f := by
  obtain ⟨buddy', blocks', hrun, hcons, hframes, htotal, hlen⟩ :=
    h.consistent.addRange h.words (by rw [BuddyAllocator.maxAddr, h.total]; exact hrange) hstop.2
      (fun _ => hpos) hout
  refine ⟨buddy', blocks', hrun, ⟨hcons, ?_, htotal.trans h.total, fun f hf => ?_⟩,
    fun f => (hframes f).mp⟩
  · rw [htotal, hlen]
    exact h.words
  · rcases (hframes f).mp hf with ⟨hlo, hhi⟩ | hcov
    · exact ⟨by omega, r, hr, hu, by omega, by omega⟩
    · exact h.covered f hcov

variable {crashBase : Option Nat}

/-- One region of the loop. -/
theorem Seeded.addRegion (h : Seeded buddy blocks totalFrames bootCursor regions)
    (hzero : r.usable = true → r.start < r.stop → 0 < bootCursor ∨ 0 < r.start)
    (hal : r.usable = true → r.stop % frameSize = 0)
    (hrange : r.usable = true → r.stop ≤ totalFrames * frameSize)
    (hnew : r.usable = true → ∀ f, r.start ≤ f * frameSize → f * frameSize < r.stop →
      ¬ Covered blocks f) (hcrash : ∀ cb, crashBase = some cb → cb % frameSize = 0) :
    ∃ buddy' blocks', AthenaOS.addRegion bootCursor crashBase buddy r = some buddy' ∧
      Seeded buddy' blocks' totalFrames bootCursor (r :: regions) := by
  have hgrow : ∀ {b : BuddyAllocator} {l : Nat → List Nat}, Seeded b l totalFrames bootCursor regions →
      Seeded b l totalFrames bootCursor (r :: regions) := by
    intro b l hb
    refine ⟨hb.consistent, hb.words, hb.total, fun f hf => ?_⟩
    obtain ⟨hc, r', hr', hrest⟩ := hb.covered f hf
    exact ⟨hc, r', List.mem_cons_of_mem _ hr', hrest⟩
  have hseed := hgrow h
  unfold AthenaOS.addRegion
  by_cases hu : r.usable = true
  · rw [hu, Bool.not_true, if_neg (by decide)]
    generalize hs : (if r.start < bootCursor then min bootCursor r.stop else r.start) = start
    dsimp only
    by_cases hempty : r.stop ≤ start
    · rw [if_pos hempty]
      exact ⟨buddy, blocks, rfl, hseed⟩
    · rw [if_neg hempty]
      have hstart : r.start ≤ start ∧ bootCursor ≤ start := by
        split at hs <;> omega
      have hpos : 0 < start := by
        have := hzero hu (by omega)
        omega
      have hmem : r ∈ r :: regions := List.mem_cons_self
      have hout : ∀ f, start ≤ f * frameSize → f * frameSize < r.stop → ¬ Covered blocks f :=
        fun f hlo hhi => hnew hu f (by omega) hhi
      have hwhole : ∃ buddy' blocks', buddy.addRange start r.stop = some buddy' ∧
          Seeded buddy' blocks' totalFrames bootCursor (r :: regions) := by
        obtain ⟨b, l, hrun, hb, -⟩ := hseed.addRange hmem hu hstart hpos ⟨Nat.le_refl _, hal hu⟩
          (hrange hu) hout
        exact ⟨b, l, hrun, hb⟩
      cases hcb : crashBase with
      | none => exact hwhole
      | some cb =>
        dsimp only
        by_cases hhole : start < cb + crashReserveSize ∧ cb < r.stop
        · rw [if_pos hhole]
          have hcbal := hcrash cb hcb
          -- below the hole
          have hbelow : ∃ buddy' blocks',
              (if start < cb then buddy.addRange start cb else some buddy) = some buddy' ∧
              Seeded buddy' blocks' totalFrames bootCursor (r :: regions) ∧
              ∀ f, Covered blocks' f → f * frameSize < cb ∨ Covered blocks f := by
            split
            · have hrange' := hrange hu
              obtain ⟨b, l, hrun, hb, hcov⟩ := hseed.addRange hmem hu hstart hpos
                ⟨Nat.le_of_lt hhole.2, hcbal⟩ (by omega) fun f hlo hhi => hout f hlo (by omega)
              exact ⟨b, l, hrun, hb, fun f hf => (hcov f hf).imp And.right id⟩
            · exact ⟨buddy, blocks, rfl, hseed, fun _ => .inr⟩
          obtain ⟨b, l, hrun, hb, hcov⟩ := hbelow
          rw [hrun]
          rw [Option.bind_some]
          -- above it
          split
          · rename_i habove
            have hout' : ∀ f, cb + crashReserveSize ≤ f * frameSize → f * frameSize < r.stop →
                ¬ Covered l f := by
              intro f hlo hhi hf
              rcases hcov f hf with hlt | hf
              · omega
              · exact hout f (by omega) hhi hf
            obtain ⟨b', l', hrun', hb', -⟩ := hb.addRange hmem hu ⟨by omega, by omega⟩
              (by omega) ⟨Nat.le_refl _, hal hu⟩ (hrange hu) hout'
            exact ⟨b', l', hrun', hb'⟩
          · exact ⟨b, l, rfl, hb⟩
        · rw [if_neg hhole]
          exact hwhole
  · rw [Bool.not_eq_true] at hu
    rw [hu, Bool.not_false, if_pos rfl]
    exact ⟨buddy, blocks, rfl, hseed⟩

/-- **The loop over the regions** gives the buddy allocator frames of those regions, from
the cursor up. -/
theorem seeded_regions (hcrash : ∀ cb, crashBase = some cb → cb % frameSize = 0)
    (rest : List MemoryRegion)
    (hzero : ∀ r ∈ rest, r.usable = true → r.start < r.stop → 0 < bootCursor ∨ 0 < r.start)
    (hal : ∀ r ∈ rest, r.usable = true → r.stop % frameSize = 0)
    (hrange : ∀ r ∈ rest, r.usable = true → r.stop ≤ totalFrames * frameSize)
    (hrest : rest.Pairwise fun r r' => r.usable = true → r'.usable = true → r.stop ≤ r'.start ∨
      r'.stop ≤ r.start) (hdone : ∀ r ∈ rest, ∀ r' ∈ regions, r.usable = true → r'.usable = true →
      r.stop ≤ r'.start ∨ r'.stop ≤ r.start)
    (h : Seeded buddy blocks totalFrames bootCursor regions) :
    ∃ buddy' blocks' done, rest.foldlM (AthenaOS.addRegion bootCursor crashBase) buddy =
      some buddy' ∧ Seeded buddy' blocks' totalFrames bootCursor done := by
  induction rest generalizing buddy blocks regions with
  | nil => exact ⟨buddy, blocks, regions, rfl, h⟩
  | cons r rest ih =>
    have hnew : r.usable = true → ∀ f, r.start ≤ f * frameSize → f * frameSize < r.stop →
        ¬ Covered blocks f := by
      intro hu f hlo hhi hcov
      obtain ⟨-, r', hr', hu', hlo', hhi'⟩ := h.covered f hcov
      have := hdone r List.mem_cons_self r' hr' hu hu'
      omega
    obtain ⟨b, l, hrun, hb⟩ := h.addRegion (hzero r List.mem_cons_self) (hal r List.mem_cons_self)
      (hrange r List.mem_cons_self) hnew hcrash
    obtain ⟨hfirst, hrest⟩ := List.pairwise_cons.mp hrest
    obtain ⟨b', l', done, hrun', hb'⟩ := ih (fun r' hr' => hzero r' (List.mem_cons_of_mem _ hr'))
      (fun r' hr' => hal r' (List.mem_cons_of_mem _ hr'))
      (fun r' hr' => hrange r' (List.mem_cons_of_mem _ hr')) hrest
      (fun r₁ hr₁ r₂ hr₂ hu₁ hu₂ => by
        rcases List.mem_cons.mp hr₂ with rfl | hr₂
        · exact (hfirst r₁ hr₁ hu₂ hu₁).symm
        · exact hdone r₁ (List.mem_cons_of_mem _ hr₁) r₂ hr₂ hu₁ hu₂) hb
    refine ⟨b', l', done, ?_, hb'⟩
    rw [List.foldlM_cons, hrun]
    exact hrun'

end Seeding

/-- The crash-dump region starts at a page. -/
theorem crashBase_aligned {totalPages cb : Nat} (h : reserveCrashRegion totalPages = some cb) :
    cb % frameSize = 0 := by
  rw [reserveCrashRegion] at h
  split at h
  · exact nomatch h
  · exact Option.some.inj h ▸ Nat.mul_mod_left _ _

/-- **`init_buddy_allocator`** gives the buddy allocator no frame below the cursor. -/
theorem initBuddy_spec (hmap : ValidMap regions) {bootCursor : Nat}
    (hzero : ∀ r ∈ regions, r.usable = true → r.start < r.stop → 0 < bootCursor ∨ 0 < r.start)
    (ram : Nat → Nat) :
    ∃ buddy blocks, initBuddyAllocator regions bootCursor ram = some buddy ∧
      BuddyConsistent buddy blocks ∧ buddy.totalFrames ≤ 64 * buddy.bitmapLen ∧
      buddy.totalFrames = maxPhys regions / frameSize ∧
      ∀ f, Covered blocks f → bootCursor ≤ f * frameSize := by
  have hempty : Seeded (BuddyAllocator.new ram ((maxPhys regions / frameSize + 63) / 64)
      (maxPhys regions / frameSize)) (fun _ => []) (maxPhys regions / frameSize) bootCursor [] := by
    refine ⟨BuddyConsistent.new _ _ _, ?_, rfl, fun f hf => absurd hf (not_covered_nil f)⟩
    show maxPhys regions / frameSize ≤ 64 * ((maxPhys regions / frameSize + 63) / 64)
    omega
  obtain ⟨buddy, blocks, done, hrun, hseed⟩ := seeded_regions (fun cb => crashBase_aligned) regions
    hzero (fun r hr hu => (hmap.aligned r hr hu).2) (fun r hr hu => by
      have hle := stop_le_maxPhys hr hu
      have hal := (hmap.aligned r hr hu).2
      rw [frameSize] at hal ⊢
      omega) hmap.disjoint (fun _ _ _ hr' => absurd hr' List.not_mem_nil) hempty
  exact ⟨buddy, blocks, hrun, hseed.consistent, hseed.words, hseed.total,
    fun f hf => (hseed.covered f hf).1⟩

/-! ## Runs -/

/-- A caller holds frame `f`, or it waits in `FREED_FRAMES`. -/
def FrameState.Taken (s : FrameState) (f : Nat) : Prop :=
  s.live f = true ∨ f * frameSize ∈ s.freedFrames

/-- The invariant: what is taken is behind the boot allocator, and not in the buddy
allocator once there is one. -/
structure FrameSound (s : FrameState) : Prop where
  map : ValidMap s.boot.memoryRegions
  nodup : s.freedFrames.Nodup
  freed : ∀ a ∈ s.freedFrames, a % frameSize = 0 ∧ s.live (a / frameSize) = false
  boot : s.buddy = none → ∀ f, s.Taken f → Handed s.boot f
  buddy : ∀ b, s.buddy = some b → ∃ blocks, BuddyConsistent b blocks ∧
    b.totalFrames ≤ 64 * b.bitmapLen ∧ ∀ f, s.Taken f → f < b.totalFrames ∧ ¬ Covered blocks f

/-- The condition on a call, in the state before it:
* `init_buddy_allocator`: every frame handed out so far is below the cursor, and the buddy
  allocator does not get the frame at address 0, its null link;
* `allocate_frame`: the buddy allocator has a free frame, or the boot allocator has none;
* frame 0 is not returned. -/
def frameGuard (s : FrameState) : FrameOp → Prop
  | .initBuddyAllocator _ => (∀ f, s.Taken f → f * frameSize < s.bootCursor) ∧
      ∀ r ∈ s.boot.memoryRegions, r.usable = true → r.start < r.stop → 0 < s.bootCursor ∨ 0 < r.start
  | .allocateFrame => ∀ buddy, s.buddy = some buddy →
      (∃ o < maxOrder, buddy.freeLists o ≠ 0) ∨ s.boot.allocateFrame.1 = none
  | .globalAllocateFrame => s.freedFrames = [] → ∀ buddy, s.buddy = some buddy →
      (∃ o < maxOrder, buddy.freeLists o ≠ 0) ∨ s.boot.allocateFrame.1 = none
  | .deallocateFrame addr => addr ≠ 0
  | .deallocateContiguousFrames addr _ => addr ≠ 0
  | _ => True

/-- A block of order 0 is one frame. -/
theorem inBlock_zero {addr f : Nat} : InBlock addr 0 f ↔ f = addr / frameSize := by
  rw [InBlock]
  omega

namespace FrameSound

variable {s : FrameState} {addr order : Nat}

variable {f : Nat} {live : Bool} {b : BuddyAllocator} {s' : FrameState} {op : FrameOp}

theorem setLive_of_mem (hf : InBlock addr order f) : s.setLive addr order live f = live := if_pos hf

theorem setLive_of_not_mem (hf : ¬ InBlock addr order f) :
    s.setLive addr order live f = s.live f := if_neg hf

/-- A frame that waits in `FREED_FRAMES` is not also held. -/
theorem freed_dead (h : FrameSound s) (hf : f * frameSize ∈ s.freedFrames) : s.live f = false := by
  have hdead := (h.freed _ hf).2
  rwa [Nat.mul_div_cancel _ (by decide)] at hdead

/-- Frames nobody has taken are handed out. -/
theorem freed_setLive (h : FrameSound s) (hnew : ∀ f, InBlock addr order f → ¬ s.Taken f) :
    ∀ a ∈ s.freedFrames, a % frameSize = 0 ∧ s.setLive addr order true (a / frameSize) = false := by
  intro a ha
  obtain ⟨hal, hdead⟩ := h.freed a ha
  refine ⟨hal, ?_⟩
  rw [setLive_of_not_mem, hdead]
  intro hin
  refine hnew _ hin (.inr ?_)
  rwa [Nat.div_mul_cancel (Nat.dvd_of_mod_eq_zero hal)]

/-- **The buddy allocator hands out a block**: none of its frames is taken. -/
theorem allocBlock (h : FrameSound s) (hb : s.buddy = some b)
    (halloc : (b.allocBlock order).1 = some addr) :
    (∀ f, InBlock addr order f → ¬ s.Taken f) ∧
      FrameSound { s with buddy := some (b.allocBlock order).2
                          live := s.setLive addr order true } := by
  obtain ⟨blocks, hcons, hwords, hapart⟩ := h.buddy b hb
  obtain ⟨hcovered, blocks', hcons', hframes, htotal, hlen⟩ := hcons.allocBlock hwords halloc
  have hnew : ∀ f, InBlock addr order f → ¬ s.Taken f :=
    fun f hf htaken => (hapart f htaken).2 (hcovered f hf)
  refine ⟨hnew, h.map, h.nodup, h.freed_setLive hnew, fun hc => (nomatch hc), ?_⟩
  rintro _ ⟨rfl⟩
  refine ⟨blocks', hcons', by rw [htotal, hlen]; exact hwords, fun f hf => ?_⟩
  rw [htotal, hframes f]
  by_cases hin : InBlock addr order f
  · obtain ⟨o, c, hc, hf⟩ := hcovered f hin
    exact ⟨Nat.lt_of_lt_of_le hf.2 (hcons.bounded o c hc), fun hc => hc.2 hin⟩
  · have htaken : s.Taken f := hf.imp_left fun hlive => (setLive_of_not_mem hin).symm.trans hlive
    exact ⟨(hapart f htaken).1, fun hc => (hapart f htaken).2 hc.1⟩

/-- A buddy allocator with a free block hands out a frame. -/
theorem allocBlock_isSome (h : ∃ o < maxOrder, b.freeLists o ≠ 0) : (b.allocBlock 0).1 ≠ none := by
  obtain ⟨o, ho, hhead⟩ := h
  rw [BuddyAllocator.allocBlock]
  split
  · rename_i hfind
    have := List.find?_eq_none.mp hfind o (by rw [List.mem_range'_1]; omega)
    exact absurd hhead (by simpa using this)
  · simp

/-- What a call that may hand out a block has to ensure. -/
def Hands (s : FrameState) (order : Nat) (result : Option Nat × FrameState) : Prop :=
  match result.1 with
  | none => FrameSound { result.2 with live := s.live }
  | some addr => (∀ f, InBlock addr order f → s.live f = false) ∧
      FrameSound { result.2 with live := s.setLive addr order true }

/-- A frame nobody has taken is not held. -/
theorem not_live (h : ¬ s.Taken f) : s.live f = false :=
  Bool.eq_false_iff.mpr fun hlive => h (.inl hlive)

/-- Before there is a buddy allocator the boot allocator hands out frames. -/
theorem bootAllocateFrame (h : FrameSound s) (hb : s.buddy = none) :
    Hands s 0 ((s.boot.allocateFrame).1, { s with boot := (s.boot.allocateFrame).2 }) := by
  obtain ⟨hregions, hmono, hfresh⟩ := bootAllocate_fresh h.map
  have hmap : ValidMap s.boot.allocateFrame.2.memoryRegions := hregions ▸ h.map
  cases halloc : s.boot.allocateFrame.1 with
  | none =>
    exact ⟨hmap, h.nodup, h.freed, fun _ f hf => hmono f (h.boot hb f hf),
      fun b hc => nomatch hb.symm.trans hc⟩
  | some addr =>
    obtain ⟨hal, hnew, hdone⟩ := hfresh addr halloc
    have hfree : ∀ f, InBlock addr 0 f → ¬ s.Taken f := by
      intro f hf htaken
      rw [inBlock_zero.mp hf] at htaken
      exact hnew (h.boot hb _ htaken)
    refine ⟨fun f hf => not_live (hfree f hf), hmap, h.nodup, h.freed_setLive hfree, fun _ f hf => ?_,
      fun b hc => nomatch hb.symm.trans hc⟩
    by_cases hin : InBlock addr 0 f
    · rw [inBlock_zero.mp hin]
      exact hdone
    · exact hmono f (h.boot hb f (hf.imp_left fun hlive => (setLive_of_not_mem hin).symm.trans hlive))

/-- Once there is one, only the buddy allocator's frames matter. -/
theorem withBoot (h : FrameSound s) (hb : s.buddy = some b) {boot : BootInfoFrameAllocator}
    (hboot : boot.memoryRegions = s.boot.memoryRegions) : FrameSound { s with boot := boot } :=
  ⟨hboot ▸ h.map, h.nodup, h.freed, fun hc => (nomatch hb.symm.trans hc), h.buddy⟩

theorem allocateFrame (h : FrameSound s) (hg : ∀ buddy, s.buddy = some buddy →
    (∃ o < maxOrder, buddy.freeLists o ≠ 0) ∨ s.boot.allocateFrame.1 = none) :
    Hands s 0 s.allocateFrame := by
  rw [FrameState.allocateFrame]
  cases hb : s.buddy with
  | none =>
    have hboot := h.bootAllocateFrame hb
    rwa [hb] at hboot
  | some b =>
    dsimp only
    split
    · rename_i addr b' halloc
      have hfst : (b.allocBlock 0).1 = some addr := by rw [halloc]
      obtain ⟨hnew, hsound⟩ := h.allocBlock hb hfst
      rw [halloc] at hsound
      exact ⟨fun f hf => not_live (hnew f hf), hsound⟩
    · rename_i b' halloc
      have hfst : (b.allocBlock 0).1 = none := by rw [halloc]
      have hsame : b' = b := by rw [← allocBlock_none hfst, halloc]
      have hnone := (hg b hb).resolve_left fun hfree => allocBlock_isSome hfree hfst
      rw [hnone, hsame, ← hb]
      exact h.withBoot hb (bootAllocate_fresh h.map).1

theorem globalAllocateFrame (h : FrameSound s) (hg : s.freedFrames = [] → ∀ buddy,
    s.buddy = some buddy → (∃ o < maxOrder, buddy.freeLists o ≠ 0) ∨ s.boot.allocateFrame.1 = none) :
    Hands s 0 s.globalAllocateFrame := by
  rw [FrameState.globalAllocateFrame]
  split
  · rename_i addr freed hfreed
    have hmem : addr ∈ s.freedFrames := hfreed ▸ List.mem_cons_self
    obtain ⟨hal, hdead⟩ := h.freed addr hmem
    obtain ⟨hfirst, hnodup⟩ := List.nodup_cons.mp (hfreed ▸ h.nodup)
    have hframe : addr / frameSize * frameSize = addr :=
      Nat.div_mul_cancel (Nat.dvd_of_mod_eq_zero hal)
    -- the frame moves from the list to the caller
    have htaken : ∀ f, ({ s with freedFrames := freed, live := s.setLive addr 0 true } :
        FrameState).Taken f → s.Taken f := by
      rintro f (hlive | hf)
      · by_cases hin : InBlock addr 0 f
        · rw [inBlock_zero.mp hin, FrameState.Taken, hframe]
          exact .inr hmem
        · exact .inl ((setLive_of_not_mem hin).symm.trans hlive)
      · exact .inr (hfreed ▸ List.mem_cons_of_mem _ hf)
    refine ⟨fun f hf => inBlock_zero.mp hf ▸ hdead, h.map, hnodup, fun a ha => ?_,
      fun hb f hf => h.boot hb f (htaken f hf), fun b hb => ?_⟩
    · obtain ⟨hal', hdead'⟩ := h.freed a (hfreed ▸ List.mem_cons_of_mem _ ha)
      refine ⟨hal', ?_⟩
      show s.setLive addr 0 true (a / frameSize) = false
      rw [setLive_of_not_mem, hdead']
      rw [inBlock_zero]
      intro heq
      have : a = addr := by
        rw [← hframe, ← heq, Nat.div_mul_cancel (Nat.dvd_of_mod_eq_zero hal')]
      exact hfirst (this ▸ ha)
    · obtain ⟨blocks, hcons, hwords, hapart⟩ := h.buddy b hb
      exact ⟨blocks, hcons, hwords, fun f hf => hapart f (htaken f hf)⟩
  · rename_i hfreed
    exact h.allocateFrame (hg hfreed)

theorem allocateContiguousFrames (h : FrameSound s) (order : Nat) :
    Hands s order (s.allocateContiguousFrames order) := by
  rw [FrameState.allocateContiguousFrames]
  cases hb : s.buddy with
  | none => exact h
  | some b =>
    cases halloc : (b.allocBlock order).1 with
    | none =>
      dsimp only [Hands]
      rw [halloc, allocBlock_none halloc, ← hb]
      exact h
    | some addr =>
      obtain ⟨hnew, hsound⟩ := h.allocBlock hb halloc
      dsimp only [Hands]
      rw [halloc]
      exact ⟨fun f hf => not_live (hnew f hf), hsound⟩

/-- Frames are returned: nothing new is taken. -/
theorem taken_of_returned
    (hf : ({ s with live := s.setLive addr order false } : FrameState).Taken f) : s.Taken f := by
  rcases hf with hlive | hf
  · by_cases hin : InBlock addr order f
    · exact absurd ((setLive_of_mem hin).symm.trans hlive) (by decide)
    · exact .inl ((setLive_of_not_mem hin).symm.trans hlive)
  · exact .inr hf

theorem dead_of_returned (hdead : s.live f = false) : s.setLive addr order false f = false := by
  by_cases hin : InBlock addr order f
  · exact setLive_of_mem hin
  · rw [setLive_of_not_mem hin, hdead]

/-- **The buddy allocator takes a block back.** -/
theorem freeBlock (h : FrameSound s) {b' : BuddyAllocator} (hb : s.buddy = some b)
    (hal : addr % 2 ^ (order + 12) = 0) (hne : addr ≠ 0)
    (hheld : ∀ f, InBlock addr order f → s.live f = true) (hrun : b.freeBlock addr order = some b') :
    FrameSound { s with buddy := some b', live := s.setLive addr order false } := by
  obtain ⟨blocks, hcons, hwords, hapart⟩ := h.buddy b hb
  have hout : ∀ f, InBlock addr order f → ¬ Covered blocks f :=
    fun f hf => (hapart f (.inl (hheld f hf))).2
  have hbound : addr / frameSize + 2 ^ order ≤ b.totalFrames := by
    have hpos := Nat.two_pow_pos order
    have hin : InBlock addr order (addr / frameSize + (2 ^ order - 1)) :=
      ⟨Nat.le_add_right _ _, by omega⟩
    have hlast := (hapart _ (.inl (hheld _ hin))).1
    omega
  have horder := hcons.order_lt_of_freeBlock hout hrun
  obtain ⟨b₁, blocks', hrun', hcons', hframes, htotal, hlen⟩ :=
    hcons.freeBlock hwords horder hal hne hbound hout
  obtain rfl : b' = b₁ := Option.some.inj (hrun.symm.trans hrun')
  refine ⟨h.map, h.nodup, fun a ha => ?_, fun hc => (nomatch hc), ?_⟩
  · obtain ⟨hal', hdead⟩ := h.freed a ha
    exact ⟨hal', dead_of_returned hdead⟩
  · rintro _ ⟨rfl⟩
    refine ⟨blocks', hcons', by rw [htotal, hlen]; exact hwords, fun f hf => ?_⟩
    have htaken := hapart f (taken_of_returned hf)
    rw [htotal, hframes f]
    refine ⟨htaken.1, ?_⟩
    rintro (hin | hcov)
    · rcases hf with hlive | hfreed
      · exact absurd ((setLive_of_mem hin).symm.trans hlive) (by decide)
      · exact absurd (hheld f hin) (by rw [h.freed_dead hfreed]; decide)
    · exact htaken.2 hcov

/-- The frames of a block a caller holds. -/
theorem held (hold : s.Holds addr order) (hf : InBlock addr order f) : s.live f = true :=
  hold f (List.mem_range'_1.mpr hf)

theorem deallocateFrame (h : FrameSound s) (hne : addr ≠ 0) (hal : addr % frameSize = 0)
    (hold : s.Holds addr 0) (hrun : s.deallocateFrame addr = some s') :
    FrameSound { s' with live := s.setLive addr 0 false } := by
  rw [FrameState.deallocateFrame] at hrun
  cases hb : s.buddy with
  | some b =>
    rw [hb] at hrun
    obtain ⟨b', hfree, rfl⟩ := Option.map_eq_some_iff.mp hrun
    exact h.freeBlock hb hal hne (fun f => held hold) hfree
  | none =>
    rw [hb] at hrun
    obtain rfl := Option.some.inj hrun
    have hlive := held hold (inBlock_base addr 0)
    have hframe : addr / frameSize * frameSize = addr :=
      Nat.div_mul_cancel (Nat.dvd_of_mod_eq_zero hal)
    refine ⟨h.map, List.nodup_cons.mpr ⟨fun hmem => ?_, h.nodup⟩, fun a ha => ?_, fun _ f hf => ?_,
      fun b hc => (nomatch hc)⟩
    · rw [(h.freed addr hmem).2] at hlive
      exact nomatch hlive
    · rcases List.mem_cons.mp ha with rfl | ha
      · exact ⟨hal, setLive_of_mem (inBlock_base a 0)⟩
      · obtain ⟨hal', hdead⟩ := h.freed a ha
        exact ⟨hal', dead_of_returned hdead⟩
    · -- the frame moves from the caller to the list
      refine h.boot hb f ?_
      rcases hf with hf | hf
      · exact taken_of_returned (.inl hf)
      · rcases List.mem_cons.mp hf with heq | hf
        · rw [← hframe] at heq
          rw [Nat.eq_of_mul_eq_mul_right (by decide) heq]
          exact .inl hlive
        · exact .inr hf

theorem deallocateContiguousFrames (h : FrameSound s) (hne : addr ≠ 0)
    (hal : addr % 2 ^ (order + 12) = 0) (hold : s.Holds addr order)
    (hrun : s.deallocateContiguousFrames addr order = some s') :
    FrameSound { s' with live := s.setLive addr order false } := by
  rw [FrameState.deallocateContiguousFrames] at hrun
  cases hb : s.buddy with
  | some b =>
    rw [hb] at hrun
    obtain ⟨b', hfree, rfl⟩ := Option.map_eq_some_iff.mp hrun
    exact h.freeBlock hb hal hne (fun f => held hold) hfree
  | none =>
    rw [hb] at hrun
    obtain rfl := Option.some.inj hrun
    refine ⟨h.map, h.nodup, fun a ha => ?_, fun _ f hf => h.boot hb f (taken_of_returned hf),
      fun b hc => (nomatch hb.symm.trans hc)⟩
    obtain ⟨hal', hdead⟩ := h.freed a ha
    exact ⟨hal', dead_of_returned hdead⟩

/-- The frames handed out so far are below the cursor; the buddy allocator starts at it. -/
theorem initBuddyAllocator (h : FrameSound s) (hb : s.buddy = none)
    (hbelow : ∀ f, s.Taken f → f * frameSize < s.bootCursor) (hzero : ∀ r ∈ s.boot.memoryRegions,
      r.usable = true → r.start < r.stop → 0 < s.bootCursor ∨ 0 < r.start) {ram : Nat → Nat}
    (hrun : AthenaOS.initBuddyAllocator s.boot.memoryRegions s.bootCursor ram = some b) :
    FrameSound { s with buddy := some b } := by
  obtain ⟨b₁, blocks, hrun', hcons, hwords, htotal, hcovered⟩ := initBuddy_spec h.map hzero ram
  obtain rfl : b = b₁ := Option.some.inj (hrun.symm.trans hrun')
  refine ⟨h.map, h.nodup, h.freed, fun hc => (nomatch hc), ?_⟩
  rintro _ ⟨rfl⟩
  refine ⟨blocks, hcons, hwords, fun f hf => ⟨?_, fun hcov => ?_⟩⟩
  · obtain ⟨i, r, k, hr, hu, -, hstop, -⟩ := h.boot hb f hf
    rw [htotal]
    exact frame_lt_total h.map (List.mem_of_getElem? hr) hu hstop
  · have hlo := hcovered f hcov
    have hhi := hbelow f hf
    omega

/-- A store to a frame somebody holds leaves the free lists alone. -/
theorem store (h : FrameSound s) (value : Nat) (hlive : s.live (addr / frameSize) = true) :
    FrameSound { s with buddy := s.buddy.map fun buddy =>
      { buddy with ram := Function.update buddy.ram addr value } } := by
  refine ⟨h.map, h.nodup, h.freed, fun hc => h.boot (Option.map_eq_none_iff.mp hc), fun b hb => ?_⟩
  obtain ⟨b₀, hb₀, rfl⟩ := Option.map_eq_some_iff.mp hb
  obtain ⟨blocks, hcons, hwords, hapart⟩ := h.buddy b₀ hb₀
  exact ⟨blocks, hcons.store value (hapart _ (.inl hlive)).2, hwords, hapart⟩

/-- What a call that hands out a block leaves, as `FrameOp.exec` has it. -/
theorem of_hands (op : FrameOp) {result : Option Nat × FrameState} (h : Hands s order result)
    (hret : s.returned op = result.1.map fun addr => (addr, order)) :
    (∀ addr order, s.returned op = some (addr, order) → ∀ f, InBlock addr order f → s.live f = false) ∧
      FrameSound { result.2 with live := match s.returned op with
        | some (addr, order) => s.setLive addr order true
        | none => s.live } := by
  rw [hret]
  rw [Hands] at h
  cases hres : result.1 with
  | none =>
    rw [hres] at h
    exact ⟨fun _ _ hc => (nomatch hc), h⟩
  | some addr =>
    rw [hres] at h
    refine ⟨fun addr' order' heq => ?_, h.2⟩
    obtain ⟨rfl, rfl⟩ := Prod.mk.inj (Option.some.inj heq)
    exact h.1

/-- What one step does: the call, and the ghost. -/
theorem exec_inv (hrun : op.exec s = some s') :
    op.Allowed s ∧ ∃ s₁, op.apply s = some s₁ ∧ s' = { s₁ with live := op.liveAfter s } := by
  rw [FrameOp.exec] at hrun
  split at hrun
  · rename_i hallowed
    obtain ⟨s₁, happly, rfl⟩ := Option.map_eq_some_iff.mp hrun
    exact ⟨hallowed, s₁, happly, rfl⟩
  · exact nomatch hrun

/-- **One call**: what it returns nobody holds, and the invariant stays. -/
theorem exec (h : FrameSound s) (hg : frameGuard s op) :
    (∀ addr order, s.returned op = some (addr, order) → ∀ f, InBlock addr order f →
      s.live f = false) ∧ ∀ s', op.exec s = some s' → FrameSound s' := by
  have hhands : ∀ {op : FrameOp} {s₁ : FrameState} {r : Prop}, op.apply s = some s₁ →
      r ∧ FrameSound { s₁ with live := op.liveAfter s } →
      r ∧ ∀ s', op.exec s = some s' → FrameSound s' := by
    rintro op s₁ r hs₁ ⟨hret, hsound⟩
    refine ⟨hret, fun s' hrun => ?_⟩
    obtain ⟨-, s₂, happly, rfl⟩ := exec_inv hrun
    obtain rfl := Option.some.inj (hs₁.symm.trans happly)
    exact hsound
  cases op with
  | allocateFrame => exact hhands rfl (of_hands .allocateFrame (h.allocateFrame hg) rfl)
  | globalAllocateFrame => exact hhands rfl (of_hands .globalAllocateFrame (h.globalAllocateFrame hg) rfl)
  | allocateContiguousFrames order =>
    exact hhands rfl (of_hands (.allocateContiguousFrames order) (h.allocateContiguousFrames order) rfl)
  | deallocateFrame addr =>
    refine ⟨fun _ _ hc => (nomatch hc), fun s' hrun => ?_⟩
    obtain ⟨hallowed, s₁, happly, rfl⟩ := exec_inv hrun
    exact h.deallocateFrame hg hallowed.1 hallowed.2 happly
  | deallocateContiguousFrames addr order =>
    refine ⟨fun _ _ hc => (nomatch hc), fun s' hrun => ?_⟩
    obtain ⟨hallowed, s₁, happly, rfl⟩ := exec_inv hrun
    exact h.deallocateContiguousFrames hg hallowed.1 hallowed.2 happly
  | initBuddyAllocator ram =>
    refine ⟨fun _ _ hc => (nomatch hc), fun s' hrun => ?_⟩
    obtain ⟨hallowed, s₁, happly, rfl⟩ := exec_inv hrun
    obtain ⟨b, hinit, rfl⟩ := Option.map_eq_some_iff.mp happly
    exact h.initBuddyAllocator (Option.isNone_iff_eq_none.mp hallowed) hg.1 hg.2 hinit
  | store addr value =>
    refine ⟨fun _ _ hc => (nomatch hc), fun s' hrun => ?_⟩
    obtain ⟨hallowed, s₁, happly, rfl⟩ := exec_inv hrun
    obtain rfl := Option.some.inj happly
    exact h.store value hallowed.2

/-- At boot nothing is taken. -/
theorem boot_sound {regions : List MemoryRegion} (hmap : ValidMap regions) :
    FrameSound ⟨BootInfoFrameAllocator.init regions, none, [], fun _ => false⟩ := by
  refine ⟨hmap, List.nodup_nil, fun _ hc => absurd hc List.not_mem_nil, fun _ f hf => ?_,
    fun _ hc => (nomatch hc)⟩
  rcases hf with hc | hc
  · exact nomatch hc
  · exact absurd hc List.not_mem_nil

end FrameSound

/-- **No frame is handed out twice**: in every run whose calls meet `frameGuard`, and for
the call that follows, every frame returned is one nobody holds. -/
theorem frames_not_shared {s : FrameState} (h : frameMachine.Run frameGuard s) {op : FrameOp}
    (hg : frameGuard s op) {addr order : Nat} (hret : s.returned op = some (addr, order)) :
    ∀ f, InBlock addr order f → s.live f = false := by
  have hsound : FrameSound s := by
    refine h.invariant ?_ ?_
    · rintro s ⟨regions, hmap, rfl⟩
      exact FrameSound.boot_sound hmap
    · intro s op s' hs hg hstep
      exact (hs.exec hg).2 s' hstep
  exact (hsound.exec hg).1 addr order hret

/-- A machine with two usable frames. -/
def twoFrames : FrameState :=
  ⟨BootInfoFrameAllocator.init [⟨0x1000, 0x3000, true⟩], none, [], fun _ => false⟩

theorem validMap_twoFrames : ValidMap twoFrames.boot.memoryRegions := by
  refine ⟨fun r hr _ => ?_, List.pairwise_singleton _ _⟩
  rw [List.mem_singleton.mp hr]
  decide

/-- The buddy allocator is set up, and the first frame it hands out is nobody's. -/
theorem frames_not_shared_twoFrames :
    ∃ s, FrameOp.exec twoFrames (.initBuddyAllocator fun _ => 0) = some s ∧
      s.returned .allocateFrame = some (0x2000, 0) ∧ ∀ f, InBlock 0x2000 0 f → s.live f = false := by
  have hrun : ((FrameOp.exec twoFrames (.initBuddyAllocator fun _ => 0)).map fun s =>
      (s.returned .allocateFrame, s.buddy.map fun b => decide (b.freeLists 0 ≠ 0))) =
      some (some (0x2000, 0), some true) := by decide +kernel
  obtain ⟨s, hexec, hs⟩ := Option.map_eq_some_iff.mp hrun
  obtain ⟨hret, hfree⟩ := Prod.mk.inj hs
  have hstart : frameMachine.Run frameGuard twoFrames := .start ⟨_, validMap_twoFrames, rfl⟩
  have hguard : frameGuard twoFrames (.initBuddyAllocator fun _ => 0) := by
    constructor
    · rintro f (hc | hc)
      · exact nomatch hc
      · exact absurd hc List.not_mem_nil
    · intro r hr _ _
      exact .inl (by decide)
  have hguard' : frameGuard s .allocateFrame := by
    intro b hb
    rw [hb, Option.map_some, Option.some.injEq, decide_eq_true_eq] at hfree
    exact .inl ⟨0, by decide, hfree⟩
  exact ⟨s, hexec, hret, frames_not_shared (.snoc hstart hguard hexec) hguard' hret⟩

/-- The buddy allocator hands out both frames; then the boot allocator, whose cursor is
still at the first, hands it out again. -/
theorem fallback_shares_frame :
    frameMachine.init twoFrames ∧
    ((Lib.replay FrameOp.exec twoFrames
        [.initBuddyAllocator fun _ => 0, .allocateFrame, .allocateFrame]).map fun s =>
      (s.returned .allocateFrame, s.live 1)) = some (some (0x1000, 0), true) :=
  ⟨⟨_, validMap_twoFrames, rfl⟩, by decide +kernel⟩

end AthenaOS
