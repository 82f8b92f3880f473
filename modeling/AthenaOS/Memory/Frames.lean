import AthenaOS.Memory.BuddySafety

/-!
# Physical frames

`kernel/src/memory.rs` hands out frames from two allocators over one memory map: the
boot allocator walks the usable regions in order, and `init_buddy_allocator` gives
everything from the boot allocator's cursor up to the buddy allocator, apart from the
last 4 MiB, kept for crash dumps. Later calls go to the buddy, and to the boot allocator
again when the buddy has nothing left.
-/

namespace AthenaOS

open Lib

/-! ## The boot allocator -/

/-- `MemoryRegion`. -/
structure MemoryRegion where
  start : Nat
  stop : Nat
  /-- `kind == MemoryRegionKind::Usable`. -/
  usable : Bool

/-- `BootInfoFrameAllocator`. -/
structure BootInfoFrameAllocator where
  memoryRegions : List MemoryRegion
  regionIdx : Nat
  frameIdx : Nat

namespace BootInfoFrameAllocator

/-- `init`: the first usable region. -/
def init (memoryRegions : List MemoryRegion) : BootInfoFrameAllocator :=
  ⟨memoryRegions, memoryRegions.findIdx (·.usable), 0⟩

/-- `current_cursor`. -/
def currentCursor (b : BootInfoFrameAllocator) : Option Nat :=
  b.memoryRegions[b.regionIdx]?.map fun r => r.start + b.frameIdx * frameSize

/-- `allocate_frame`: the next frame of the first usable region that has one left. -/
def allocateFrame (b : BootInfoFrameAllocator) : Option Nat × BootInfoFrameAllocator :=
  match _h : (b.memoryRegions.drop b.regionIdx).findIdx? (·.usable) with
  | none => (none, b)
  | some i =>
    match b.memoryRegions[b.regionIdx + i]? with
    | none => (none, b)
    | some r =>
      let frameAddr := r.start + b.frameIdx * frameSize
      if r.stop ≤ frameAddr then
        allocateFrame { b with regionIdx := b.regionIdx + i + 1, frameIdx := 0 }
      else (some frameAddr, { b with regionIdx := b.regionIdx + i, frameIdx := b.frameIdx + 1 })
termination_by b.memoryRegions.length - b.regionIdx
decreasing_by
  have hlt := (List.findIdx?_eq_some_iff_findIdx_eq.mp _h).1
  rw [List.length_drop] at hlt
  omega

end BootInfoFrameAllocator

/-! ## Seeding the buddy allocator -/

/-- `CRASH_RESERVE_SIZE`. -/
def crashReserveSize : Nat := 4 * 1024 * 1024

/-- `reserve_crash_region`: the last 4 MiB of RAM. -/
def reserveCrashRegion (totalPages : Nat) : Option Nat :=
  let totalBytes := totalPages * frameSize
  if totalBytes ≤ crashReserveSize then none
  else some ((totalBytes - crashReserveSize) / frameSize * frameSize)

/-- `max_phys`: where the last usable region ends. -/
def maxPhys (regions : List MemoryRegion) : Nat :=
  regions.foldl (fun maxPhys r => if r.usable && maxPhys < r.stop then r.stop else maxPhys) 0

/-- One region of the loop in `init_buddy_allocator`: what lies above the cursor, without
the crash-dump hole. -/
def addRegion (bootCursor : Nat) (crashBase : Option Nat) (buddy : BuddyAllocator)
    (r : MemoryRegion) : Option BuddyAllocator :=
  if !r.usable then some buddy
  else
    let start := if r.start < bootCursor then min bootCursor r.stop else r.start
    if r.stop ≤ start then some buddy
    else
      match crashBase with
      | none => buddy.addRange start r.stop
      | some cb =>
        let ce := cb + crashReserveSize
        if start < ce ∧ cb < r.stop then
          (if start < cb then buddy.addRange start cb else some buddy).bind fun buddy =>
            if ce < r.stop then buddy.addRange ce r.stop else some buddy
        else buddy.addRange start r.stop

/-- `init_buddy_allocator`, given the boot cursor and what memory holds. -/
def initBuddyAllocator (regions : List MemoryRegion) (bootCursor : Nat) (ram : Nat → Nat) :
    Option BuddyAllocator :=
  let totalFrames := maxPhys regions / frameSize
  let buddy := BuddyAllocator.new ram ((totalFrames + 63) / 64) totalFrames
  regions.foldlM (addRegion bootCursor (reserveCrashRegion totalFrames)) buddy

/-! ## The calls -/

/-- The two allocators. There is at most one buddy allocator. -/
structure FrameState where
  boot : BootInfoFrameAllocator
  buddy : Option BuddyAllocator
  /-- `FREED_FRAMES`: addresses returned before there is a buddy allocator. -/
  freedFrames : List Nat
  /-- Ghost: the frames handed out and not yet returned. -/
  live : Nat → Bool

/-- What callers do. -/
inductive FrameOp where
  | allocateFrame
  /-- `GlobalFrameAllocator::allocate_frame`, for page tables. -/
  | globalAllocateFrame
  | allocateContiguousFrames (order : Nat)
  | deallocateFrame (addr : Nat)
  | deallocateContiguousFrames (addr order : Nat)
  /-- `init_buddy_allocator`, with the contents of memory at that moment. -/
  | initBuddyAllocator (ram : Nat → Nat)
  /-- A store of a caller to a frame it holds. -/
  | store (addr value : Nat)

namespace FrameState

/-- `boot_cursor`. -/
def bootCursor (s : FrameState) : Nat := s.boot.currentCursor.getD 0

/-- The frames of a block are handed out or returned. -/
def setLive (s : FrameState) (addr order : Nat) (live : Bool) : Nat → Bool :=
  fun f => if InBlock addr order f then live else s.live f

/-- A caller holds every frame of the block. -/
def Holds (s : FrameState) (addr order : Nat) : Prop :=
  ∀ f ∈ List.range' (addr / frameSize) (2 ^ order), s.live f = true

instance (s : FrameState) (addr order : Nat) : Decidable (s.Holds addr order) :=
  inferInstanceAs (Decidable (∀ f ∈ List.range' (addr / frameSize) (2 ^ order), s.live f = true))

/-- `allocate_frame`: the buddy first, then the boot allocator. -/
def allocateFrame (s : FrameState) : Option Nat × FrameState :=
  match s.buddy with
  | none => ((s.boot.allocateFrame).1, { s with boot := (s.boot.allocateFrame).2 })
  | some buddy =>
    match buddy.allocBlock 0 with
    | (some addr, buddy) => (some addr, { s with buddy := some buddy })
    | (none, buddy) => ((s.boot.allocateFrame).1,
        { s with buddy := some buddy, boot := (s.boot.allocateFrame).2 })

/-- `GlobalFrameAllocator::allocate_frame`: the frames freed early first. -/
def globalAllocateFrame (s : FrameState) : Option Nat × FrameState :=
  match s.freedFrames with
  | addr :: freed => (some addr, { s with freedFrames := freed })
  | [] => s.allocateFrame

/-- `deallocate_frame`. -/
def deallocateFrame (s : FrameState) (addr : Nat) : Option FrameState :=
  match s.buddy with
  | some buddy => (buddy.freeBlock addr 0).map fun buddy => { s with buddy := some buddy }
  | none => some { s with freedFrames := addr :: s.freedFrames }

/-- `deallocate_contiguous_frames`. -/
def deallocateContiguousFrames (s : FrameState) (addr order : Nat) : Option FrameState :=
  match s.buddy with
  | some buddy => (buddy.freeBlock addr order).map fun buddy => { s with buddy := some buddy }
  | none => some s

/-- `allocate_contiguous_frames`. -/
def allocateContiguousFrames (s : FrameState) (order : Nat) : Option Nat × FrameState :=
  match s.buddy with
  | none => (none, s)
  | some buddy => ((buddy.allocBlock order).1, { s with buddy := some (buddy.allocBlock order).2 })

/-- The block a call hands out: its address and order. -/
def returned (s : FrameState) : FrameOp → Option (Nat × Nat)
  | .allocateFrame => s.allocateFrame.1.map fun addr => (addr, 0)
  | .globalAllocateFrame => s.globalAllocateFrame.1.map fun addr => (addr, 0)
  | .allocateContiguousFrames order =>
    (s.allocateContiguousFrames order).1.map fun addr => (addr, order)
  | _ => none

end FrameState

/-- The state a call leaves, without the ghost; `none` if it panics. -/
def FrameOp.apply (s : FrameState) : FrameOp → Option FrameState
  | .allocateFrame => some s.allocateFrame.2
  | .globalAllocateFrame => some s.globalAllocateFrame.2
  | .allocateContiguousFrames order => some (s.allocateContiguousFrames order).2
  | .deallocateFrame addr => s.deallocateFrame addr
  | .deallocateContiguousFrames addr order => s.deallocateContiguousFrames addr order
  | .initBuddyAllocator ram =>
    (AthenaOS.initBuddyAllocator s.boot.memoryRegions s.bootCursor ram).map fun buddy =>
      { s with buddy := some buddy }
  | .store addr value => some { s with buddy := s.buddy.map fun buddy =>
      { buddy with ram := Function.update buddy.ram addr value } }

/-- The frames handed out after a call. -/
def FrameOp.liveAfter (s : FrameState) (op : FrameOp) : Nat → Bool :=
  match op with
  | .deallocateFrame addr => s.setLive addr 0 false
  | .deallocateContiguousFrames addr order => s.setLive addr order false
  | op =>
    match s.returned op with
    | some (addr, order) => s.setLive addr order true
    | none => s.live

/-- What a caller may do: return a frame or a block it holds, write to a frame it holds;
the kernel sets the buddy allocator up once. -/
def FrameOp.Allowed (s : FrameState) : FrameOp → Prop
  | .deallocateFrame addr => addr % frameSize = 0 ∧ s.Holds addr 0
  | .deallocateContiguousFrames addr order => addr % 2 ^ (order + 12) = 0 ∧ s.Holds addr order
  | .initBuddyAllocator _ => s.buddy.isNone = true
  | .store addr _ => addr % 8 = 0 ∧ s.live (addr / frameSize) = true
  | _ => True

instance (s : FrameState) : (op : FrameOp) → Decidable (op.Allowed s)
  | .deallocateFrame _ => inferInstanceAs (Decidable (_ ∧ _))
  | .deallocateContiguousFrames _ _ => inferInstanceAs (Decidable (_ ∧ _))
  | .initBuddyAllocator _ => inferInstanceAs (Decidable (_ = true))
  | .store _ _ => inferInstanceAs (Decidable (_ ∧ _))
  | .allocateFrame | .globalAllocateFrame | .allocateContiguousFrames _ =>
    inferInstanceAs (Decidable True)

/-- One call; `none` if no caller may make it now, or if it panics. -/
def FrameOp.exec (s : FrameState) (op : FrameOp) : Option FrameState :=
  if op.Allowed s then (op.apply s).map fun s' => { s' with live := op.liveAfter s } else none

/-- A memory map of disjoint, page-aligned usable regions. -/
structure ValidMap (regions : List MemoryRegion) : Prop where
  aligned : ∀ r ∈ regions, r.usable = true → r.start % frameSize = 0 ∧ r.stop % frameSize = 0
  disjoint : regions.Pairwise fun r r' => r.usable = true → r'.usable = true →
    r.stop ≤ r'.start ∨ r'.stop ≤ r.start

/-- Frames from boot on. -/
def frameMachine : Machine FrameState FrameOp where
  init s := ∃ regions, ValidMap regions ∧
    s = ⟨BootInfoFrameAllocator.init regions, none, [], fun _ => false⟩
  step s op s' := op.exec s = some s'

end AthenaOS
