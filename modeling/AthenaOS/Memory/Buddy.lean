import AthenaOS.Lib.Machine

/-!
# The buddy allocator

`kernel/src/memory/buddy.rs`: free blocks of `2 ^ order` frames, orders 0 to 11, on one
doubly linked list per order. The links are the first two words of the free frames
themselves. A bitmap says which frames are in use.
-/

namespace AthenaOS

open Lib

/-- `MAX_ORDER`. -/
def maxOrder : Nat := 12

/-- The bytes of a frame. -/
def frameSize : Nat := 4096

/-- `BuddyAllocator`, without its node id. -/
structure BuddyAllocator where
  /-- Heads of the free lists, one for each order below `maxOrder`. -/
  freeLists : Nat → Nat
  /-- The bitmap: is frame `f` in use? Bit `f % 64` of word `f / 64`. -/
  used : Nat → Bool
  /-- The bitmap's length in words. -/
  bitmapLen : Nat
  totalFrames : Nat
  freeFrames : Nat
  /-- Physical memory: the word at a byte address. -/
  ram : Nat → Nat

namespace BuddyAllocator

/-- `BuddyAllocator::new`: everything is in use. -/
def new (ram : Nat → Nat) (bitmapLen totalFrames : Nat) : BuddyAllocator :=
  ⟨fun _ => 0, fun _ => true, bitmapLen, totalFrames, 0, ram⟩

variable (s : BuddyAllocator)

/-- The first word of a node. -/
def next (addr : Nat) : Nat := s.ram addr

/-- The second word of a node. -/
def prev (addr : Nat) : Nat := s.ram (addr + 8)

/-- `max_addr`. -/
def maxAddr : Nat := s.totalFrames * frameSize

/-! ## Bitmap -/

/-- `is_block_free`. -/
def isBlockFree (addr order : Nat) : Bool :=
  (List.range (2 ^ order)).all fun i =>
    let frame := addr / frameSize + i
    frame < s.totalFrames && frame / 64 < s.bitmapLen && !s.used frame

/-- `mark_range`. -/
def markRange (addr count : Nat) (used : Bool) : BuddyAllocator :=
  { s with
    used := fun f =>
      if addr / frameSize ≤ f ∧ f < addr / frameSize + count ∧ f / 64 < s.bitmapLen then used
      else s.used f }

/-! ## Lists -/

/-- `push_to_list`. -/
def pushToList (addr order : Nat) : BuddyAllocator :=
  let next := s.freeLists order
  let ram := Function.update (Function.update s.ram addr next) (addr + 8) 0
  { s with
    ram := if next ≠ 0 then Function.update ram (next + 8) addr else ram
    freeLists := Function.update s.freeLists order addr }

/-- `pop_from_list`. -/
def popFromList (addr order : Nat) : BuddyAllocator :=
  let next := s.next addr
  let prev := s.prev addr
  let ram := if prev ≠ 0 then Function.update s.ram prev next else s.ram
  { s with
    freeLists := if prev ≠ 0 then s.freeLists else Function.update s.freeLists order next
    ram := if next ≠ 0 then Function.update ram (next + 8) prev else ram }

/-- The `valid` closure of `block_on_free_list`. -/
def validLink (p : Nat) : Bool := p = 0 || (p < s.maxAddr && p % frameSize = 0)

/-- `block_on_free_list`. -/
def blockOnFreeList (addr order : Nat) : Bool :=
  s.isBlockFree addr order && s.validLink (s.next addr) && s.validLink (s.prev addr) &&
    if s.prev addr = 0 then s.freeLists order = addr else s.next (s.prev addr) = addr

/-! ## Allocation -/

/-- The loop of `free_block`: merge with the buddy while it is on its list. -/
def mergeBuddies (s : BuddyAllocator) (addr order : Nat) : BuddyAllocator × Nat × Nat :=
  if order < maxOrder - 1 then
    let buddy := addr ^^^ 1 <<< (order + 12)
    if s.blockOnFreeList buddy order then
      mergeBuddies (s.popFromList buddy order) (min addr buddy) (order + 1)
    else (s, addr, order)
  else (s, addr, order)
termination_by maxOrder - 1 - order

/-- The end of `free_block`: list the merged block and clear its bits. -/
def listBlock (s : BuddyAllocator) (addr order : Nat) : BuddyAllocator :=
  (s.pushToList addr order).markRange addr (2 ^ order) false

/-- `free_block`. A block that is free already is rejected; an order past the lists is
an index panic. -/
def freeBlock (addr order : Nat) : Option BuddyAllocator :=
  if s.isBlockFree addr order then some s
  else if maxOrder ≤ order then none
  else
    let (s, addr, order) := mergeBuddies { s with freeFrames := s.freeFrames + 2 ^ order } addr order
    some (s.listBlock addr order)

/-- The split loop of `alloc_block`: the upper halves of a block of order `order + k` go
back to their lists. -/
def splitBlock (s : BuddyAllocator) (block order : Nat) : Nat → BuddyAllocator
  | 0 => s
  | k + 1 => splitBlock (s.pushToList (block + 1 <<< (order + k + 12)) (order + k)) block order k

/-- `alloc_block`: the first list from `order` up that is not empty. -/
def allocBlock (order : Nat) : Option Nat × BuddyAllocator :=
  match (List.range' order (maxOrder - order)).find? fun o => s.freeLists o ≠ 0 with
  | none => (none, s)
  | some o =>
    let block := s.freeLists o
    let s := (s.popFromList block o).splitBlock block order (o - order)
    let s := s.markRange block (2 ^ order) true
    (some block, { s with freeFrames := s.freeFrames - 2 ^ order })

/-- The largest order, from `order` up, of a block that starts at `addr`, is aligned and
ends by `stop`. -/
def fitOrder (addr stop order : Nat) : Nat :=
  if order < maxOrder - 1 then
    let size := 1 <<< (order + 1 + 12)
    if addr % size ≠ 0 ∨ stop < addr + size then order else fitOrder addr stop (order + 1)
  else order
termination_by maxOrder - 1 - order

/-- The loop of `add_range`. -/
def addRangeFrom (stop : Nat) (s : BuddyAllocator) (addr : Nat) : Option BuddyAllocator :=
  if addr < stop ∧ addr < s.maxAddr then
    let order := fitOrder addr stop 0
    match s.freeBlock addr order with
    | none => none
    | some s => addRangeFrom stop s (addr + 1 <<< (order + 12))
  else some s
termination_by stop - addr
decreasing_by
  have : 0 < 1 <<< (fitOrder addr stop 0 + 12) := by
    rw [Nat.one_shiftLeft]
    exact Nat.two_pow_pos _
  omega

/-- `add_range`. -/
def addRange (start stop : Nat) : Option BuddyAllocator :=
  addRangeFrom (stop / frameSize * frameSize) s ((start + (frameSize - 1)) / frameSize * frameSize)

end BuddyAllocator

/-! ## Clients -/

/-- Frame `f` lies in the block of `2 ^ order` frames at `addr`. -/
def InBlock (addr order f : Nat) : Prop :=
  addr / frameSize ≤ f ∧ f < addr / frameSize + 2 ^ order

instance (addr order f : Nat) : Decidable (InBlock addr order f) :=
  inferInstanceAs (Decidable (_ ∧ _))

/-- Who has a frame: nobody gave it to the allocator yet, a client was handed it, or
the allocator holds it. -/
inductive FrameOwner where
  | outside
  | client
  | allocator
  deriving DecidableEq, Repr

/-- The allocator and, as a ghost, the owner of every frame. -/
structure BuddyState where
  buddy : BuddyAllocator
  owner : Nat → FrameOwner

/-- What can happen to the allocator. -/
inductive BuddyOp where
  | addRange (start stop : Nat)
  | allocBlock (order : Nat)
  | freeBlock (addr order : Nat)
  /-- A store to the word at `addr`, by whoever owns its frame. -/
  | store (addr value : Nat)

namespace BuddyState

/-- The frames of a block change hands. -/
def give (s : BuddyState) (addr order : Nat) (o : FrameOwner) : Nat → FrameOwner :=
  fun f => if InBlock addr order f then o else s.owner f

/-- `add_range` may be called on a range of pages without frame 0, inside the bitmap,
none of which was added before. -/
structure MayAdd (s : BuddyState) (start stop : Nat) : Prop where
  start_aligned : start % frameSize = 0
  stop_aligned : stop % frameSize = 0
  start_pos : start < stop → 0 < start
  in_range : stop ≤ s.buddy.maxAddr
  fresh : ∀ f, start / frameSize ≤ f → f < stop / frameSize → s.owner f = .outside

/-- `free_block` may be called on an aligned block whose frames all belong to clients or
are all free already. -/
structure MayFree (s : BuddyState) (addr order : Nat) : Prop where
  aligned : addr % 2 ^ (order + 12) = 0
  owned : (∀ f, InBlock addr order f → s.owner f = .client) ∨
    ∀ f, InBlock addr order f → s.owner f = .allocator

/-- One call, with what its caller has to make sure of. -/
def Step (s : BuddyState) (op : BuddyOp) (s' : BuddyState) : Prop :=
  match op with
  | .addRange start stop => s.MayAdd start stop ∧
    s.buddy.addRange start stop = some s'.buddy ∧
    s'.owner = fun f =>
      if start / frameSize ≤ f ∧ f < stop / frameSize then .allocator else s.owner f
  | .allocBlock order =>
    s'.buddy = (s.buddy.allocBlock order).2 ∧
    s'.owner = match (s.buddy.allocBlock order).1 with
      | none => s.owner
      | some addr => s.give addr order .client
  | .freeBlock addr order => s.MayFree addr order ∧
    s.buddy.freeBlock addr order = some s'.buddy ∧
    s'.owner = s.give addr order .allocator
  | .store addr value => addr % 8 = 0 ∧ s.owner (addr / frameSize) ≠ .allocator ∧
    s'.buddy = { s.buddy with ram := Function.update s.buddy.ram addr value } ∧
    s'.owner = s.owner

end BuddyState

/-- The allocator from `new` on, over a bitmap that has a bit for every frame. -/
def buddyMachine : Machine BuddyState BuddyOp where
  init s := ∃ ram bitmapLen totalFrames, totalFrames ≤ 64 * bitmapLen ∧
    s = ⟨BuddyAllocator.new ram bitmapLen totalFrames, fun _ => .outside⟩
  step := BuddyState.Step

end AthenaOS
