import AthenaOS.Lib.Dyadic
import AthenaOS.Lib.Linked
import AthenaOS.Memory.Buddy

/-!
# The free lists of the buddy allocator

The blocks on the lists are linked through memory, aligned and disjoint, with no two buddies among
them; bitmap and count agree with the lists.
-/

namespace AthenaOS

open Lib
open Function (update update_of_ne update_self)

/-- Frame `f` lies in one of the blocks. -/
def Covered (blocks : Nat → List Nat) (f : Nat) : Prop :=
  ∃ order addr, addr ∈ blocks order ∧ InBlock addr order f

/-- The frames of the blocks. -/
def freeCount (blocks : Nat → List Nat) : Nat :=
  ∑ order ∈ Finset.range maxOrder, 2 ^ order * (blocks order).length

/-- The blocks on the free lists. -/
structure FreeLists (s : BuddyAllocator) (blocks : Nat → List Nat) : Prop where
  linked : ∀ order < maxOrder, Linked s.next s.prev 0 (s.freeLists order) (blocks order)
  order_lt : ∀ order addr, addr ∈ blocks order → order < maxOrder
  aligned : ∀ order addr, addr ∈ blocks order → addr % 2 ^ (order + 12) = 0
  bounded : ∀ order addr, addr ∈ blocks order → addr / frameSize + 2 ^ order ≤ s.totalFrames
  nodup : ∀ order, (blocks order).Nodup
  disjoint : ∀ order addr order' addr' f, addr ∈ blocks order → addr' ∈ blocks order' →
    InBlock addr order f → InBlock addr' order' f → order = order' ∧ addr = addr'
  merged : ∀ order addr, order < maxOrder - 1 → addr ∈ blocks order →
    addr ^^^ 1 <<< (order + 12) ∉ blocks order

/-! ## Blocks and addresses -/

section Blocks

variable {addr order f : Nat}

theorem frame_aligned (h : addr % 2 ^ (order + 12) = 0) : addr % frameSize = 0 := by
  have hdvd : frameSize ∣ 2 ^ (order + 12) := Nat.pow_dvd_pow 2 (by omega : 12 ≤ order + 12)
  exact Nat.mod_eq_zero_of_dvd (hdvd.trans (Nat.dvd_of_mod_eq_zero h))

/-- An aligned block is a block of the dyadic kind. -/
theorem inBlock_iff (h : addr % 2 ^ (order + 12) = 0) :
    InBlock addr order f ↔ f / 2 ^ order = addr / 2 ^ (order + 12) := by
  obtain ⟨q, rfl⟩ := Nat.dvd_of_mod_eq_zero h
  have hbase : 2 ^ (order + 12) * q / frameSize = 2 ^ order * q := by
    rw [Nat.pow_add, show (2 : Nat) ^ 12 = frameSize from rfl, Nat.mul_right_comm,
      Nat.mul_div_cancel _ (by decide)]
  rw [InBlock, hbase, Nat.mul_div_cancel_left _ (Nat.two_pow_pos _), Nat.div_eq_iff (Nat.two_pow_pos _)]
  rw [Nat.mul_comm q, Nat.mul_comm]
  have hpos := Nat.two_pow_pos order
  omega

/-- The first frame of a block. -/
theorem inBlock_base (addr order : Nat) : InBlock addr order (addr / frameSize) :=
  ⟨Nat.le_refl _, Nat.lt_add_of_pos_right (Nat.two_pow_pos order)⟩

/-- The buddy of an aligned block is aligned. -/
theorem buddy_aligned (h : addr % 2 ^ (order + 12) = 0) :
    (addr ^^^ 1 <<< (order + 12)) % 2 ^ (order + 12) = 0 := by
  obtain ⟨q, rfl⟩ := Nat.dvd_of_mod_eq_zero h
  rw [Nat.mul_comm, mul_two_pow_xor]
  exact Nat.mul_mod_left _ _

theorem buddy_buddy (addr order : Nat) :
    addr ^^^ 1 <<< (order + 12) ^^^ 1 <<< (order + 12) = addr := by
  rw [Nat.xor_assoc, Nat.xor_self, Nat.xor_zero]

/-- The index of the buddy. -/
theorem buddy_index (h : addr % 2 ^ (order + 12) = 0) :
    (addr ^^^ 1 <<< (order + 12)) / 2 ^ (order + 12) = addr / 2 ^ (order + 12) ^^^ 1 := by
  obtain ⟨q, rfl⟩ := Nat.dvd_of_mod_eq_zero h
  rw [Nat.mul_comm, mul_two_pow_xor, Nat.mul_div_cancel _ (Nat.two_pow_pos _),
    Nat.mul_div_cancel _ (Nat.two_pow_pos _)]

/-- A block and its buddy make up the block at the smaller address, one order up. -/
theorem min_buddy (h : addr % 2 ^ (order + 12) = 0) :
    min addr (addr ^^^ 1 <<< (order + 12)) = addr / 2 ^ (order + 12) / 2 * 2 ^ (order + 1 + 12) := by
  obtain ⟨q, rfl⟩ := Nat.dvd_of_mod_eq_zero h
  rw [Nat.mul_comm, mul_two_pow_xor, Nat.mul_div_cancel _ (Nat.two_pow_pos _),
    Nat.mul_min_mul_right, min_xor_one, Nat.mul_comm 2, Nat.mul_assoc,
    ← Nat.pow_succ', Nat.add_right_comm]

theorem merged_aligned (h : addr % 2 ^ (order + 12) = 0) :
    min addr (addr ^^^ 1 <<< (order + 12)) % 2 ^ (order + 1 + 12) = 0 := by
  rw [min_buddy h]
  exact Nat.mul_mod_left _ _

/-- The frames of the merged block. -/
theorem inBlock_merged (h : addr % 2 ^ (order + 12) = 0) :
    InBlock (min addr (addr ^^^ 1 <<< (order + 12))) (order + 1) f ↔
      InBlock addr order f ∨ InBlock (addr ^^^ 1 <<< (order + 12)) order f := by
  rw [inBlock_iff (merged_aligned h), inBlock_iff h, inBlock_iff (buddy_aligned h), min_buddy h,
    buddy_index h, Nat.mul_div_cancel _ (Nat.two_pow_pos _), Nat.pow_succ, ← Nat.div_div_eq_div_mul]
  generalize addr / 2 ^ (order + 12) = q
  have hdiv := xor_one_div_two q
  have hmod := xor_one_mod_two q
  omega

/-- A block and its buddy are disjoint. -/
theorem buddy_disjoint (h : addr % 2 ^ (order + 12) = 0) (hf : InBlock addr order f) :
    ¬ InBlock (addr ^^^ 1 <<< (order + 12)) order f := by
  rw [inBlock_iff h] at hf
  rw [inBlock_iff (buddy_aligned h), buddy_index h, hf]
  exact (xor_one_ne _).symm

end Blocks

/-! ## Lists in memory -/

namespace FreeLists

variable {s : BuddyAllocator} {blocks : Nat → List Nat} {addr order : Nat}

theorem ne_zero (h : FreeLists s blocks) (ha : addr ∈ blocks order) : addr ≠ 0 :=
  (h.linked order (h.order_lt _ _ ha)).ne_zero ha

/-- A block is on one list only. -/
theorem order_eq (h : FreeLists s blocks) {order' : Nat} (ha : addr ∈ blocks order)
    (ha' : addr ∈ blocks order') : order = order' :=
  (h.disjoint _ _ _ _ _ ha ha' (inBlock_base addr order) (inBlock_base addr order')).1

theorem next_aligned (h : FreeLists s blocks) (ha : addr ∈ blocks order) :
    s.next addr = 0 ∨ s.next addr ∈ blocks order :=
  (h.linked order (h.order_lt _ _ ha)).next_mem ha

/-- The back link of a listed block: none for the head, else a block that links to it. -/
theorem prev_cases (h : FreeLists s blocks) (ha : addr ∈ blocks order) :
    (s.prev addr = 0 ∧ s.freeLists order = addr) ∨
      (s.prev addr ∈ blocks order ∧ s.freeLists order ≠ addr ∧ s.next (s.prev addr) = addr) := by
  have hlink := h.linked order (h.order_lt _ _ ha)
  by_cases hhead : s.freeLists order = addr
  · left
    refine ⟨?_, hhead⟩
    rw [← hhead]
    exact hlink.prev_head (by rw [hhead]; exact h.ne_zero ha)
  · right
    obtain ⟨hmem, hback⟩ := hlink.prev_mem ha hhead
    exact ⟨hmem, hhead, hback⟩

/-- Links of listed blocks are multiples of the frame size. -/
theorem link_aligned (h : FreeLists s blocks) {p : Nat} (hp : p = 0 ∨ p ∈ blocks order) :
    p % frameSize = 0 := by
  rcases hp with rfl | hp
  · rfl
  · exact frame_aligned (h.aligned _ _ hp)

end FreeLists

section Words

variable {s : BuddyAllocator} {addr order c : Nat}

/-- The first words after a block was taken off its list. -/
theorem popFromList_next (hc : c % frameSize = 0) (hne : c ≠ 0)
    (hn : s.next addr % frameSize = 0) :
    (s.popFromList addr order).next c = if c = s.prev addr then s.next addr else s.next c := by
  rw [frameSize] at hc hn
  have hram : ∀ ram : Nat → Nat, (if s.next addr ≠ 0 then
      update ram (s.next addr + 8) (s.prev addr) else ram) c = ram c := by
    intro ram
    split
    · exact update_of_ne (by omega) _ _
    · rfl
  show (if s.next addr ≠ 0 then update (β := fun _ => Nat) _ (s.next addr + 8)
    (s.prev addr) else _) c = _
  rw [hram]
  by_cases hp : s.prev addr = 0
  · rw [if_neg (by simpa using hp), if_neg (by omega)]
    rfl
  · rw [if_pos hp]
    by_cases hcp : c = s.prev addr
    · rw [if_pos hcp, hcp, update_self]
    · rw [if_neg hcp, update_of_ne hcp]
      rfl

/-- The second words after a block was taken off its list. -/
theorem popFromList_prev (hc : c % frameSize = 0) (hne : c ≠ 0)
    (hp : s.prev addr % frameSize = 0) :
    (s.popFromList addr order).prev c = if c = s.next addr then s.prev addr else s.prev c := by
  rw [frameSize] at hc hp
  have hram : (if s.prev addr ≠ 0 then
      update s.ram (s.prev addr) (s.next addr) else s.ram) (c + 8) = s.ram (c + 8) := by
    split
    · exact update_of_ne (by omega) _ _
    · rfl
  show (if s.next addr ≠ 0 then update (β := fun _ => Nat) _ (s.next addr + 8)
    (s.prev addr) else _) (c + 8) = _
  by_cases hn : s.next addr = 0
  · rw [if_neg (by simpa using hn), hram, if_neg (by omega)]
    rfl
  · rw [if_pos hn]
    by_cases hcn : c = s.next addr
    · rw [if_pos hcn, hcn, update_self]
    · rw [if_neg hcn, update_of_ne (by omega), hram]
      rfl

/-- The first words after a block was put on a list. -/
theorem pushToList_next (hc : c % frameSize = 0) (ha : addr % frameSize = 0)
    (hh : s.freeLists order % frameSize = 0) :
    (s.pushToList addr order).next c = if c = addr then s.freeLists order else s.next c := by
  rw [frameSize] at hc ha hh
  have hram : ∀ ram : Nat → Nat, (if s.freeLists order ≠ 0 then
      update ram (s.freeLists order + 8) addr else ram) c = ram c := by
    intro ram
    split
    · exact update_of_ne (by omega) _ _
    · rfl
  show (if s.freeLists order ≠ 0 then update (β := fun _ => Nat) _
    (s.freeLists order + 8) addr else _) c = _
  rw [hram, update_of_ne (by omega)]
  by_cases hca : c = addr
  · rw [if_pos hca, hca, update_self]
  · rw [if_neg hca, update_of_ne hca]
    rfl

/-- The second words after a block was put on a list. -/
theorem pushToList_prev (hc : c % frameSize = 0) (hne : c ≠ 0) (ha : addr % frameSize = 0) :
    (s.pushToList addr order).prev c =
      if c = s.freeLists order then addr else if c = addr then 0 else s.prev c := by
  rw [frameSize] at hc ha
  show (if s.freeLists order ≠ 0 then update (β := fun _ => Nat) _
    (s.freeLists order + 8) addr else _) (c + 8) = _
  have hinner : update (update s.ram addr (s.freeLists order)) (addr + 8) 0 (c + 8)
      = if c = addr then 0 else s.prev c := by
    by_cases hca : c = addr
    · rw [if_pos hca, hca, update_self]
    · rw [if_neg hca, update_of_ne (by omega), update_of_ne (by omega)]
      rfl
  by_cases hh : s.freeLists order = 0
  · rw [if_neg (by simpa using hh), if_neg (by omega), hinner]
  · rw [if_pos hh]
    by_cases hch : c = s.freeLists order
    · rw [if_pos hch, hch, update_self]
    · rw [if_neg hch, update_of_ne (by omega), hinner]

end Words

namespace FreeLists

variable {s : BuddyAllocator} {blocks : Nat → List Nat} {addr order : Nat}

/-- The lists without a block. -/
def without (blocks : Nat → List Nat) (addr order : Nat) : Nat → List Nat :=
  update blocks order ((blocks order).erase addr)

/-- The lists with one more block. -/
def withBlock (blocks : Nat → List Nat) (addr order : Nat) : Nat → List Nat :=
  update blocks order (addr :: blocks order)

theorem mem_of_mem_without {c o : Nat} (h : c ∈ without blocks addr order o) : c ∈ blocks o := by
  by_cases ho : o = order
  · subst ho
    rw [without, update_self] at h
    exact List.mem_of_mem_erase h
  · rwa [without, update_of_ne ho] at h

theorem mem_withBlock {c o : Nat} :
    c ∈ withBlock blocks addr order o ↔ (o = order ∧ c = addr) ∨ c ∈ blocks o := by
  by_cases ho : o = order
  · subst ho
    rw [withBlock, update_self, List.mem_cons]
    simp
  · rw [withBlock, update_of_ne ho]
    simp [ho]

/-- **`pop_from_list` takes a listed block off its list.** -/
theorem pop (h : FreeLists s blocks) (ha : addr ∈ blocks order) :
    FreeLists (s.popFromList addr order) (without blocks addr order) := by
  have hnext := h.link_aligned (h.next_aligned ha)
  have hprev : s.prev addr % frameSize = 0 := by
    rcases h.prev_cases ha with hcase | hcase
    · rw [hcase.1]
      rfl
    · exact h.link_aligned (.inr hcase.1)
  have hnode : ∀ o c, c ∈ blocks o → c % frameSize = 0 ∧ c ≠ 0 :=
    fun o c hc => ⟨frame_aligned (h.aligned _ _ hc), h.ne_zero hc⟩
  have hheads : (s.popFromList addr order).freeLists order =
      if s.freeLists order = addr then s.next addr else s.freeLists order := by
    show (if s.prev addr ≠ 0 then s.freeLists else update s.freeLists order (s.next addr))
      order = _
    rcases h.prev_cases ha with ⟨hzero, hhead⟩ | ⟨hmem, hhead, -⟩
    · rw [if_neg (by simpa using hzero), if_pos hhead, update_self]
    · rw [if_pos (h.ne_zero hmem), if_neg hhead]
  refine ⟨fun o ho => ?_, fun o c hc => h.order_lt _ _ (mem_of_mem_without hc),
    fun o c hc => h.aligned _ _ (mem_of_mem_without hc),
    fun o c hc => h.bounded _ _ (mem_of_mem_without hc), fun o => ?_, ?_, ?_⟩
  · by_cases hoo : o = order
    · subst hoo
      rw [without, update_self, hheads]
      refine (h.linked o ho).erase ha (h.nodup o) (fun hz => h.ne_zero hz rfl) ?_ ?_
      · exact fun c hc _ => popFromList_next (hnode _ c hc).1 (hnode _ c hc).2 hnext
      · exact fun c hc _ => popFromList_prev (hnode _ c hc).1 (hnode _ c hc).2 hprev
    · -- the other lists share no block with this one
      have hfar : ∀ c ∈ blocks o, ∀ p, p = 0 ∨ p ∈ blocks order → c ≠ p := by
        rintro c hc p (rfl | hp) rfl
        · exact h.ne_zero hc rfl
        · exact hoo (h.order_eq hc hp)
      have hheads' : (s.popFromList addr order).freeLists o = s.freeLists o := by
        show (if s.prev addr ≠ 0 then s.freeLists else
          update s.freeLists order (s.next addr)) o = _
        split
        · rfl
        · rw [update_of_ne hoo]
      rw [without, update_of_ne hoo, hheads']
      refine (h.linked o ho).congr (fun c hc => ?_) fun c hc => ?_
      · rw [popFromList_next (hnode _ c hc).1 (hnode _ c hc).2 hnext, if_neg]
        refine hfar c hc _ ?_
        rcases h.prev_cases ha with hcase | hcase
        · exact .inl hcase.1
        · exact .inr hcase.1
      · rw [popFromList_prev (hnode _ c hc).1 (hnode _ c hc).2 hprev, if_neg]
        exact hfar c hc _ (h.next_aligned ha)
  · by_cases hoo : o = order
    · subst hoo
      rw [without, update_self]
      exact (h.nodup o).erase addr
    · rw [without, update_of_ne hoo]
      exact h.nodup o
  · intro o c o' c' f hc hc'
    exact h.disjoint o c o' c' f (mem_of_mem_without hc) (mem_of_mem_without hc')
  · intro o c ho hc hbuddy
    exact h.merged o c ho (mem_of_mem_without hc) (mem_of_mem_without hbuddy)

/-- **`push_to_list` lists a block** that no listed block overlaps and whose buddy is not
listed. -/
theorem push (h : FreeLists s blocks) (horder : order < maxOrder)
    (ha : addr % 2 ^ (order + 12) = 0) (hne : addr ≠ 0)
    (hbound : addr / frameSize + 2 ^ order ≤ s.totalFrames)
    (hapart : ∀ f, InBlock addr order f → ¬ Covered blocks f)
    (hbuddy : order < maxOrder - 1 → addr ^^^ 1 <<< (order + 12) ∉ blocks order) :
    FreeLists (s.pushToList addr order) (withBlock blocks addr order) := by
  have haligned := frame_aligned ha
  have hnode : ∀ o c, c ∈ blocks o → c % frameSize = 0 ∧ c ≠ 0 :=
    fun o c hc => ⟨frame_aligned (h.aligned _ _ hc), h.ne_zero hc⟩
  have hfresh : ∀ o, addr ∉ blocks o := fun o hmem =>
    hapart _ (inBlock_base addr order) ⟨o, addr, hmem, inBlock_base addr o⟩
  have hhead : s.freeLists order = 0 ∨ s.freeLists order ∈ blocks order := by
    by_cases hzero : s.freeLists order = 0
    · exact .inl hzero
    · exact .inr ((h.linked order horder).head_mem hzero)
  have hheadal := h.link_aligned hhead
  refine ⟨fun o ho => ?_, fun o c hc => ?_, fun o c hc => ?_, fun o c hc => ?_, fun o => ?_, ?_, ?_⟩
  · by_cases hoo : o = order
    · subst hoo
      rw [withBlock, update_self]
      have hfirst : (s.pushToList addr o).freeLists o = addr := update_self ..
      rw [hfirst]
      refine (h.linked o ho).push hne (hfresh o) (h.nodup o) ?_ ?_ ?_ ?_ ?_
      · rw [pushToList_next haligned haligned hheadal, if_pos rfl]
      · rw [pushToList_prev haligned hne haligned, if_neg, if_pos rfl]
        rintro heq
        rcases hhead with hzero | hmem
        · exact hne (heq.trans hzero)
        · exact hfresh o (heq ▸ hmem)
      · intro hz
        rw [pushToList_prev hheadal hz haligned, if_pos rfl]
      · intro c hc
        rw [pushToList_next (hnode _ c hc).1 haligned hheadal, if_neg]
        rintro rfl
        exact hfresh _ hc
      · intro c hc hch
        rw [pushToList_prev (hnode _ c hc).1 (hnode _ c hc).2 haligned, if_neg hch, if_neg]
        rintro rfl
        exact hfresh _ hc
    · have hfirst : (s.pushToList addr order).freeLists o = s.freeLists o :=
        update_of_ne hoo ..
      rw [withBlock, update_of_ne hoo, hfirst]
      refine (h.linked o ho).congr (fun c hc => ?_) fun c hc => ?_
      · rw [pushToList_next (hnode _ c hc).1 haligned hheadal, if_neg]
        rintro rfl
        exact hfresh _ hc
      · rw [pushToList_prev (hnode _ c hc).1 (hnode _ c hc).2 haligned, if_neg, if_neg]
        · rintro rfl
          exact hfresh _ hc
        · rintro rfl
          rcases hhead with hzero | hmem
          · exact (hnode _ _ hc).2 hzero
          · exact hoo (h.order_eq hc hmem)
  · rcases mem_withBlock.mp hc with ⟨rfl, -⟩ | hc
    · exact horder
    · exact h.order_lt _ _ hc
  · rcases mem_withBlock.mp hc with ⟨rfl, rfl⟩ | hc
    · exact ha
    · exact h.aligned _ _ hc
  · rcases mem_withBlock.mp hc with ⟨rfl, rfl⟩ | hc
    · exact hbound
    · exact h.bounded _ _ hc
  · by_cases hoo : o = order
    · subst hoo
      rw [withBlock, update_self]
      exact List.nodup_cons.mpr ⟨hfresh o, h.nodup o⟩
    · rw [withBlock, update_of_ne hoo]
      exact h.nodup o
  · intro o c o' c' f hc hc' hf hf'
    rcases mem_withBlock.mp hc with ⟨ho, hca⟩ | hold <;>
      rcases mem_withBlock.mp hc' with ⟨ho', hca'⟩ | hold'
    · exact ⟨ho.trans ho'.symm, hca.trans hca'.symm⟩
    · exact absurd ⟨_, _, hold', hf'⟩ (hapart f (by rwa [ho, hca] at hf))
    · exact absurd ⟨_, _, hold, hf⟩ (hapart f (by rwa [ho', hca'] at hf'))
    · exact h.disjoint o c o' c' f hold hold' hf hf'
  · intro o c ho hc hb
    rcases mem_withBlock.mp hc with ⟨rfl, rfl⟩ | hold
    · rcases mem_withBlock.mp hb with ⟨-, heq⟩ | hb
      · exact buddy_disjoint ha (inBlock_base _ _) (by rw [heq]; exact inBlock_base _ _)
      · exact hbuddy ho hb
    · rcases mem_withBlock.mp hb with ⟨rfl, heq⟩ | hb
      · -- the listed block would be the buddy of the new one
        refine hbuddy ho ?_
        rw [← heq, buddy_buddy]
        exact hold
      · exact h.merged o c ho hold hb

end FreeLists

end AthenaOS
