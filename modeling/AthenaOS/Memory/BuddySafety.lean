import AthenaOS.Memory.FreeLists

/-!
# The buddy allocator is safe

In the middle of a call one block is off the lists. While it is, its buddy is on its list exactly
when the bitmap says so.
-/

namespace AthenaOS

open Lib FreeLists

/-! ## Counting -/

section Count

variable {blocks : Nat → List Nat} {addr order f : Nat}

/-- The count after one list was replaced. -/
theorem freeCount_update (blocks : Nat → List Nat) (horder : order < maxOrder) (l : List Nat) :
    freeCount (Function.update blocks order l) + 2 ^ order * (blocks order).length =
      freeCount blocks + 2 ^ order * l.length := by
  have hmem : order ∈ Finset.range maxOrder := Finset.mem_range.mpr horder
  have hrest : ∀ g : Nat → List Nat, freeCount g = 2 ^ order * (g order).length +
      ∑ o ∈ (Finset.range maxOrder).erase order, 2 ^ o * (g o).length :=
    fun g => (Finset.add_sum_erase _ _ hmem).symm
  have hsame : ∑ o ∈ (Finset.range maxOrder).erase order,
        2 ^ o * (Function.update blocks order l o).length =
      ∑ o ∈ (Finset.range maxOrder).erase order, 2 ^ o * (blocks o).length := by
    refine Finset.sum_congr rfl fun o ho => ?_
    rw [Function.update_of_ne (Finset.ne_of_mem_erase ho)]
  rw [hrest, hrest blocks, hsame, Function.update_self]
  omega

theorem freeCount_withBlock (horder : order < maxOrder) :
    freeCount (withBlock blocks addr order) = freeCount blocks + 2 ^ order := by
  have h := freeCount_update blocks horder (addr :: blocks order)
  rw [List.length_cons, Nat.mul_succ] at h
  rw [withBlock]
  omega

theorem freeCount_without (horder : order < maxOrder) (ha : addr ∈ blocks order) :
    freeCount (without blocks addr order) + 2 ^ order = freeCount blocks := by
  have h := freeCount_update blocks horder ((blocks order).erase addr)
  have hpos := List.length_pos_of_mem ha
  rw [List.length_erase_of_mem ha, Nat.mul_sub_one] at h
  have hle : 2 ^ order ≤ 2 ^ order * (blocks order).length := Nat.le_mul_of_pos_right _ hpos
  rw [without]
  omega

theorem covered_withBlock :
    Covered (withBlock blocks addr order) f ↔ InBlock addr order f ∨ Covered blocks f := by
  constructor
  · rintro ⟨o, c, hc, hf⟩
    rcases mem_withBlock.mp hc with ⟨rfl, rfl⟩ | hc
    · exact .inl hf
    · exact .inr ⟨o, c, hc, hf⟩
  · rintro (hf | ⟨o, c, hc, hf⟩)
    · exact ⟨order, addr, mem_withBlock.mpr (.inl ⟨rfl, rfl⟩), hf⟩
    · exact ⟨o, c, mem_withBlock.mpr (.inr hc), hf⟩

theorem covered_without {s : BuddyAllocator} (h : FreeLists s blocks) (ha : addr ∈ blocks order) :
    Covered (without blocks addr order) f ↔ Covered blocks f ∧ ¬ InBlock addr order f := by
  constructor
  · rintro ⟨o, c, hc, hf⟩
    refine ⟨⟨o, c, mem_of_mem_without hc, hf⟩, fun hf' => ?_⟩
    obtain ⟨rfl, rfl⟩ := h.disjoint _ _ _ _ f (mem_of_mem_without hc) ha hf hf'
    rw [without, Function.update_self] at hc
    exact (h.nodup o).not_mem_erase hc
  · rintro ⟨⟨o, c, hc, hf⟩, hout⟩
    refine ⟨o, c, ?_, hf⟩
    by_cases ho : o = order
    · subst ho
      rw [without, Function.update_self]
      refine (List.mem_erase_of_ne ?_).mpr hc
      rintro rfl
      exact hout hf
    · rwa [without, Function.update_of_ne ho]

end Count

/-! ## The middle of a call -/

/-- Lists, bitmap and count agree. -/
structure BuddyConsistent (s : BuddyAllocator) (blocks : Nat → List Nat) : Prop
    extends FreeLists s blocks where
  bitmap : ∀ f < s.totalFrames, s.used f = false ↔ Covered blocks f
  count : s.freeFrames = freeCount blocks

/-- One block is off the lists, and everything else agrees. -/
structure Pending (s : BuddyAllocator) (blocks : Nat → List Nat) (addr order : Nat) : Prop where
  lists : FreeLists s blocks
  words : s.totalFrames ≤ 64 * s.bitmapLen
  order_lt : order < maxOrder
  aligned : addr % 2 ^ (order + 12) = 0
  ne_zero : addr ≠ 0
  bounded : addr / frameSize + 2 ^ order ≤ s.totalFrames
  apart : ∀ f, InBlock addr order f → ¬ Covered blocks f
  bitmap : ∀ f < s.totalFrames, ¬ InBlock addr order f → (s.used f = false ↔ Covered blocks f)
  count : s.freeFrames = freeCount blocks + 2 ^ order

variable {order : Nat}

theorem isBlockFree_iff {s : BuddyAllocator} {addr : Nat} :
    s.isBlockFree addr order = true ↔
      ∀ f, InBlock addr order f → f < s.totalFrames ∧ f / 64 < s.bitmapLen ∧ s.used f = false := by
  rw [BuddyAllocator.isBlockFree, List.all_eq_true]
  constructor
  · rintro h f ⟨hlo, hhi⟩
    have hf := h (f - addr / frameSize) (List.mem_range.mpr (by omega))
    rw [Nat.add_sub_cancel' hlo] at hf
    simpa [and_assoc] using hf
  · intro h i hi
    have hf := h (addr / frameSize + i) ⟨Nat.le_add_right _ _, Nat.add_lt_add_left (List.mem_range.mp hi) _⟩
    simpa [and_assoc] using hf

namespace Pending

variable {s : BuddyAllocator} {blocks : Nat → List Nat} {addr order : Nat}

/-- A region next to the pending block, all of it free, is one listed block. -/
theorem buddy_listed (h : Pending s blocks addr order) (ho : order < maxOrder - 1)
    (hfree : ∀ f, InBlock (addr ^^^ 1 <<< (order + 12)) order f → Covered blocks f) :
    addr ^^^ 1 <<< (order + 12) ∈ blocks order := by
  have hal := buddy_aligned h.aligned
  -- listed blocks by order and index
  have hfull : ∀ f, f / 2 ^ order = (addr ^^^ 1 <<< (order + 12)) / 2 ^ (order + 12) →
      ∃ o q, q * 2 ^ (o + 12) ∈ blocks o ∧ f / 2 ^ o = q := by
    intro f hf
    obtain ⟨o, c, hc, hin⟩ := hfree f ((inBlock_iff hal).mpr hf)
    have hcal := h.lists.aligned _ _ hc
    refine ⟨o, c / 2 ^ (o + 12), ?_, (inBlock_iff hcal).mp hin⟩
    rwa [Nat.div_mul_cancel (Nat.dvd_of_mod_eq_zero hcal)]
  have hmerged : ∀ o q, o < maxOrder - 1 → 2 * q * 2 ^ (o + 12) ∈ blocks o →
      ¬ (2 * q + 1) * 2 ^ (o + 12) ∈ blocks o := by
    intro o q ho hq hq'
    refine h.lists.merged o _ ho hq ?_
    have hxor : 2 * q ^^^ 1 = 2 * q + 1 := by
      have hdiv := xor_one_div_two (2 * q)
      have hmod := xor_one_mod_two (2 * q)
      omega
    rwa [mul_two_pow_xor, hxor]
  obtain ⟨o, hle, hblock⟩ := exists_block_of_full (B := fun o q => q * 2 ^ (o + 12) ∈ blocks o)
    hmerged (Nat.le_of_lt ho) hfull
  rcases Nat.eq_or_lt_of_le hle with rfl | hlt
  · rwa [Nat.sub_self, Nat.pow_zero, Nat.div_one,
      Nat.div_mul_cancel (Nat.dvd_of_mod_eq_zero hal)] at hblock
  · -- a larger block around the buddy would also contain the pending block
    exfalso
    refine h.apart _ (inBlock_base addr order) ⟨o, _, hblock, ?_⟩
    have hin := (inBlock_iff h.aligned).mp (inBlock_base addr order)
    rw [inBlock_iff (Nat.mul_mod_left _ _), Nat.mul_div_cancel _ (Nat.two_pow_pos _),
      div_pow_of_le hle hin, buddy_index h.aligned]
    generalize addr / 2 ^ (order + 12) = q
    rw [show o - order = 1 + (o - order - 1) by omega, Nat.pow_add, ← Nat.div_div_eq_div_mul,
      ← Nat.div_div_eq_div_mul, Nat.pow_one, xor_one_div_two]

/-- **`block_on_free_list` tells the truth** about the buddy of a block that is being
freed. -/
theorem blockOnFreeList_iff (h : Pending s blocks addr order) (ho : order < maxOrder - 1) :
    s.blockOnFreeList (addr ^^^ 1 <<< (order + 12)) order = true ↔
      addr ^^^ 1 <<< (order + 12) ∈ blocks order := by
  have hout : ∀ f, InBlock (addr ^^^ 1 <<< (order + 12)) order f → ¬ InBlock addr order f :=
    fun f hf hin => buddy_disjoint h.aligned hin hf
  constructor
  · intro hlist
    simp only [BuddyAllocator.blockOnFreeList, Bool.and_eq_true] at hlist
    refine h.buddy_listed ho fun f hf => ?_
    obtain ⟨hlt, -, hbit⟩ := isBlockFree_iff.mp hlist.1.1.1 f hf
    exact (h.bitmap f hlt (hout f hf)).mp hbit
  · intro hmem
    have hbound := h.lists.bounded _ _ hmem
    have hfree : s.isBlockFree (addr ^^^ 1 <<< (order + 12)) order = true := by
      refine isBlockFree_iff.mpr fun f hf => ?_
      have hlt : f < s.totalFrames := Nat.lt_of_lt_of_le hf.2 hbound
      have hwords := h.words
      exact ⟨hlt, by omega, (h.bitmap f hlt (hout f hf)).mpr ⟨_, _, hmem, hf⟩⟩
    have hvalid : ∀ p, p = 0 ∨ p ∈ blocks order → s.validLink p = true := by
      rintro p (rfl | hp)
      · rfl
      · have hpal := frame_aligned (h.lists.aligned _ _ hp)
        have hplt := h.lists.bounded _ _ hp
        have hpos := Nat.two_pow_pos order
        have hlt : p < s.maxAddr := by
          rw [BuddyAllocator.maxAddr, frameSize]
          rw [frameSize] at hplt
          omega
        rw [BuddyAllocator.validLink, decide_eq_true hlt, decide_eq_true hpal, Bool.and_self,
          Bool.or_true]
    rw [BuddyAllocator.blockOnFreeList, hfree, hvalid _ (h.lists.next_aligned hmem)]
    rcases h.lists.prev_cases hmem with ⟨hzero, hhead⟩ | ⟨hprev, -, hback⟩
    · rw [hvalid _ (.inl hzero), if_pos hzero]
      simpa using hhead
    · rw [hvalid _ (.inr hprev), if_neg (h.lists.ne_zero hprev)]
      simpa using hback

/-- Merging with a listed buddy. -/
theorem merge (h : Pending s blocks addr order) (ho : order < maxOrder - 1)
    (hmem : addr ^^^ 1 <<< (order + 12) ∈ blocks order) :
    Pending (s.popFromList (addr ^^^ 1 <<< (order + 12)) order)
      (without blocks (addr ^^^ 1 <<< (order + 12)) order)
      (min addr (addr ^^^ 1 <<< (order + 12))) (order + 1) where
  lists := h.lists.pop hmem
  words := h.words
  order_lt := by omega
  aligned := merged_aligned h.aligned
  ne_zero := by
    have hne := h.ne_zero
    have hne' := h.lists.ne_zero hmem
    omega
  bounded := by
    show _ ≤ s.totalFrames
    -- the last frame of the merged block is a frame of one of the two
    have hlast : InBlock (min addr (addr ^^^ 1 <<< (order + 12))) (order + 1)
        (min addr (addr ^^^ 1 <<< (order + 12)) / frameSize + (2 ^ (order + 1) - 1)) :=
      ⟨Nat.le_add_right _ _, Nat.add_lt_add_left (Nat.sub_lt (Nat.two_pow_pos _) (by decide)) _⟩
    have hpos := Nat.two_pow_pos (order + 1)
    have hbound := h.bounded
    have hbound' := h.lists.bounded _ _ hmem
    rcases (inBlock_merged h.aligned).mp hlast with hin | hin
    · have := hin.2
      omega
    · have := hin.2
      omega
  apart f hf hcov := by
    obtain ⟨hold, hout⟩ := (covered_without h.lists hmem).mp hcov
    rcases (inBlock_merged h.aligned).mp hf with hin | hin
    · exact h.apart f hin hold
    · exact hout hin
  bitmap f hlt hf := by
    rw [inBlock_merged h.aligned, not_or] at hf
    rw [covered_without h.lists hmem]
    exact (h.bitmap f hlt hf.1).trans ⟨fun hcov => ⟨hcov, hf.2⟩, And.left⟩
  count := by
    have hcount := freeCount_without h.order_lt hmem
    have hbefore := h.count
    show s.freeFrames = _
    rw [Nat.pow_succ]
    omega

/-- **The merge loop** ends with a pending block whose buddy is not listed. Its frames and
the listed ones are together the same as before. -/
theorem mergeBuddies (h : Pending s blocks addr order) :
    ∃ s' addr' order' blocks', s.mergeBuddies addr order = (s', addr', order') ∧
      Pending s' blocks' addr' order' ∧
      (order' < maxOrder - 1 → addr' ^^^ 1 <<< (order' + 12) ∉ blocks' order') ∧
      (∀ f, InBlock addr' order' f ∨ Covered blocks' f ↔ InBlock addr order f ∨ Covered blocks f) ∧
      s'.totalFrames = s.totalFrames ∧ s'.bitmapLen = s.bitmapLen := by
  induction hn : maxOrder - 1 - order generalizing s blocks addr order with
  | zero =>
    have hge : ¬ order < maxOrder - 1 := by omega
    rw [BuddyAllocator.mergeBuddies, if_neg hge]
    exact ⟨s, addr, order, blocks, rfl, h, fun hlt => absurd hlt hge, fun _ => Iff.rfl, rfl, rfl⟩
  | succ n ih =>
    have ho : order < maxOrder - 1 := by omega
    rw [BuddyAllocator.mergeBuddies, if_pos ho]
    dsimp only
    split
    · rename_i hlist
      have hmem := (h.blockOnFreeList_iff ho).mp hlist
      obtain ⟨s', addr', order', blocks', hrun, hpend, hbuddy, hframes, htotal, hlen⟩ :=
        ih (h.merge ho hmem) (by omega)
      refine ⟨s', addr', order', blocks', hrun, hpend, hbuddy, fun f => ?_, htotal, hlen⟩
      rw [hframes f, inBlock_merged h.aligned, covered_without h.lists hmem]
      have hcov : InBlock (addr ^^^ 1 <<< (order + 12)) order f → Covered blocks f :=
        fun hf => ⟨_, _, hmem, hf⟩
      tauto
    · rename_i hlist
      exact ⟨s, addr, order, blocks, rfl, h,
        fun _ hmem => hlist ((h.blockOnFreeList_iff ho).mpr hmem), fun _ => Iff.rfl, rfl, rfl⟩

/-- Listing the pending block ends the call. -/
theorem listBlock (h : Pending s blocks addr order)
    (hbuddy : order < maxOrder - 1 → addr ^^^ 1 <<< (order + 12) ∉ blocks order) :
    BuddyConsistent (s.listBlock addr order) (withBlock blocks addr order) := by
  have hlists := h.lists.push h.order_lt h.aligned h.ne_zero h.bounded h.apart hbuddy
  refine ⟨⟨hlists.linked, hlists.order_lt, hlists.aligned, hlists.bounded, hlists.nodup,
    hlists.disjoint, hlists.merged⟩, fun f hf => ?_, ?_⟩
  · have hlt : f < s.totalFrames := hf
    have hwords := h.words
    rw [covered_withBlock]
    show (if addr / frameSize ≤ f ∧ f < addr / frameSize + 2 ^ order ∧ f / 64 < s.bitmapLen then false
      else s.used f) = false ↔ _
    by_cases hin : InBlock addr order f
    · rw [if_pos ⟨hin.1, hin.2, by omega⟩]
      exact ⟨fun _ => .inl hin, fun _ => rfl⟩
    · rw [if_neg fun hc => hin ⟨hc.1, hc.2.1⟩, h.bitmap f hlt hin]
      exact ⟨.inr, fun hc => hc.resolve_left hin⟩
  · show s.freeFrames = _
    rw [h.count, freeCount_withBlock h.order_lt]

/-- The upper half of a block is the buddy of the lower one. -/
theorem upper_half (h : addr % 2 ^ (order + 1 + 12) = 0) :
    addr % 2 ^ (order + 12) = 0 ∧ addr + 1 <<< (order + 12) = addr ^^^ 1 <<< (order + 12) ∧
      min addr (addr ^^^ 1 <<< (order + 12)) = addr := by
  have hpow : 2 ^ (order + 1 + 12) = 2 * 2 ^ (order + 12) := by
    rw [Nat.add_right_comm, Nat.pow_succ']
  obtain ⟨q, rfl⟩ := Nat.dvd_of_mod_eq_zero h
  have hxor : 2 * q ^^^ 1 = 2 * q + 1 := by
    have hdiv := xor_one_div_two (2 * q)
    have hmod := xor_one_mod_two (2 * q)
    omega
  rw [hpow, Nat.mul_right_comm, mul_two_pow_xor, hxor, Nat.one_shiftLeft]
  refine ⟨Nat.mul_mod_left _ _, (Nat.succ_mul _ _).symm, Nat.min_eq_left ?_⟩
  exact Nat.mul_le_mul_right _ (Nat.le_succ _)

/-- One step of the split: the upper half goes to its list. -/
theorem split (h : Pending s blocks addr (order + 1))
    (hbits : ∀ f, InBlock addr (order + 1) f → s.used f = false) :
    Pending (s.pushToList (addr + 1 <<< (order + 12)) order)
      (withBlock blocks (addr + 1 <<< (order + 12)) order) addr order ∧
      ∀ f, InBlock addr (order + 1) f ↔
        InBlock addr order f ∨ InBlock (addr + 1 <<< (order + 12)) order f := by
  obtain ⟨hal, hupper, hmin⟩ := upper_half h.aligned
  have hhalves : ∀ f, InBlock addr (order + 1) f ↔
      InBlock addr order f ∨ InBlock (addr + 1 <<< (order + 12)) order f := by
    intro f
    have hmerged := inBlock_merged (f := f) hal
    rwa [hmin, ← hupper] at hmerged
  have horder : order < maxOrder := by
    have := h.order_lt
    omega
  have hpos := Nat.two_pow_pos order
  have hbound : ∀ a, (∀ f, InBlock a order f → InBlock addr (order + 1) f) →
      a / frameSize + 2 ^ order ≤ s.totalFrames := by
    intro a ha
    have hlast := (ha (a / frameSize + (2 ^ order - 1)) ⟨Nat.le_add_right _ _, by omega⟩).2
    have hbounded := h.bounded
    omega
  refine ⟨⟨?_, h.words, horder, hal, h.ne_zero, ?_, ?_, ?_, ?_⟩, hhalves⟩
  · refine h.lists.push horder ?_ ?_ ?_ ?_ ?_
    · rw [hupper]
      exact buddy_aligned hal
    · have hne := h.ne_zero
      omega
    · exact hbound _ fun f hf => (hhalves f).mpr (.inr hf)
    · exact fun f hf => h.apart f ((hhalves f).mpr (.inr hf))
    · intro _ hmem
      rw [hupper, buddy_buddy] at hmem
      exact h.apart _ (inBlock_base addr (order + 1)) ⟨order, addr, hmem, inBlock_base addr order⟩
  · exact hbound _ fun f hf => (hhalves f).mpr (.inl hf)
  · intro f hf hcov
    rcases covered_withBlock.mp hcov with hin | hcov
    · rw [hupper] at hin
      exact buddy_disjoint hal hf hin
    · exact h.apart f ((hhalves f).mpr (.inl hf)) hcov
  · intro f hlt hf
    show s.used f = false ↔ _
    rw [covered_withBlock]
    by_cases hin : InBlock (addr + 1 <<< (order + 12)) order f
    · have hbit := hbits f ((hhalves f).mpr (.inr hin))
      exact ⟨fun _ => .inl hin, fun _ => hbit⟩
    · have hout : ¬ InBlock addr (order + 1) f := by
        rw [hhalves f, not_or]
        exact ⟨hf, hin⟩
      rw [h.bitmap f hlt hout]
      exact ⟨.inr, fun hc => hc.resolve_left hin⟩
  · show s.freeFrames = _
    rw [h.count, freeCount_withBlock horder, Nat.pow_succ]
    omega

/-- **The split loop** lists everything but the block that is handed out. -/
theorem splitBlock {k : Nat} (h : Pending s blocks addr (order + k))
    (hbits : ∀ f, InBlock addr (order + k) f → s.used f = false) :
    ∃ blocks', Pending (s.splitBlock addr order k) blocks' addr order ∧
      (∀ f, InBlock addr order f ∨ Covered blocks' f ↔
        InBlock addr (order + k) f ∨ Covered blocks f) ∧
      (∀ f, InBlock addr order f → InBlock addr (order + k) f) ∧
      (s.splitBlock addr order k).totalFrames = s.totalFrames ∧
      (s.splitBlock addr order k).bitmapLen = s.bitmapLen := by
  induction k generalizing s blocks with
  | zero => exact ⟨blocks, h, fun _ => Iff.rfl, fun _ hf => hf, rfl, rfl⟩
  | succ k ih =>
    have hwhole : Pending s blocks addr (order + k + 1) := h
    obtain ⟨hpend, hhalves⟩ := hwhole.split hbits
    obtain ⟨blocks', hpend', hframes, hsub, htotal, hlen⟩ :=
      ih hpend fun f hf => hbits f ((hhalves f).mpr (.inl hf))
    refine ⟨blocks', hpend', fun f => ?_, fun f hf => (hhalves f).mpr (.inl (hsub f hf)), htotal, hlen⟩
    rw [hframes f, covered_withBlock, ← or_assoc, ← hhalves f, Nat.add_assoc]

end Pending

/-! ## Calls -/

/-- `alloc_block` without a free block changes nothing. -/
theorem allocBlock_none {b : BuddyAllocator} (halloc : (b.allocBlock order).1 = none) :
    (b.allocBlock order).2 = b := by
  rw [BuddyAllocator.allocBlock] at halloc ⊢
  split
  · rfl
  · rename_i hfind
    rw [hfind] at halloc
    exact absurd halloc (by simp)

theorem not_covered_nil (f : Nat) : ¬ Covered (fun _ => []) f := by
  rintro ⟨o, c, hc, -⟩
  exact absurd hc List.not_mem_nil

namespace BuddyConsistent

variable {s : BuddyAllocator} {blocks : Nat → List Nat} {addr order : Nat}

/-- A block all of whose frames are free is left alone. -/
theorem freeBlock_free (h : BuddyConsistent s blocks) (hwords : s.totalFrames ≤ 64 * s.bitmapLen)
    (hlt : ∀ f, InBlock addr order f → f < s.totalFrames)
    (hcov : ∀ f, InBlock addr order f → Covered blocks f) : s.freeBlock addr order = some s := by
  have hfree : s.isBlockFree addr order = true := by
    refine isBlockFree_iff.mpr fun f hf => ?_
    have hf' := hlt f hf
    exact ⟨hf', by omega, (h.bitmap f hf').mpr (hcov f hf)⟩
  rw [BuddyAllocator.freeBlock, if_pos hfree]

/-- **`free_block` adds the block's frames to the free ones.** -/
theorem freeBlock (h : BuddyConsistent s blocks) (hwords : s.totalFrames ≤ 64 * s.bitmapLen)
    (horder : order < maxOrder) (hal : addr % 2 ^ (order + 12) = 0) (hne : addr ≠ 0)
    (hbound : addr / frameSize + 2 ^ order ≤ s.totalFrames)
    (hout : ∀ f, InBlock addr order f → ¬ Covered blocks f) :
    ∃ s' blocks', s.freeBlock addr order = some s' ∧ BuddyConsistent s' blocks' ∧
      (∀ f, Covered blocks' f ↔ InBlock addr order f ∨ Covered blocks f) ∧
      s'.totalFrames = s.totalFrames ∧ s'.bitmapLen = s.bitmapLen := by
  have hused : ¬ s.isBlockFree addr order = true := by
    intro hfree
    obtain ⟨hlt, -, hbit⟩ := isBlockFree_iff.mp hfree _ (inBlock_base addr order)
    exact hout _ (inBlock_base addr order) ((h.bitmap _ hlt).mp hbit)
  have hpend : Pending { s with freeFrames := s.freeFrames + 2 ^ order } blocks addr order := by
    refine ⟨⟨h.linked, h.order_lt, h.aligned, h.bounded, h.nodup, h.disjoint, h.merged⟩, hwords,
      horder, hal, hne, hbound, hout, fun f hf _ => h.bitmap f hf, ?_⟩
    show s.freeFrames + 2 ^ order = _
    rw [h.count]
  obtain ⟨s', addr', order', blocks', hrun, hpend', hbuddy, hframes, htotal, hlen⟩ :=
    hpend.mergeBuddies
  refine ⟨s'.listBlock addr' order', _, ?_, hpend'.listBlock hbuddy, fun f => ?_, htotal, hlen⟩
  · rw [BuddyAllocator.freeBlock, if_neg hused, if_neg (by omega), hrun]
  · rw [covered_withBlock, hframes f]

/-- Freeing a block that is not free panics, unless its order is one of the lists'. -/
theorem order_lt_of_freeBlock {s' : BuddyAllocator} (h : BuddyConsistent s blocks)
    (hout : ∀ f, InBlock addr order f → ¬ Covered blocks f)
    (hrun : s.freeBlock addr order = some s') : order < maxOrder := by
  by_contra hge
  rw [BuddyAllocator.freeBlock, if_pos (Nat.le_of_not_lt hge)] at hrun
  split at hrun
  · rename_i hfree
    obtain ⟨hlt, -, hbit⟩ := isBlockFree_iff.mp hfree _ (inBlock_base addr order)
    exact hout _ (inBlock_base addr order) ((h.bitmap _ hlt).mp hbit)
  · exact nomatch hrun

/-- **`alloc_block` hands out free frames**, and only they stop being free. -/
theorem allocBlock (h : BuddyConsistent s blocks) (hwords : s.totalFrames ≤ 64 * s.bitmapLen)
    (halloc : (s.allocBlock order).1 = some addr) :
    (∀ f, InBlock addr order f → Covered blocks f) ∧
      ∃ blocks', BuddyConsistent (s.allocBlock order).2 blocks' ∧
        (∀ f, Covered blocks' f ↔ Covered blocks f ∧ ¬ InBlock addr order f) ∧
        (s.allocBlock order).2.totalFrames = s.totalFrames ∧
        (s.allocBlock order).2.bitmapLen = s.bitmapLen := by
  rw [BuddyAllocator.allocBlock] at halloc ⊢
  cases hfind : (List.range' order (maxOrder - order)).find? fun o => s.freeLists o ≠ 0 with
  | none =>
    rw [hfind] at halloc
    exact absurd halloc (by simp)
  | some o =>
    rw [hfind] at halloc
    dsimp only at halloc ⊢
    have haddr : s.freeLists o = addr := Option.some.inj halloc
    rw [haddr]
    rw [List.find?_range'_eq_some] at hfind
    obtain ⟨hhead, hmem, -⟩ := hfind
    rw [List.mem_range'_1] at hmem
    have ho : o < maxOrder := by omega
    have hne : s.freeLists o ≠ 0 := by simpa using hhead
    have hlisted : addr ∈ blocks o := haddr ▸ (h.linked o ho).head_mem hne
    obtain ⟨k, rfl⟩ := Nat.exists_eq_add_of_le hmem.1
    rw [Nat.add_sub_cancel_left]
    have hbound := h.bounded _ _ hlisted
    have hcovered : ∀ f, InBlock addr (order + k) f → Covered blocks f :=
      fun f hf => ⟨_, _, hlisted, hf⟩
    -- the whole block is off its list, then split down
    have hpend : Pending (s.popFromList addr (order + k)) (FreeLists.without blocks addr (order + k))
        addr (order + k) := by
      refine ⟨h.toFreeLists.pop hlisted, hwords, ho, h.aligned _ _ hlisted,
        h.toFreeLists.ne_zero hlisted, hbound, ?_, ?_, ?_⟩
      · exact fun f hf hcov => ((covered_without h.toFreeLists hlisted).mp hcov).2 hf
      · intro f hlt hf
        rw [covered_without h.toFreeLists hlisted]
        exact (h.bitmap f hlt).trans ⟨fun hc => ⟨hc, hf⟩, And.left⟩
      · show s.freeFrames = _
        rw [h.count, freeCount_without ho hlisted]
    have hbits : ∀ f, InBlock addr (order + k) f → (s.popFromList addr (order + k)).used f = false :=
      fun f hf => (h.bitmap f (Nat.lt_of_lt_of_le hf.2 hbound)).mpr (hcovered f hf)
    obtain ⟨blocks', hsplit, hframes, hsub, htotal, hlen⟩ := hpend.splitBlock hbits
    refine ⟨fun f hf => hcovered f (hsub f hf), blocks', ⟨⟨hsplit.lists.linked, hsplit.lists.order_lt,
      hsplit.lists.aligned, hsplit.lists.bounded, hsplit.lists.nodup, hsplit.lists.disjoint,
      hsplit.lists.merged⟩, fun f hf => ?_, ?_⟩, fun f => ?_, htotal, hlen⟩
    · have hlt : f < ((s.popFromList addr (order + k)).splitBlock addr order k).totalFrames := hf
      have hwords' := hsplit.words
      show (if addr / frameSize ≤ f ∧ f < addr / frameSize + 2 ^ order ∧ f / 64 <
        ((s.popFromList addr (order + k)).splitBlock addr order k).bitmapLen then true
        else ((s.popFromList addr (order + k)).splitBlock addr order k).used f) = false ↔ _
      by_cases hin : InBlock addr order f
      · rw [if_pos ⟨hin.1, hin.2, by omega⟩]
        exact ⟨fun hc => absurd hc (by decide), fun hc => absurd hc (hsplit.apart f hin)⟩
      · rw [if_neg fun hc => hin ⟨hc.1, hc.2.1⟩]
        exact hsplit.bitmap f hlt hin
    · show ((s.popFromList addr (order + k)).splitBlock addr order k).freeFrames - 2 ^ order = _
      rw [hsplit.count, Nat.add_sub_cancel]
    · have hf := hframes f
      rw [covered_without h.toFreeLists hlisted] at hf
      have hcov := hcovered f
      have hapart := hsplit.apart f
      tauto

variable {stop : Nat}

/-- The order `add_range` picks is one of a block that is aligned and fits. -/
theorem fitOrder_spec (horder : order < maxOrder) (hal : addr % 2 ^ (order + 12) = 0)
    (hfit : addr + 2 ^ (order + 12) ≤ stop) :
    BuddyAllocator.fitOrder addr stop order < maxOrder ∧
      addr % 2 ^ (BuddyAllocator.fitOrder addr stop order + 12) = 0 ∧
      addr + 2 ^ (BuddyAllocator.fitOrder addr stop order + 12) ≤ stop := by
  induction hn : maxOrder - 1 - order generalizing order with
  | zero =>
    rw [BuddyAllocator.fitOrder, if_neg (by omega)]
    exact ⟨horder, hal, hfit⟩
  | succ n ih =>
    rw [BuddyAllocator.fitOrder, if_pos (by omega), Nat.one_shiftLeft]
    dsimp only
    split
    · exact ⟨horder, hal, hfit⟩
    · rename_i hmore
      rw [not_or, not_not] at hmore
      exact ih (by omega) hmore.1 (by omega) (by omega)

/-- **`add_range` adds the frames of the range to the free ones.** -/
theorem addRangeFrom (h : BuddyConsistent s blocks) (hwords : s.totalFrames ≤ 64 * s.bitmapLen)
    (hstop : stop ≤ s.maxAddr) (hstopal : stop % frameSize = 0) (hal : addr % frameSize = 0)
    (hne : addr < stop → addr ≠ 0)
    (hout : ∀ f, addr / frameSize ≤ f → f < stop / frameSize → ¬ Covered blocks f) :
    ∃ s' blocks', BuddyAllocator.addRangeFrom stop s addr = some s' ∧ BuddyConsistent s' blocks' ∧
      (∀ f, Covered blocks' f ↔
        (addr / frameSize ≤ f ∧ f < stop / frameSize) ∨ Covered blocks f) ∧
      s'.totalFrames = s.totalFrames ∧ s'.bitmapLen = s.bitmapLen := by
  induction hn : stop - addr using Nat.strong_induction_on generalizing s blocks addr with
  | _ n ih =>
    rw [BuddyAllocator.addRangeFrom]
    by_cases hlt : addr < stop
    · rw [if_pos ⟨hlt, by omega⟩]
      -- the chunk: aligned, inside the range
      have hpage : addr + 2 ^ (0 + 12) ≤ stop := by
        rw [frameSize] at hal hstopal
        omega
      obtain ⟨horder, hfit, hend⟩ := fitOrder_spec (by decide) hal hpage
      dsimp only
      generalize BuddyAllocator.fitOrder addr stop 0 = order at horder hfit hend ⊢
      have hpow : 2 ^ (order + 12) = 2 ^ order * frameSize := Nat.pow_add 2 order 12
      have hpos := Nat.two_pow_pos order
      have hnext : (addr + 2 ^ (order + 12)) / frameSize = addr / frameSize + 2 ^ order := by
        rw [hpow, Nat.add_mul_div_right _ _ (by decide)]
      have hlast : addr / frameSize + 2 ^ order ≤ stop / frameSize := by
        rw [← hnext]
        exact Nat.div_le_div_right hend
      have hmax : stop / frameSize ≤ s.totalFrames := by
        rw [BuddyAllocator.maxAddr] at hstop
        exact Nat.div_le_of_le_mul (by rwa [Nat.mul_comm])
      obtain ⟨s₁, blocks₁, hrun, hcons, hframes, htotal, hlen⟩ := h.freeBlock hwords horder hfit
        (hne hlt) (by omega) fun f hf => hout f hf.1 (by have := hf.2; omega)
      rw [hrun]
      dsimp only
      rw [Nat.one_shiftLeft]
      have hal' : (addr + 2 ^ (order + 12)) % frameSize = 0 := by
        rw [hpow, Nat.add_mul_mod_self_right, hal]
      have hmaxaddr : s₁.maxAddr = s.maxAddr := by
        rw [BuddyAllocator.maxAddr, BuddyAllocator.maxAddr, htotal]
      obtain ⟨s', blocks', hrest, hcons', hframes', htotal', hlen'⟩ :=
        ih (stop - (addr + 2 ^ (order + 12))) (by have := Nat.two_pow_pos (order + 12); omega) hcons
          (by rw [htotal, hlen]; exact hwords) (by rw [hmaxaddr]; exact hstop) hal' (by omega)
          (by
            intro f hlo hhi
            rw [hnext] at hlo
            rw [hframes f, not_or]
            exact ⟨fun hf => by have := hf.2; omega, hout f (by omega) hhi⟩) rfl
      refine ⟨s', blocks', hrest, hcons', fun f => ?_, htotal'.trans htotal, hlen'.trans hlen⟩
      rw [hframes' f, hframes f, hnext, InBlock]
      constructor
      · rintro (⟨hlo, hhi⟩ | ⟨hlo, hhi⟩ | hcov)
        · exact .inl ⟨by omega, hhi⟩
        · exact .inl ⟨hlo, by omega⟩
        · exact .inr hcov
      · rintro (⟨hlo, hhi⟩ | hcov)
        · by_cases hchunk : f < addr / frameSize + 2 ^ order
          · exact .inr (.inl ⟨hlo, hchunk⟩)
          · exact .inl ⟨by omega, hhi⟩
        · exact .inr (.inr hcov)
    · rw [if_neg fun hc => hlt hc.1]
      refine ⟨s, blocks, rfl, h, fun f => ⟨.inr, ?_⟩, rfl, rfl⟩
      rintro (⟨hlo, hhi⟩ | hcov)
      · have hle : stop / frameSize ≤ addr / frameSize := Nat.div_le_div_right (by omega)
        omega
      · exact hcov

/-- **`add_range`**, whose start is rounded up to a page. -/
theorem addRange {start : Nat} (h : BuddyConsistent s blocks)
    (hwords : s.totalFrames ≤ 64 * s.bitmapLen) (hstop : stop ≤ s.maxAddr)
    (hstopal : stop % frameSize = 0) (hne : start < stop → 0 < start)
    (hout : ∀ f, start ≤ f * frameSize → f * frameSize < stop → ¬ Covered blocks f) :
    ∃ s' blocks', s.addRange start stop = some s' ∧ BuddyConsistent s' blocks' ∧
      (∀ f, Covered blocks' f ↔
        (start ≤ f * frameSize ∧ f * frameSize < stop) ∨ Covered blocks f) ∧
      s'.totalFrames = s.totalFrames ∧ s'.bitmapLen = s.bitmapLen := by
  have hround : stop / frameSize * frameSize = stop :=
    Nat.div_mul_cancel (Nat.dvd_of_mod_eq_zero hstopal)
  have hframes : ∀ f, ((start + (frameSize - 1)) / frameSize * frameSize / frameSize ≤ f ∧
      f < stop / frameSize) ↔ (start ≤ f * frameSize ∧ f * frameSize < stop) := by
    intro f
    rw [Nat.mul_div_cancel _ (by decide)]
    rw [frameSize] at hstopal ⊢
    omega
  rw [BuddyAllocator.addRange, hround]
  obtain ⟨s', blocks', hrun, hcons, hcov, htotal, hlen⟩ :=
    h.addRangeFrom hwords hstop hstopal (Nat.mul_mod_left _ _)
      (fun hlt => by rw [frameSize] at hlt ⊢; omega)
      fun f hlo hhi => hout f ((hframes f).mp ⟨hlo, hhi⟩).1 ((hframes f).mp ⟨hlo, hhi⟩).2
  exact ⟨s', blocks', hrun, hcons, fun f => by rw [hcov f, hframes f], htotal, hlen⟩

/-- A store outside the free frames leaves every list node alone. -/
theorem store (h : BuddyConsistent s blocks) (value : Nat)
    (hout : ¬ Covered blocks (addr / frameSize)) :
    BuddyConsistent { s with ram := Function.update s.ram addr value } blocks := by
  have hfar : ∀ o c, c ∈ blocks o → c ≠ addr ∧ c + 8 ≠ addr := by
    intro o c hc
    have hal := frame_aligned (h.aligned _ _ hc)
    have hframe : c / frameSize ≠ addr / frameSize := by
      intro heq
      exact hout ⟨o, c, hc, heq ▸ inBlock_base c o⟩
    rw [frameSize] at hal hframe
    omega
  refine ⟨⟨fun o ho => (h.linked o ho).congr (fun c hc => ?_) fun c hc => ?_, h.order_lt, h.aligned,
    h.bounded, h.nodup, h.disjoint, h.merged⟩, h.bitmap, h.count⟩
  · exact Function.update_of_ne (hfar o c hc).1 ..
  · exact Function.update_of_ne (hfar o c hc).2 ..

/-- A new allocator has no block. -/
theorem new (ram : Nat → Nat) (bitmapLen totalFrames : Nat) :
    BuddyConsistent (BuddyAllocator.new ram bitmapLen totalFrames) fun _ => [] := by
  refine ⟨⟨fun _ _ => rfl, ?_, ?_, ?_, fun _ => List.nodup_nil, ?_, ?_⟩, fun f _ => ?_, ?_⟩
  · exact fun _ _ hc => absurd hc List.not_mem_nil
  · exact fun _ _ hc => absurd hc List.not_mem_nil
  · exact fun _ _ hc => absurd hc List.not_mem_nil
  · exact fun _ _ _ _ _ hc => absurd hc List.not_mem_nil
  · exact fun _ _ _ hc => absurd hc List.not_mem_nil
  · exact ⟨fun hc => absurd hc (by simp [BuddyAllocator.new]), fun hc => absurd hc (not_covered_nil f)⟩
  · simp [BuddyAllocator.new, freeCount]

end BuddyConsistent

/-! ## Runs -/

namespace BuddyState

/-- The invariant: the lists are consistent, the frames on them are those the allocator
owns, and every frame that was ever added has a bit and is not frame 0. -/
def Sound (s : BuddyState) : Prop :=
  ∃ blocks, BuddyConsistent s.buddy blocks ∧ s.buddy.totalFrames ≤ 64 * s.buddy.bitmapLen ∧
    (∀ f, s.owner f = .allocator ↔ Covered blocks f) ∧
    ∀ f, s.owner f ≠ .outside → f < s.buddy.totalFrames ∧ f ≠ 0

theorem sound_new (ram : Nat → Nat) {bitmapLen totalFrames : Nat}
    (hwords : totalFrames ≤ 64 * bitmapLen) :
    Sound ⟨BuddyAllocator.new ram bitmapLen totalFrames, fun _ => .outside⟩ :=
  ⟨fun _ => [], BuddyConsistent.new ram bitmapLen totalFrames, hwords,
    fun f => ⟨fun hc => absurd hc (by simp), fun hc => absurd hc (not_covered_nil f)⟩,
    fun _ hc => absurd rfl hc⟩

variable {s s' : BuddyState} {addr order f : Nat} {o : FrameOwner}

/-- The frames of a block that changes hands. -/
theorem give_of_mem (hf : InBlock addr order f) : s.give addr order o f = o := if_pos hf

theorem give_of_not_mem (hf : ¬ InBlock addr order f) :
    s.give addr order o f = s.owner f := if_neg hf

/-- `alloc_block` takes frames of the allocator and gives them to a client. -/
theorem sound_alloc (h : s.Sound) (hstep : s.Step (.allocBlock order) s') : s'.Sound := by
  obtain ⟨blocks, hcons, hwords, howner, hadded⟩ := h
  obtain ⟨hbuddy, howner'⟩ := hstep
  cases halloc : (s.buddy.allocBlock order).1 with
  | none =>
    -- nothing to hand out, nothing changed
    have hsame := allocBlock_none halloc
    rw [halloc] at howner'
    rw [Sound, hbuddy, hsame, howner']
    exact ⟨blocks, hcons, hwords, howner, hadded⟩
  | some addr =>
    rw [halloc] at howner'
    dsimp only at howner'
    obtain ⟨hcovered, blocks', hcons', hframes, htotal, hlen⟩ := hcons.allocBlock hwords halloc
    refine ⟨blocks', hbuddy ▸ hcons', ?_, fun f => ?_, fun f hf => ?_⟩
    · rw [hbuddy, htotal, hlen]
      exact hwords
    · rw [howner', hframes f]
      by_cases hin : InBlock addr order f
      · rw [give_of_mem hin]
        exact ⟨fun hc => absurd hc (by decide), fun hc => absurd hin hc.2⟩
      · rw [give_of_not_mem hin, howner f]
        exact ⟨fun hc => ⟨hc, hin⟩, And.left⟩
    · rw [hbuddy, htotal]
      refine hadded f ?_
      by_cases hin : InBlock addr order f
      · rw [(howner f).mpr (hcovered f hin)]
        decide
      · rwa [howner', give_of_not_mem hin] at hf

/-- `free_block` gives frames of clients to the allocator. -/
theorem sound_free (h : s.Sound) (hstep : s.Step (.freeBlock addr order) s') : s'.Sound := by
  obtain ⟨blocks, hcons, hwords, howner, hadded⟩ := h
  obtain ⟨⟨hal, howned⟩, hrun, howner'⟩ := hstep
  have hnew : ∀ f, InBlock addr order f → f < s.buddy.totalFrames ∧ f ≠ 0 := by
    intro f hf
    refine hadded f ?_
    rcases howned with hclient | halloc
    · rw [hclient f hf]
      decide
    · rw [halloc f hf]
      decide
  have hbound : addr / frameSize + 2 ^ order ≤ s.buddy.totalFrames := by
    have hpos := Nat.two_pow_pos order
    have hlast := (hnew (addr / frameSize + (2 ^ order - 1)) ⟨Nat.le_add_right _ _, by omega⟩).1
    omega
  rcases howned with hclient | halloc
  · have hout : ∀ f, InBlock addr order f → ¬ Covered blocks f := by
      intro f hf hcov
      have := (howner f).mpr hcov
      rw [hclient f hf] at this
      exact nomatch this
    have hne : addr ≠ 0 := by
      rintro rfl
      exact (hnew _ (inBlock_base 0 order)).2 (Nat.zero_div _)
    have horder := hcons.order_lt_of_freeBlock hout hrun
    obtain ⟨s₁, blocks', hrun', hcons', hframes, htotal, hlen⟩ :=
      hcons.freeBlock hwords horder hal hne hbound hout
    have hs₁ : s'.buddy = s₁ := Option.some.inj (hrun.symm.trans hrun')
    refine ⟨blocks', hs₁ ▸ hcons', ?_, fun f => ?_, fun f hf => ?_⟩
    · rw [hs₁, htotal, hlen]
      exact hwords
    · rw [howner', hframes f]
      by_cases hin : InBlock addr order f
      · rw [give_of_mem hin]
        exact ⟨fun _ => .inl hin, fun _ => rfl⟩
      · rw [give_of_not_mem hin, howner f]
        exact ⟨.inr, fun hc => hc.resolve_left hin⟩
    · rw [hs₁, htotal]
      by_cases hin : InBlock addr order f
      · exact hnew f hin
      · rw [howner', give_of_not_mem hin] at hf
        exact hadded f hf
  · -- a second free of the same frames is rejected
    have hsame := hcons.freeBlock_free hwords (fun f hf => (hnew f hf).1)
      fun f hf => (howner f).mp (halloc f hf)
    have hs₁ : s'.buddy = s.buddy := Option.some.inj (hrun.symm.trans hsame)
    have hown : s'.owner = s.owner := by
      rw [howner']
      funext f
      by_cases hin : InBlock addr order f
      · rw [give_of_mem hin, halloc f hin]
      · rw [give_of_not_mem hin]
    rw [Sound, hs₁, hown]
    exact ⟨blocks, hcons, hwords, howner, hadded⟩

/-- `add_range` gives new frames to the allocator. -/
theorem sound_add {start stop : Nat} (h : s.Sound) (hstep : s.Step (.addRange start stop) s') :
    s'.Sound := by
  obtain ⟨blocks, hcons, hwords, howner, hadded⟩ := h
  obtain ⟨⟨hstart, hstop, hpos, hrange, hfresh⟩, hrun, howner'⟩ := hstep
  -- the frames of the range, by number and by address
  have hpages : ∀ f, (start ≤ f * frameSize ∧ f * frameSize < stop) ↔
      (start / frameSize ≤ f ∧ f < stop / frameSize) := by
    intro f
    rw [frameSize] at hstart hstop ⊢
    omega
  obtain ⟨s₁, blocks', hrun', hcons', hframes, htotal, hlen⟩ :=
    hcons.addRange hwords hrange hstop hpos fun f hlo hhi hcov => by
      have := (howner f).mpr hcov
      rw [hfresh f ((hpages f).mp ⟨hlo, hhi⟩).1 ((hpages f).mp ⟨hlo, hhi⟩).2] at this
      cases this
  have hs₁ : s'.buddy = s₁ := Option.some.inj (hrun.symm.trans hrun')
  refine ⟨blocks', hs₁ ▸ hcons', ?_, fun f => ?_, fun f hf => ?_⟩
  · rw [hs₁, htotal, hlen]
    exact hwords
  · rw [howner', hframes f, hpages f]
    dsimp only
    split
    · rename_i hin
      exact ⟨fun _ => .inl hin, fun _ => rfl⟩
    · rename_i hin
      rw [howner f]
      exact ⟨.inr, fun hc => hc.resolve_left hin⟩
  · rw [hs₁, htotal]
    rw [howner'] at hf
    dsimp only at hf
    split at hf
    · rename_i hin
      have hle : stop / frameSize ≤ s.buddy.totalFrames := by
        rw [BuddyAllocator.maxAddr] at hrange
        exact Nat.div_le_of_le_mul (by rwa [Nat.mul_comm])
      have hlt : start < stop := by
        by_contra hge
        have := Nat.div_le_div_right (c := frameSize) (Nat.le_of_not_lt hge)
        omega
      have hstart' := hpos hlt
      rw [frameSize] at hstart hin hle
      omega
    · exact hadded f hf

/-- A store leaves the allocator's frames alone. -/
theorem sound_store {value : Nat} (h : s.Sound) (hstep : s.Step (.store addr value) s') :
    s'.Sound := by
  obtain ⟨blocks, hcons, hwords, howner, hadded⟩ := h
  obtain ⟨-, hout, hbuddy, howner'⟩ := hstep
  rw [Sound, hbuddy, howner']
  exact ⟨blocks, hcons.store value fun hcov => hout ((howner _).mpr hcov), hwords, howner, hadded⟩

end BuddyState

/-- **Buddy allocator safety**: in every reachable state the free lists hold aligned,
pairwise disjoint blocks, linked both ways, no two of them buddies; the bitmap marks
exactly their frames free and the count is their size; and `alloc_block` returns a block
none of whose frames a client holds. -/
theorem buddy_safe {s : BuddyState} (h : buddyMachine.Reachable s) :
    ∃ blocks, FreeLists s.buddy blocks ∧
      (∀ f < s.buddy.totalFrames, s.buddy.used f = false ↔ Covered blocks f) ∧
      s.buddy.freeFrames = freeCount blocks ∧
      ∀ order addr, (s.buddy.allocBlock order).1 = some addr →
        ∀ f, InBlock addr order f → s.owner f = .allocator := by
  have hsound : s.Sound := by
    refine h.invariant ?_ ?_
    · rintro s ⟨ram, bitmapLen, totalFrames, hwords, rfl⟩
      exact BuddyState.sound_new ram hwords
    · intro s op s' hs _ hstep
      cases op with
      | addRange start stop => exact BuddyState.sound_add hs hstep
      | allocBlock order => exact BuddyState.sound_alloc hs hstep
      | freeBlock addr order => exact BuddyState.sound_free hs hstep
      | store addr value => exact BuddyState.sound_store hs hstep
  obtain ⟨blocks, hcons, hwords, howner, -⟩ := hsound
  refine ⟨blocks, hcons.toFreeLists, hcons.bitmap, hcons.count, fun order addr halloc f hf => ?_⟩
  exact (howner f).mpr ((hcons.allocBlock hwords halloc).1 f hf)

/-- Frames 1, 2 and 3 added to a new allocator over 64 frames. -/
def threeFrames : BuddyState where
  buddy := ((BuddyAllocator.new (fun _ => 0) 1 64).addRange 4096 16384).getD
    (BuddyAllocator.new (fun _ => 0) 1 64)
  owner f := if 4096 / frameSize ≤ f ∧ f < 16384 / frameSize then .allocator else .outside

theorem reachable_threeFrames : buddyMachine.Reachable threeFrames := by
  have hstart : buddyMachine.Reachable
      ⟨BuddyAllocator.new (fun _ => 0) 1 64, fun _ => .outside⟩ :=
    .start ⟨_, 1, 64, by decide, rfl⟩
  have hsome : ((BuddyAllocator.new (fun _ => 0) 1 64).addRange 4096 16384).isSome := by
    decide +kernel
  refine Machine.Run.snoc (l := BuddyOp.addRange 4096 16384) hstart trivial ⟨?_, ?_, rfl⟩
  · exact ⟨by decide, by decide, fun _ => by decide, by decide, fun _ _ _ => rfl⟩
  · obtain ⟨b, hb⟩ := Option.isSome_iff_exists.mp hsome
    rw [threeFrames, hb]
    rfl

/-- Frames 2 and 3 are free as one block, and that is what a call for two frames gets. -/
theorem buddy_safe_threeFrames :
    (threeFrames.buddy.allocBlock 1).1 = some 8192 ∧ threeFrames.owner 2 = .allocator := by
  have halloc : (threeFrames.buddy.allocBlock 1).1 = some 8192 := by decide +kernel
  obtain ⟨_, -, -, -, hfree⟩ := buddy_safe reachable_threeFrames
  exact ⟨halloc, hfree 1 8192 halloc 2 (by decide)⟩

end AthenaOS
