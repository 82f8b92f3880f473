import AthenaOS.Capability.Confinement

/-!
# Redeeming an Mmio cap (`kernel/src/syscall.rs`, `SYS_MMIO_MAP`)

The holder of an Mmio cap maps the physical pages of its range into its own
address space. The cap's range is in bytes, a mapping is in whole frames:
`SYS_CAP_GRANT` lets any byte offset through, and the loop here maps the frame
that *contains* each address.
-/

namespace AthenaOS

open Lib

/-! ## The arm -/

/-- What `SYS_MMIO_MAP` uses of the `x86_64` crate. Frames and pages are named
by their start addresses; `none` is a panic. -/
structure PagingCrate where
  /-- `PhysAddr::new`. -/
  physAddrNew : UInt64 → Option UInt64
  /-- `VirtAddr::new`. -/
  virtAddrNew : UInt64 → Option UInt64
  /-- `PhysFrame::<Size4KiB>::containing_address`. -/
  frameContaining : UInt64 → UInt64
  /-- `Page::<Size4KiB>::containing_address`. -/
  pageContaining : UInt64 → UInt64

/-- Is bit 47 sign-extended into the bits above it? -/
def isCanonical (addr : UInt64) : Bool :=
  addr.toNat < 2 ^ 47 || 2 ^ 64 - 2 ^ 47 ≤ addr.toNat

/-- A physical address has 52 bits, a virtual one is canonical, and an address
is contained in the frame or page it falls into when rounded down. -/
structure PagingCrate.Documented (pg : PagingCrate) : Prop where
  physAddr : ∀ a, pg.physAddrNew a = if a.toNat < 2 ^ 52 then some a else none
  virtAddr : ∀ a, pg.virtAddrNew a = if isCanonical a then some a else none
  frame : ∀ a, (pg.frameContaining a).toNat = a.toNat - a.toNat % 4096
  page : ∀ a, (pg.pageContaining a).toNat = a.toNat - a.toNat % 4096

structure Mapping where
  page : UInt64
  frame : UInt64
  deriving DecidableEq

/-- How the arm ends: an error code in `rax`, a panic in the loop, or `rax = 0`,
with what it has mapped until then. -/
inductive MmioMapResult where
  | error (code : UInt64)
  | panicked (maps : List Mapping)
  | mapped (maps : List Mapping)
  deriving DecidableEq

/-- `E_INVAL`. -/
def eInval : UInt64 := 0xFFFFFFFFFFFFFFF9

/-- The loop over the remaining pages; `mapOk i` is whether `map_page_in_pml4`
can map page `i` (it panics otherwise). -/
def mmioMapPages (pg : PagingCrate) (mapOk : Nat → Bool) (startPhys userVirt : UInt64) :
    (remaining i : Nat) → List Mapping → MmioMapResult
  | 0, _, maps => .mapped maps
  | remaining + 1, i, maps =>
    match pg.physAddrNew (startPhys + UInt64.ofNat (i * 4096)) with
    | none => .panicked maps
    | some phys =>
      match pg.virtAddrNew (userVirt + UInt64.ofNat (i * 4096)) with
      | none => .panicked maps
      | some virt =>
        if mapOk i then
          mmioMapPages pg mapOk startPhys userVirt remaining (i + 1)
            (maps ++ [⟨pg.pageContaining virt, pg.frameContaining phys⟩])
        else .panicked maps

/-- The cap the current task of a CPU has at a handle. -/
def currentCap (s : Scheduler) (cpu : Cpu) (handle : CapHandle) : Option Cap :=
  (s.currentTask cpu).bind (·.capTable.get handle)

/-- The arguments `SYS_MMIO_MAP` accepts for a range of `capLen` bytes. -/
def mmioArgsOk (capLen userVirt length : UInt64) : Bool :=
  !(length == 0 || length > capLen || userVirt &&& 0xFFF != 0 || length &&& 0xFFF != 0 ||
    userVirt ≥ 0x0000800000000000)

/-- `SYS_MMIO_MAP` (arm 7), for a task with the given page table. -/
def sysMmioMap (pg : PagingCrate) (mapOk : Nat → Bool) (s : Scheduler) (cpu : Cpu)
    (pml4 : Option UInt64) (regs : SyscallRegisters) : MmioMapResult :=
  let userVirt := regs.rsi
  let length := regs.rdx
  match currentCap s cpu regs.rdi.toNat with
  | none => .error CapError.noSuchHandle.asU64
  | some (.mmio startPhys capLen rights) =>
    if !rights.contains Rights.map then .error CapError.insufficientRights.asU64
    else if !mmioArgsOk capLen userVirt length then .error eInval
    else
      match pml4 with
      | none => .error eInval
      | some _ => mmioMapPages pg mapOk startPhys userVirt (length.toNat / 4096) 0 []
  | some _ => .error CapError.wrongFlavor.asU64

/-! ## What the loop maps -/

/-- The mapping of page `i`, if no address is out of range. -/
def pageMapping (pg : PagingCrate) (startPhys userVirt : UInt64) (i : Nat) : Mapping :=
  ⟨pg.pageContaining (userVirt + UInt64.ofNat (i * 4096)),
    pg.frameContaining (startPhys + UInt64.ofNat (i * 4096))⟩

theorem toNat_add_page {a : UInt64} {i : Nat} (h : a.toNat + i * 4096 < 2 ^ 64) :
    (a + UInt64.ofNat (i * 4096)).toNat = a.toNat + i * 4096 := by
  rw [UInt64.toNat_add, UInt64.toNat_ofNat', Nat.mod_eq_of_lt (show i * 4096 < 2 ^ 64 by omega),
    Nat.mod_eq_of_lt h]

variable {pg : PagingCrate} {mapOk : Nat → Bool} {startPhys userVirt : UInt64}

/-- A loop that finishes has mapped every page; all addresses were in range, as
it goes up page by page and would have panicked at the first that is not. -/
theorem mmioMapPages_eq (hpg : pg.Documented) (haligned : userVirt.toNat % 4096 = 0)
    {remaining i : Nat} {before maps : List Mapping}
    (hphys : startPhys.toNat + i * 4096 < 2 ^ 64)
    (hvirt : userVirt.toNat + i * 4096 ≤ 2 ^ 47)
    (h : mmioMapPages pg mapOk startPhys userVirt remaining i before = .mapped maps) :
    maps = before ++ (List.range' i remaining).map (pageMapping pg startPhys userVirt) ∧
      ∀ j, i ≤ j → j < i + remaining →
        startPhys.toNat + j * 4096 < 2 ^ 52 ∧ userVirt.toNat + j * 4096 + 4096 ≤ 2 ^ 47 := by
  induction remaining generalizing i before with
  | zero =>
    obtain rfl := MmioMapResult.mapped.inj h
    exact ⟨by simp, fun j _ _ => by omega⟩
  | succ remaining ih =>
    have hsucc : (i + 1) * 4096 = i * 4096 + 4096 := Nat.succ_mul i 4096
    have hphysNat := toNat_add_page hphys
    have hvirtNat := toNat_add_page (a := userVirt) (i := i) (by omega)
    unfold mmioMapPages at h
    rw [hpg.physAddr, hphysNat] at h
    split at h
    · cases h
    · next phys hsome =>
      have hlow : startPhys.toNat + i * 4096 < 2 ^ 52 := by
        by_contra hhigh
        rw [if_neg hhigh] at hsome
        cases hsome
      rw [if_pos hlow, Option.some.injEq] at hsome
      subst hsome
      rw [hpg.virtAddr] at h
      split at h
      · cases h
      · next virt hsome =>
        have hcanonical : isCanonical (userVirt + UInt64.ofNat (i * 4096)) = true := by
          by_contra hbad
          rw [if_neg hbad] at hsome
          cases hsome
        rw [if_pos hcanonical, Option.some.injEq] at hsome
        subst hsome
        -- page-aligned and at most `2 ^ 47`: below it, or exactly there and not canonical
        have hpage : userVirt.toNat + i * 4096 + 4096 ≤ 2 ^ 47 := by
          simp only [isCanonical, hvirtNat, Bool.or_eq_true, decide_eq_true_eq] at hcanonical
          omega
        have hphys' : startPhys.toNat + (i + 1) * 4096 < 2 ^ 64 := by
          rw [hsucc, ← add_assoc]
          exact (Nat.add_lt_add_right hlow 4096).trans (by decide)
        have hvirt' : userVirt.toNat + (i + 1) * 4096 ≤ 2 ^ 47 := by
          rw [hsucc, ← add_assoc]
          exact hpage
        split at h
        · obtain ⟨hmaps, hrange⟩ := ih hphys' hvirt' h
          refine ⟨?_, fun j hj hlt => ?_⟩
          · rw [hmaps, List.append_assoc, List.range'_succ, List.map_cons]
            rfl
          · rcases Nat.eq_or_lt_of_le hj with rfl | hj
            · exact ⟨hlow, hpage⟩
            · exact hrange j hj (by omega)
        · cases h

/-! ## Inside the cap -/

/-- Every byte of every mapped frame is in `[startPhys, startPhys + len)`. -/
def FramesInside (startPhys len : UInt64) (maps : List Mapping) : Prop :=
  ∀ m ∈ maps, ∀ byte, m.frame.toNat ≤ byte → byte < m.frame.toNat + 4096 →
    startPhys.toNat ≤ byte ∧ byte < startPhys.toNat + len.toNat

/-- Every mapped page is in the lower half. -/
def PagesInLowerHalf (maps : List Mapping) : Prop :=
  ∀ m ∈ maps, m.page.toNat + 4096 ≤ 0x0000800000000000

/-- What the checks of the arm have made sure of. -/
theorem mmioArgsOk_spec {capLen length : UInt64} (h : mmioArgsOk capLen userVirt length = true) :
    0 < length.toNat ∧ length.toNat ≤ capLen.toNat ∧ userVirt.toNat % 4096 = 0 ∧
      length.toNat % 4096 = 0 ∧ userVirt.toNat < 2 ^ 47 := by
  have hmask : ∀ x : UInt64, x &&& 0xFFF = 0 → x.toNat % 4096 = 0 := by
    intro x hx
    have hnat := congrArg UInt64.toNat hx
    rw [UInt64.toNat_and] at hnat
    change x.toNat &&& 2 ^ 12 - 1 = 0 at hnat
    rwa [Nat.and_two_pow_sub_one_eq_mod] at hnat
  simp only [mmioArgsOk, Bool.not_eq_true', Bool.or_eq_false_iff, beq_eq_false_iff_ne,
    bne_eq_false_iff_eq, decide_eq_false_iff_not] at h
  obtain ⟨⟨⟨⟨hzero, hlen⟩, hvirt⟩, hlenMask⟩, hlow⟩ := h
  have hlow : userVirt.toNat < (0x0000800000000000 : UInt64).toNat :=
    UInt64.lt_iff_toNat_lt.mp (UInt64.not_le.mp hlow)
  refine ⟨?_, ?_, hmask _ hvirt, hmask _ hlenMask, hlow⟩
  · exact Nat.pos_of_ne_zero fun hz => hzero (UInt64.toNat_inj.mp hz)
  · exact UInt64.le_iff_toNat_le.mp (UInt64.not_lt.mp hlen)

/-- A call that returns 0 came with good arguments and ran the loop to its end. -/
theorem sysMmioMap_eq_mapped {s : Scheduler} {cpu : Cpu} {pml4 : Option UInt64}
    {regs : SyscallRegisters} {len : UInt64} {rights : Rights} {maps : List Mapping}
    (hcap : currentCap s cpu regs.rdi.toNat = some (.mmio startPhys len rights))
    (h : sysMmioMap pg mapOk s cpu pml4 regs = .mapped maps) :
    mmioArgsOk len regs.rsi regs.rdx = true ∧
      mmioMapPages pg mapOk startPhys regs.rsi (regs.rdx.toNat / 4096) 0 [] = .mapped maps := by
  unfold sysMmioMap at h
  rw [hcap] at h
  dsimp only at h
  split at h
  · cases h
  · split at h
    · cases h
    · next hargs =>
      split at h
      · cases h
      · exact ⟨by simpa using hargs, h⟩

/-- **Redeeming a cap**: whatever cap is redeemed and whatever the arguments, a
call that succeeds maps only bytes of the cap, below the upper half, if and only
if the cap starts on a page boundary. -/
theorem mmioMap_inside_iff (hpg : pg.Documented) {s : Scheduler} {cpu : Cpu}
    {pml4 : Option UInt64} {regs : SyscallRegisters} {len : UInt64} {rights : Rights}
    {maps : List Mapping}
    (hcap : currentCap s cpu regs.rdi.toNat = some (.mmio startPhys len rights))
    (h : sysMmioMap pg mapOk s cpu pml4 regs = .mapped maps) :
    FramesInside startPhys len maps ∧ PagesInLowerHalf maps ↔ startPhys.toNat % 4096 = 0 := by
  obtain ⟨hargs, hloop⟩ := sysMmioMap_eq_mapped hcap h
  obtain ⟨hpos, hlen, haligned, hlenAligned, hlow⟩ := mmioArgsOk_spec hargs
  have hpages : 1 ≤ regs.rdx.toNat / 4096 := by omega
  obtain ⟨hmaps, hrange⟩ := mmioMapPages_eq hpg haligned
    (by simpa using startPhys.toNat_lt) (by omega) hloop
  rw [List.nil_append] at hmaps
  have hmem : ∀ m, m ∈ maps ↔
      ∃ j < regs.rdx.toNat / 4096, pageMapping pg startPhys regs.rsi j = m := by
    intro m
    rw [hmaps, List.mem_map]
    simp [List.mem_range'_1]
  have hframe : ∀ j < regs.rdx.toNat / 4096, (pageMapping pg startPhys regs.rsi j).frame.toNat =
      startPhys.toNat + j * 4096 - startPhys.toNat % 4096 := by
    intro j hj
    have hbound := (hrange j (Nat.zero_le j) (by omega)).1
    rw [pageMapping, hpg.frame, toNat_add_page (lt_trans hbound (by decide)),
      Nat.add_mul_mod_self_right]
  constructor
  · rintro ⟨hframes, -⟩
    -- the first byte of the first frame
    have hfirst := hframes _ ((hmem _).mpr ⟨0, hpages, rfl⟩) _ le_rfl
      (Nat.lt_add_of_pos_right (by decide))
    rw [hframe 0 hpages] at hfirst
    omega
  · intro hstart
    constructor
    · rintro m hm byte hge hlt
      obtain ⟨j, hj, rfl⟩ := (hmem m).mp hm
      have hlast : (j + 1) * 4096 ≤ regs.rdx.toNat :=
        (Nat.mul_le_mul_right 4096 hj).trans (Nat.div_mul_le_self ..)
      rw [hframe j hj, hstart, Nat.sub_zero] at hge hlt
      rw [Nat.succ_mul] at hlast
      generalize j * 4096 = offset at hge hlt hlast
      omega
    · rintro m hm
      obtain ⟨j, hj, rfl⟩ := (hmem m).mp hm
      have hbound := (hrange j (Nat.zero_le j) (by omega)).2
      rw [pageMapping, hpg.page, toNat_add_page (by omega), Nat.add_mul_mod_self_right, haligned]
      exact hbound

/-! ## Half a page off -/

/-- The address types as documented. -/
def documentedPaging : PagingCrate where
  physAddrNew a := if a.toNat < 2 ^ 52 then some a else none
  virtAddrNew a := if isCanonical a then some a else none
  frameContaining a := a - a % 4096
  pageContaining a := a - a % 4096

theorem documentedPaging_documented : documentedPaging.Documented := by
  have hround : ∀ a : UInt64, (a - a % 4096).toNat = a.toNat - a.toNat % 4096 := by
    intro a
    have hmod : (a % 4096).toNat = a.toNat % 4096 := UInt64.toNat_mod a 4096
    rw [UInt64.toNat_sub_of_le a _ (by
      rw [UInt64.le_iff_toNat_le, hmod]
      exact Nat.mod_le _ _), hmod]
  exact ⟨fun _ => rfl, fun _ => rfl, hround, hround⟩

/-- Two pages of device registers, minted with every right. -/
def deviceRange : Cap := .mmio 0xFEC00000 0x2000 Rights.all

/-- Grant oneself one page of the range, from a given offset, with every right. -/
def grantPageRegs (offset : UInt64) : SyscallRegisters where
  rax := 0
  rdx := 0x7F
  rsi := 1
  rdi := 1
  r8 := 0x1000
  r10 := offset
  rcx := 0

/-- Map one page of the cap at handle 2. -/
def mapPageRegs : SyscallRegisters where
  rax := 0
  rdx := 0x1000
  rsi := 0x400000
  rdi := 2
  r8 := 0
  r10 := 0
  rcx := 0

/-- The holder after its grant. -/
def deviceHolder (offset : UInt64) : Scheduler :=
  (sysCapGrant (soleHolder deviceRange) 0 (grantPageRegs offset)).2

theorem deviceHolder_reachable (offset : UInt64) :
    (capMachine (soleHolder deviceRange)).Reachable (deviceHolder offset) :=
  .snoc (.start rfl) trivial (l := .sysCapGrant 0 (grantPageRegs offset)) rfl

/-- Page-aligned, whole pages, and not wrapping. -/
def PageRange (startPhys len : UInt64) : Prop :=
  startPhys.toNat % 4096 = 0 ∧ len.toNat % 4096 = 0 ∧ startPhys.toNat + len.toNat ≤ 2 ^ 64

theorem deviceRange_pageRange {n : CapNode} {startPhys len : UInt64} {rights : Rights}
    (h : (soleHolder deviceRange).capAt n = some (.mmio startPhys len rights)) :
    PageRange startPhys len := by
  rw [capAt_soleHolder] at h
  split at h
  · have heq := Option.some.inj h
    simp only [deviceRange, Cap.mmio.injEq] at heq
    obtain ⟨rfl, rfl, -⟩ := heq
    exact ⟨by decide, by decide, by decide⟩
  · cases h

/-- A cap granted half a page into the range is redeemed for a frame that starts
half a page before it. -/
theorem mmioMap_spills :
    ¬ ∀ (pg : PagingCrate) (mapOk : Nat → Bool) (s₀ s : Scheduler), pg.Documented → RootState s₀ →
      (∀ n startPhys len rights, s₀.capAt n = some (.mmio startPhys len rights) →
        PageRange startPhys len) →
      (capMachine s₀).Reachable s → ∀ cpu pml4 regs startPhys len rights maps,
        currentCap s cpu regs.rdi.toNat = some (.mmio startPhys len rights) →
        sysMmioMap pg mapOk s cpu pml4 regs = .mapped maps →
        FramesInside startPhys len maps ∧ PagesInLowerHalf maps := by
  intro hall
  have hcap : currentCap (deviceHolder 0x800) 0 mapPageRegs.rdi.toNat =
      some (.mmio 0xFEC00800 0x1000 Rights.all) := by decide
  have hmap : sysMmioMap documentedPaging (fun _ => true) (deviceHolder 0x800) 0 (some 0)
      mapPageRegs = .mapped [⟨0x400000, 0xFEC00000⟩] := by decide
  obtain ⟨hinside, -⟩ := hall documentedPaging (fun _ => true) _ _ documentedPaging_documented
    (rootState_soleHolder (by decide)) (fun _ _ _ _ => deviceRange_pageRange)
    (deviceHolder_reachable 0x800) 0 (some 0) mapPageRegs _ _ _ _ hcap hmap
  have hfirst := (hinside _ List.mem_cons_self 0xFEC00000 (by decide) (by decide)).1
  exact absurd hfirst (by decide)

/-- A whole page into the range, the frame is the cap's own. -/
theorem mmioMap_inside_iff_wholePage :
    FramesInside 0xFEC01000 0x1000 [⟨0x400000, 0xFEC01000⟩] ∧
      PagesInLowerHalf [⟨0x400000, 0xFEC01000⟩] := by
  have hcap : currentCap (deviceHolder 0x1000) 0 mapPageRegs.rdi.toNat =
      some (.mmio 0xFEC01000 0x1000 Rights.all) := by decide
  have hmap : sysMmioMap documentedPaging (fun _ => true) (deviceHolder 0x1000) 0 (some 0)
      mapPageRegs = .mapped [⟨0x400000, 0xFEC01000⟩] := by decide
  exact (mmioMap_inside_iff documentedPaging_documented hcap hmap).mpr (by decide)

end AthenaOS
