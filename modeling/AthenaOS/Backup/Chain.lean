import AthenaOS.Lib.Machine

/-!
# Backup chains (`components/athbackup/src/lib.rs`)

A chain is a full backup with the incremental ones built on it. Entries name their parents. Entries
are added at the end, a chain is consolidated into one synthetic entry, and retention drops what is
older than 30 days.
-/

namespace AthenaOS.Backup

inductive BackupType where
  | full
  | incremental
  | differential
  | mirror
  | syntheticFull
  deriving DecidableEq

structure BackupChainEntry where
  id : UInt64
  backupType : BackupType
  timestamp : UInt64
  sizeBytes : UInt64
  parentId : Option UInt64
  blockCount : UInt64
  isValid : Bool
  deriving DecidableEq

structure BackupChain where
  entries : List BackupChainEntry
  baseFullId : UInt64
  chainLength : UInt32
  maxChainLength : UInt32

namespace BackupChain

def new (baseFullId : UInt64) : BackupChain := ⟨[], baseFullId, 0, 14⟩

def add (c : BackupChain) (entry : BackupChainEntry) : BackupChain :=
  { c with chainLength := c.chainLength + 1, entries := c.entries ++ [entry] }

/-- The loop of `is_broken`, behind the entries it has passed. -/
def brokenBehind (before : List BackupChainEntry) : List BackupChainEntry → Bool
  | [] => false
  | entry :: rest =>
    if before.isEmpty then
      if entry.backupType ≠ .full then true else brokenBehind (before ++ [entry]) rest
    else if entry.parentId.any fun parentId => !before.any (·.id == parentId) then true
    else if !entry.isValid then true
    else brokenBehind (before ++ [entry]) rest

def isBroken (c : BackupChain) : Bool := brokenBehind [] c.entries

/-- The entry that stands for all of a chain. -/
def synthetic (c : BackupChain) : BackupChainEntry where
  id := (c.entries.getLast?.map fun e => e.id + 1).getD 0
  backupType := .syntheticFull
  timestamp := (c.entries.getLast?.map BackupChainEntry.timestamp).getD 0
  sizeBytes := (c.entries.map BackupChainEntry.sizeBytes).sum
  parentId := none
  blockCount := (c.entries.map BackupChainEntry.blockCount).sum
  isValid := true

def consolidate (c : BackupChain) : Option BackupChainEntry × BackupChain :=
  if c.entries.length < 2 then (none, c)
  else (some c.synthetic, { c with entries := [c.synthetic], chainLength := 1 })

/-- The entry is younger than 30 days. -/
def kept (now : UInt64) (entry : BackupChainEntry) : Bool :=
  decide (now.toNat - entry.timestamp.toNat < 86400 * 30)

/-- What `apply_retention` does to each chain of the manager. -/
def retain (c : BackupChain) (now : UInt64) : BackupChain :=
  { c with entries := c.entries.filter (kept now) }

end BackupChain

/-! ## The validity test -/

open BackupChain

/-- An entry's parent, if it has one, is among these. -/
def HasParent (entry : BackupChainEntry) (entries : List BackupChainEntry) : Prop :=
  ∀ parentId, entry.parentId = some parentId → ∃ e ∈ entries, e.id = parentId

variable {entry : BackupChainEntry} {c : BackupChain}

theorem hasParent_mono {as bs : List BackupChainEntry} (h : HasParent entry as) (hsub : as ⊆ bs) :
    HasParent entry bs := by
  intro parentId hparent
  obtain ⟨e, he, hid⟩ := h parentId hparent
  exact ⟨e, hsub he, hid⟩

/-- An entry behind others is valid and has its parent before it. -/
def Linked (before : List BackupChainEntry) (entry : BackupChainEntry) : Prop :=
  HasParent entry before ∧ entry.isValid = true

theorem parent_iff (before : List BackupChainEntry) (entry : BackupChainEntry) :
    (entry.parentId.any fun parentId => !before.any (·.id == parentId)) = false ↔ HasParent entry before := by
  rw [HasParent]
  cases entry.parentId with
  | none => exact ⟨fun _ _ h => (nomatch h), fun _ => rfl⟩
  | some parentId =>
    rw [Option.any_some, Bool.not_eq_false', List.any_eq_true]
    simp only [Option.some.injEq, forall_eq', beq_iff_eq]

theorem brokenBehind_cons {before : List BackupChainEntry} (hne : before ≠ []) (entry : BackupChainEntry)
    (rest : List BackupChainEntry) : brokenBehind before (entry :: rest) = false ↔
      Linked before entry ∧ brokenBehind (before ++ [entry]) rest = false := by
  rw [brokenBehind, if_neg (by simpa using hne), Linked, ← parent_iff]
  cases entry.parentId.any fun parentId => !before.any (·.id == parentId) <;> cases entry.isValid <;> simp

/-- The loop behind some entries. -/
theorem brokenBehind_eq_false_iff (entries : List BackupChainEntry) : ∀ {before : List BackupChainEntry}, before ≠ [] →
    (brokenBehind before entries = false ↔
      ∀ pre entry post, entries = pre ++ entry :: post → Linked (before ++ pre) entry) := by
  induction entries with
  | nil => exact fun _ => ⟨fun _ pre entry post heq => by simp at heq, fun _ => rfl⟩
  | cons e es ih =>
    intro before hne
    rw [brokenBehind_cons hne, ih (by simp)]
    constructor
    · rintro ⟨hlinked, hrest⟩ pre entry post heq
      cases pre with
      | nil =>
        obtain ⟨rfl, rfl⟩ := List.cons.inj heq
        rwa [List.append_nil]
      | cons x pre =>
        obtain ⟨rfl, rfl⟩ := List.cons.inj heq
        have htail := hrest pre entry post rfl
        rwa [List.append_assoc] at htail
    · intro h
      refine ⟨by simpa using h [] e es rfl, fun pre entry post heq => ?_⟩
      rw [List.append_assoc]
      exact h (e :: pre) entry post (by rw [heq, List.cons_append])

/-- The chain starts with a full backup, and the entries behind it are linked. -/
structure Sound (entries : List BackupChainEntry) : Prop where
  full : ∀ entry, entries.head? = some entry → entry.backupType = .full
  linked : ∀ pre entry post, entries = pre ++ entry :: post → pre ≠ [] → Linked pre entry

/-- What the validity test looks at. -/
theorem isBroken_eq_false_iff (c : BackupChain) : c.isBroken = false ↔ Sound c.entries := by
  rw [isBroken]
  cases c.entries with
  | nil => exact ⟨fun _ => ⟨fun _ h => (nomatch h), fun pre _ _ h => by simp at h⟩, fun _ => rfl⟩
  | cons e es =>
    rw [brokenBehind, if_pos List.isEmpty_nil, List.nil_append]
    by_cases hfull : e.backupType = .full
    · rw [if_neg (not_not.mpr hfull), brokenBehind_eq_false_iff es (List.cons_ne_nil e [])]
      constructor
      · refine fun h => ⟨fun entry hentry => Option.some.inj hentry ▸ hfull, fun pre entry post heq hne => ?_⟩
        cases pre with
        | nil => exact absurd rfl hne
        | cons x pre =>
          obtain ⟨rfl, rfl⟩ := List.cons.inj heq
          exact h pre entry post rfl
      · intro h pre entry post heq
        exact h.linked (e :: pre) entry post (by rw [heq, List.cons_append]) (List.cons_ne_nil e pre)
    · rw [if_pos hfull]
      exact ⟨fun h => (nomatch h), fun h => absurd (h.full e rfl) hfull⟩

/-! ## Operations -/

/-- The chain passes the test, and what an entry is based on is in the chain. -/
structure Intact (c : BackupChain) : Prop where
  valid : c.isBroken = false
  parents : ∀ entry ∈ c.entries, HasParent entry c.entries

/-- Behind the first entry the test already looks for the parents. -/
theorem intact_iff (c : BackupChain) : Intact c ↔
    Sound c.entries ∧ ∀ entry, c.entries.head? = some entry → HasParent entry c.entries := by
  constructor
  · exact fun h => ⟨(isBroken_eq_false_iff c).mp h.valid, fun entry hentry => h.parents entry (List.mem_of_mem_head? hentry)⟩
  · rintro ⟨hsound, hhead⟩
    refine ⟨(isBroken_eq_false_iff c).mpr hsound, fun entry hentry => ?_⟩
    obtain ⟨pre, post, heq⟩ := List.append_of_mem hentry
    by_cases hpre : pre = []
    · exact hhead entry (by rw [heq, hpre, List.nil_append, List.head?_cons])
    · refine hasParent_mono (hsound.linked pre entry post heq hpre).1 ?_
      rw [heq]
      exact List.subset_append_left pre _

inductive ChainOp where
  | add (entry : BackupChainEntry)
  | consolidate
  | applyRetention (now : UInt64)

/-- What an operation leaves of a chain. -/
def step (c : BackupChain) : ChainOp → BackupChain
  | .add entry => c.add entry
  | .consolidate => c.consolidate.2
  | .applyRetention now => c.retain now

/-- An added entry is valid and its parent is in the chain. -/
def Allowed (c : BackupChain) : ChainOp → Prop
  | .add entry => entry.isValid = true ∧ HasParent entry c.entries
  | .consolidate => True
  | .applyRetention _ => True

/-- An entry 30 days old is no parent of this one, or a younger entry has its id. -/
def OutlivesNoParent (now : UInt64) (entry : BackupChainEntry) (entries : List BackupChainEntry) :
    Prop :=
  ∀ e ∈ entries, kept now e = false → entry.parentId = some e.id →
    ∃ e' ∈ entries, kept now e' = true ∧ e'.id = e.id

/-- What retention must find: the first entry younger than 30 days is a full backup, and no entry
younger than that has a parent older than that. Only the first one may find another entry with the
parent's id behind it. -/
structure Retainable (entries : List BackupChainEntry) (now : UInt64) : Prop where
  first : ∀ entry, entries.find? (kept now) = some entry →
    entry.backupType = .full ∧ OutlivesNoParent now entry entries
  later : ∀ pre entry post, entries = pre ++ entry :: post → kept now entry = true →
    (∃ e ∈ pre, kept now e = true) → OutlivesNoParent now entry pre

theorem hasParent_filter_iff {entries : List BackupChainEntry} (h : HasParent entry entries)
    (now : UInt64) :
    HasParent entry (entries.filter (kept now)) ↔ OutlivesNoParent now entry entries := by
  constructor
  · intro hstays e _ _ hparent
    obtain ⟨e', he', hid⟩ := hstays e.id hparent
    obtain ⟨hmem, hkept⟩ := List.mem_filter.mp he'
    exact ⟨e', hmem, hkept, hid⟩
  · intro hold parentId hparent
    obtain ⟨e, he, rfl⟩ := h parentId hparent
    by_cases hkept : kept now e = true
    · exact ⟨e, List.mem_filter.mpr ⟨he, hkept⟩, rfl⟩
    · obtain ⟨e', he', hkept', hid⟩ := hold e he (Bool.eq_false_iff.mpr hkept) hparent
      exact ⟨e', List.mem_filter.mpr ⟨he', hkept'⟩, hid⟩

/-- What an operation must find in the chain. -/
def Safe (c : BackupChain) : ChainOp → Prop
  | .add entry => c.entries = [] → entry.backupType = .full
  | .consolidate => c.entries.length < 2
  | .applyRetention now => Retainable c.entries now

theorem intact_add_iff (hc : Intact c) (hvalid : entry.isValid = true)
    (hparent : HasParent entry c.entries) :
    Intact (c.add entry) ↔ (c.entries = [] → entry.backupType = .full) := by
  rw [intact_iff] at hc ⊢
  have hentries : (c.add entry).entries = c.entries ++ [entry] := rfl
  have hhead : c.entries ≠ [] → (c.entries ++ [entry]).head? = c.entries.head? := fun hne => by
    obtain ⟨e, es, heq⟩ := List.exists_cons_of_ne_nil hne
    rw [heq, List.cons_append, List.head?_cons, List.head?_cons]
  rw [hentries]
  constructor
  · rintro ⟨hsound, -⟩ hempty
    exact hsound.full entry (by rw [hempty]; rfl)
  · intro hfull
    refine ⟨⟨fun e he => ?_, fun pre e post heq hne => ?_⟩, fun e he => ?_⟩
    · by_cases hempty : c.entries = []
      · rw [hempty] at he
        exact Option.some.inj he ▸ hfull hempty
      · rw [hhead hempty] at he
        exact hc.1.full e he
    · rcases List.eq_nil_or_concat post with rfl | ⟨post, last, rfl⟩
      · obtain ⟨rfl, hlast⟩ := List.append_inj' heq rfl
        obtain ⟨rfl, -⟩ := List.cons.inj hlast
        exact ⟨hparent, hvalid⟩
      · rw [List.concat_eq_append, ← List.cons_append, ← List.append_assoc] at heq
        exact hc.1.linked pre e post (List.append_inj' heq rfl).1 hne
    · by_cases hempty : c.entries = []
      · rw [hempty] at he hparent ⊢
        rw [← Option.some.inj he]
        exact hasParent_mono hparent (List.nil_subset _)
      · rw [hhead hempty] at he
        exact hasParent_mono (hc.2 e he) (List.subset_append_left _ _)

/-- A consolidated chain starts with a synthetic backup, which the test refuses. -/
theorem intact_consolidate_iff (hc : Intact c) : Intact c.consolidate.2 ↔ c.entries.length < 2 := by
  by_cases hlen : c.entries.length < 2
  · rw [consolidate, if_pos hlen]
    exact iff_of_true hc hlen
  · rw [consolidate, if_neg hlen]
    refine iff_of_false (fun h => ?_) hlen
    exact nomatch ((intact_iff _).mp h).1.full c.synthetic rfl

theorem intact_retain_iff (hc : Intact c) (now : UInt64) :
    Intact (c.retain now) ↔ Retainable c.entries now := by
  have hsound := (isBroken_eq_false_iff c).mp hc.valid
  have hparents : ∀ entry, c.entries.find? (kept now) = some entry → HasParent entry c.entries :=
    fun entry hentry => hc.parents entry (List.mem_of_find?_eq_some hentry)
  -- behind another entry the parent is looked for in front
  have hlinked : ∀ {pre entry post}, c.entries = pre ++ entry :: post →
      (∃ e ∈ pre, kept now e = true) → Linked pre entry := fun heq ⟨_, he, _⟩ =>
    hsound.linked _ _ _ heq (List.ne_nil_of_mem he)
  rw [intact_iff]
  show Sound (c.entries.filter (kept now)) ∧ (∀ entry, (c.entries.filter (kept now)).head? = _ → _) ↔ _
  rw [List.head?_filter]
  constructor
  · rintro ⟨hstays, hhead⟩
    refine ⟨fun entry hentry => ⟨hstays.full entry (by rw [List.head?_filter, hentry]),
      (hasParent_filter_iff (hparents entry hentry) now).mp (hhead entry hentry)⟩, ?_⟩
    intro pre entry post heq hkept hbefore
    refine (hasParent_filter_iff (hlinked heq hbefore).1 now).mp ?_
    refine (hstays.linked _ entry (post.filter (kept now)) ?_ ?_).1
    · rw [heq, List.filter_append, List.filter_cons_of_pos hkept]
    · obtain ⟨e, he, hk⟩ := hbefore
      exact List.ne_nil_of_mem (List.mem_filter.mpr ⟨he, hk⟩)
  · intro h
    refine ⟨⟨fun entry hentry => ?_, fun pre entry post heq hne => ?_⟩, fun entry hentry => ?_⟩
    · rw [List.head?_filter] at hentry
      exact (h.first entry hentry).1
    · obtain ⟨l, r, hsplit, rfl, hr⟩ := List.filter_eq_append_iff.mp heq
      obtain ⟨dropped, rest, rfl, hdropped, hkept, -⟩ := List.filter_eq_cons_iff.mp hr
      obtain ⟨e, he⟩ := List.exists_mem_of_ne_nil _ hne
      obtain ⟨hel, hek⟩ := List.mem_filter.mp he
      have hwhole : c.entries = (l ++ dropped) ++ entry :: rest := by rw [hsplit, List.append_assoc]
      have hbefore : ∃ e ∈ l ++ dropped, kept now e = true := ⟨e, List.mem_append_left _ hel, hek⟩
      obtain ⟨hparent, hvalid⟩ := hlinked hwhole hbefore
      refine ⟨?_, hvalid⟩
      have hstays := (hasParent_filter_iff hparent now).mpr (h.later _ entry rest hwhole hkept hbefore)
      rwa [List.filter_append, List.filter_eq_nil_iff.mpr hdropped, List.append_nil] at hstays
    · exact (hasParent_filter_iff (hparents entry hentry) now).mpr (h.first entry hentry).2

/-- What the operations need is exact. -/
theorem intact_step_iff (c : BackupChain) (op : ChainOp) (hc : Intact c) (hallowed : Allowed c op) :
    Intact (step c op) ↔ Safe c op := by
  cases op with
  | add entry => exact intact_add_iff hc hallowed.1 hallowed.2
  | consolidate => exact intact_consolidate_iff hc
  | applyRetention now => exact intact_retain_iff hc now

/-- A sequence of operations keeps a chain that passes the test intact all along exactly when the first
entry's parent is there to begin with and each operation finds what it needs. -/
theorem staysIntact_iff (c : BackupChain) (ops : List ChainOp) (hc : c.isBroken = false)
    (hallowed : ∀ pre op post, ops = pre ++ op :: post → Allowed (pre.foldl step c) op) :
    (∀ pre post, ops = pre ++ post → Intact (pre.foldl step c)) ↔
      (∀ entry, c.entries.head? = some entry → HasParent entry c.entries) ∧
        ∀ pre op post, ops = pre ++ op :: post → Safe (pre.foldl step c) op := by
  have hstart : Intact c ↔ ∀ entry, c.entries.head? = some entry → HasParent entry c.entries := by
    rw [intact_iff]
    exact and_iff_right ((isBroken_eq_false_iff c).mp hc)
  constructor
  · intro hall
    have hintact : Intact c := hall [] ops rfl
    exact ⟨hstart.mp hintact, (Lib.foldl_invariant_iff intact_step_iff hintact hallowed).mp hall⟩
  · rintro ⟨hhead, hsafe⟩
    exact (Lib.foldl_invariant_iff intact_step_iff (hstart.mpr hhead) hallowed).mpr hsafe

/-- Two full backups and an incremental one on the second. -/
def twoFullBackups : List BackupChainEntry :=
  [⟨1, .full, 50, 0, none, 0, true⟩, ⟨2, .full, 1000, 0, none, 0, true⟩,
    ⟨3, .incremental, 2000, 0, some 2, 0, true⟩]

/-- When the first backup is 30 days old, no other one needs it. -/
theorem retainable_twoFullBackups : Retainable twoFullBackups 2592055 := by
  refine ⟨fun entry hentry => ?_, ?_⟩
  · obtain rfl := Option.some.inj hentry
    exact ⟨rfl, fun _ _ _ h => (nomatch h)⟩
  · simp only [twoFullBackups, Lib.forall_split_cons]
    refine ⟨fun h => ?_, fun _ _ _ _ _ h => (nomatch h), fun _ _ e he hold hid => ?_,
      Lib.forall_split_nil⟩
    · exact absurd h (by decide)
    · -- the parent of the incremental backup is young
      simp only [List.mem_cons, List.not_mem_nil, or_false] at he
      obtain rfl | rfl := he
      · exact nomatch hid
      · exact nomatch hold

/-- The backups are taken one after the other, with a consolidation of the first alone, and the first
is dropped. -/
theorem staysIntact_twoFullBackups :
    let ops := [.add ⟨1, .full, 50, 0, none, 0, true⟩, .consolidate,
      .add ⟨2, .full, 1000, 0, none, 0, true⟩, .add ⟨3, .incremental, 2000, 0, some 2, 0, true⟩,
      .applyRetention 2592055]
    (∀ pre post, ops = pre ++ post → Intact (pre.foldl step (BackupChain.new 1))) ∧
      (ops.foldl step (BackupChain.new 1)).entries = twoFullBackups.tail := by
  intro ops
  have hparent : HasParent ⟨3, .incremental, 2000, 0, some 2, 0, true⟩ (twoFullBackups.take 2) :=
    fun _ h => ⟨_, List.mem_cons_of_mem _ List.mem_cons_self, Option.some.inj h⟩
  refine ⟨(staysIntact_iff (BackupChain.new 1) ops rfl ?_).mpr ⟨fun _ h => (nomatch h), ?_⟩,
    by decide⟩
  · simp only [ops, Lib.forall_split_cons]
    exact ⟨⟨rfl, fun _ h => (nomatch h)⟩, trivial, ⟨rfl, fun _ h => (nomatch h)⟩,
      ⟨rfl, hparent⟩, trivial, Lib.forall_split_nil⟩
  · simp only [ops, Lib.forall_split_cons]
    exact ⟨fun _ => rfl, Nat.lt_succ_self 1, fun _ => rfl, fun h => (nomatch h),
      retainable_twoFullBackups, Lib.forall_split_nil⟩

/-- A full backup with an incremental one on it. -/
def fullAndIncremental : BackupChain where
  entries := [⟨1, .full, 50, 0, none, 0, true⟩, ⟨2, .incremental, 60, 0, some 1, 0, true⟩]
  baseFullId := 1
  chainLength := 2
  maxChainLength := 14

/-- Consolidating breaks the chain, and retention drops the full backup while it keeps the incremental
one that needs it. -/
theorem chain_not_restorable : fullAndIncremental.isBroken = false ∧
    (step fullAndIncremental .consolidate).isBroken = true ∧
    (step fullAndIncremental (.applyRetention 2592055)).isBroken = true ∧
    ¬ ∀ entry ∈ (step fullAndIncremental (.applyRetention 2592055)).entries,
      HasParent entry (step fullAndIncremental (.applyRetention 2592055)).entries := by
  refine ⟨rfl, rfl, by decide, fun h => ?_⟩
  obtain ⟨e, he, hid⟩ := h ⟨2, .incremental, 60, 0, some 1, 0, true⟩ (by decide) 1 rfl
  revert e
  decide

end AthenaOS.Backup
