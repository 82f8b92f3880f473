import AthenaOS.Tar.Header

/-!
# Writing and reading an archive

The invariant of a writer is that its buffer holds the blocks of its members, within the limits of
the reader. One round of the reader takes one block.
-/

namespace AthenaOS.Tar

open Lib Lib.Wire

/-- What a caller adds, and finds again. -/
structure Member where
  name : String
  kind : TarKind
  linkTarget : String
  data : ByteString
  deriving DecidableEq

def TarEntry.member (e : TarEntry) : Member := ⟨e.name, e.kind, e.linkTarget, e.data⟩

/-- A member under the name that comes back. -/
def Member.stored (m : Member) : Member := { m with name := storedName m.name }

/-! ## Calls -/

/-- A call on a writer. -/
inductive Call where
  | file (name : String) (data : ByteString) (info : TarMeta)
  | dir (name : String) (info : TarMeta)
  | symlink (name target : String) (info : TarMeta)

def Call.run : Call → Writing Unit
  | .file name data info => addFileMeta name data info
  | .dir name info => addDirMeta name info
  | .symlink name target info => addSymlink name target info

/-- The member that a call adds. -/
def Call.member : Call → Member
  | .file name data _ => ⟨name, .file, "", data⟩
  | .dir name _ => ⟨name, .dir, "", []⟩
  | .symlink name target _ => ⟨name, .symlink, target, []⟩

/-- A call, and the members added so far. -/
def attempt (s : TarWriter × List Member) (c : Call) : TarWriter × List Member :=
  match c.run.exec s.1 with
  | (.ok _, w) => (w, s.2 ++ [c.member])
  | (.error _, w) => (w, s.2)

/-- Calls on a new writer. -/
def build (calls : List Call) : TarWriter × List Member := calls.foldl attempt (.new, [])

/-- What was added comes back. -/
def RoundTrips (calls : List Call) : Prop :=
  ∃ tar entries, (build calls).1.finish = .ok tar ∧ readTar tar = .ok entries ∧
    entries.map TarEntry.member = (build calls).2

/-! ## What is written -/

/-- The types of real entries. -/
def IsReal (typeflag : UInt8) : Prop :=
  typeflag ≠ ascii 'L' ∧ typeflag ≠ ascii 'K' ∧ typeflag ≠ ascii 'x' ∧ typeflag ≠ ascii 'g'

instance (typeflag : UInt8) : Decidable (IsReal typeflag) := inferInstanceAs (Decidable (_ ∧ _))

theorem padding_zero : padding 0 = [] := by decide

/-- The bytes that stand for a member. -/
inductive Block (m : Member) : ByteString → Prop
  | mk {h : Bytes 512} {typeflag : UInt8} : Header h (storedName m.name) m.linkTarget typeflag m.data.length →
    kindOf typeflag = m.kind → IsReal typeflag → (m.kind ≠ .file → m.data = []) →
    m.data.length ≤ maxEntrySize → Block m (h.toList ++ (m.data ++ padding m.data.length))

/-- What a call that returns `Ok` does to the writer. -/
structure Extends (w w' : TarWriter) (m : Member) : Prop where
  block : ∃ bytes, Block m bytes ∧ w'.buf = w.buf ++ bytes
  count : w'.count = w.count + 1
  total : w'.total = w.total + m.data.length
  count_le : w'.count ≤ maxEntries
  total_le : w'.total ≤ maxTotalSize

variable {w w' : TarWriter} {u : Unit} {ms : List Member} {m : Member} {bytes data : ByteString}
variable {r : Reading} {bs : List ByteString}

/-- The limits hold after a reservation. -/
theorem reserveEntry_eq_ok {n : Nat} (h : (reserveEntry n).exec w = (.ok u, w')) :
    w' = w ∧ w.count + 1 ≤ maxEntries ∧ min (w.total + n) (2 ^ 64 - 1) = w.total + n ∧
      w.total + n ≤ maxTotalSize := by
  obtain ⟨s, w₁, hread, h₁⟩ := Checked.bind_eq_ok h
  obtain ⟨hs, rfl⟩ := Prod.mk.inj hread
  obtain rfl := Except.ok.inj hs
  obtain ⟨_, w₂, hcount, h₂⟩ := Checked.bind_eq_ok h₁
  obtain ⟨hcount, rfl⟩ := Checked.require_eq_ok hcount
  obtain ⟨htotal, rfl⟩ := Checked.require_eq_ok h₂
  have htotal := of_decide_eq_true htotal
  rw [maxTotalSize] at htotal ⊢
  exact ⟨rfl, of_decide_eq_true hcount, by omega, by omega⟩

theorem readOnly_reserveEntry (n : Nat) : Checked.ReadOnly (reserveEntry n) := by
  intro w
  rw [reserveEntry, Checked.bind_ok Checked.exec_read]
  by_cases hcount : decide (w.count + 1 ≤ maxEntries) = true
  · rw [Checked.bind_ok (Checked.require_exec hcount)]
    rfl
  · rw [Checked.exec_bind, Checked.require, if_neg hcount]
    rfl

theorem failSafe_write (f : TarWriter → TarWriter) :
    Checked.FailSafe (Checked.write f : Checked TarWriteError TarWriter Unit) :=
  fun _ _ _ h => nomatch congrArg Prod.fst h

/-- **A call that returns an error adds nothing.** -/
theorem failSafe_run (c : Call) : Checked.FailSafe c.run := by
  cases c with
  | file name data info =>
    refine (Checked.readOnly_ofExcept _).bind_failSafe fun _ => ?_
    refine (readOnly_reserveEntry _).bind_failSafe fun _ => ?_
    exact (Checked.readOnly_ofExcept _).bind_failSafe fun _ => failSafe_write _
  | dir name info =>
    refine (readOnly_reserveEntry _).bind_failSafe fun _ => ?_
    exact (Checked.readOnly_ofExcept _).bind_failSafe fun _ => failSafe_write _
  | symlink name target info =>
    refine (Checked.readOnly_ofExcept _).bind_failSafe fun _ => ?_
    refine (readOnly_reserveEntry _).bind_failSafe fun _ => ?_
    exact (Checked.readOnly_ofExcept _).bind_failSafe fun _ => failSafe_write _

/-- **A call that returns `Ok` adds its member.** -/
theorem run_eq_ok {c : Call} (h : c.run.exec w = (.ok u, w')) : Extends w w' c.member := by
  cases c with
  | file name data info =>
    obtain ⟨_, w₁, hrequire, h₁⟩ := Checked.bind_eq_ok h
    obtain ⟨hfits, rfl⟩ := Checked.require_eq_ok hrequire
    have hsize : data.length ≤ maxEntrySize := of_decide_eq_true hfits
    obtain ⟨_, w₂, hreserve, h₂⟩ := Checked.bind_eq_ok h₁
    obtain ⟨rfl, hcount, htotal, hle⟩ := reserveEntry_eq_ok hreserve
    obtain ⟨hd, w₃, hresult, h₃⟩ := Checked.bind_eq_ok h₂
    obtain ⟨hbuild, rfl⟩ := Checked.ofExcept_eq_ok hresult
    obtain ⟨-, rfl⟩ := Prod.mk.inj h₃
    have hheader := buildHeader_eq_ok (Nat.lt_of_le_of_lt hsize (by decide)) hbuild
    have hblock : Block (Call.file name data info).member _ :=
      .mk hheader rfl (by decide) (fun hne => absurd rfl hne) hsize
    refine ⟨⟨_, hblock, ?_⟩, rfl, htotal, hcount, Nat.le_trans (Nat.le_of_eq htotal) hle⟩
    rw [← List.append_assoc hd.toList]
    rfl
  | dir name info =>
    obtain ⟨_, w₂, hreserve, h₂⟩ := Checked.bind_eq_ok h
    obtain ⟨rfl, hcount, -, hle⟩ := reserveEntry_eq_ok hreserve
    obtain ⟨hd, w₃, hresult, h₃⟩ := Checked.bind_eq_ok h₂
    obtain ⟨hbuild, rfl⟩ := Checked.ofExcept_eq_ok hresult
    obtain ⟨-, rfl⟩ := Prod.mk.inj h₃
    have hheader := buildHeader_eq_ok (by decide) hbuild
    have hblock : Block (Call.dir name info).member _ :=
      .mk hheader rfl (by decide) (fun _ => rfl) (Nat.zero_le _)
    have hbody : (Call.dir name info).member.data ++ padding (Call.dir name info).member.data.length = [] := by
      rw [Call.member, List.nil_append]
      exact padding_zero
    rw [hbody, List.append_nil] at hblock
    exact ⟨⟨_, hblock, rfl⟩, rfl, rfl, hcount, hle⟩
  | symlink name target info =>
    obtain ⟨_, w₁, htarget, h₁⟩ := Checked.bind_eq_ok h
    obtain ⟨-, rfl⟩ := Checked.require_eq_ok htarget
    obtain ⟨_, w₂, hreserve, h₂⟩ := Checked.bind_eq_ok h₁
    obtain ⟨rfl, hcount, -, hle⟩ := reserveEntry_eq_ok hreserve
    obtain ⟨hd, w₃, hresult, h₃⟩ := Checked.bind_eq_ok h₂
    obtain ⟨hbuild, rfl⟩ := Checked.ofExcept_eq_ok hresult
    obtain ⟨-, rfl⟩ := Prod.mk.inj h₃
    have hheader := buildHeader_eq_ok (by decide) hbuild
    have hblock : Block (Call.symlink name target info).member _ :=
      .mk hheader rfl (by decide) (fun _ => rfl) (Nat.zero_le _)
    have hbody : (Call.symlink name target info).member.data ++ padding (Call.symlink name target info).member.data.length = [] := by
      rw [Call.member, List.nil_append]
      exact padding_zero
    rw [hbody, List.append_nil] at hblock
    exact ⟨⟨_, hblock, rfl⟩, rfl, rfl, hcount, hle⟩

/-- The bytes of all members. -/
def bodySize (ms : List Member) : Nat := (ms.map fun m => m.data.length).sum

/-- The buffer holds the blocks of the members that were added, within the limits. -/
structure Written (w : TarWriter) (ms : List Member) : Prop where
  blocks : ∃ bs, List.Forall₂ Block ms bs ∧ w.buf = bs.flatten
  count : w.count = ms.length
  total : w.total = bodySize ms
  count_le : w.count ≤ maxEntries
  total_le : w.total ≤ maxTotalSize

theorem written_new : Written .new [] := ⟨⟨[], .nil, rfl⟩, rfl, rfl, Nat.zero_le _, Nat.zero_le _⟩

/-- One more member. -/
theorem Written.extend (h : Written w ms) (hext : Extends w w' m) : Written w' (ms ++ [m]) := by
  obtain ⟨bs, hblocks, hbuf⟩ := h.blocks
  obtain ⟨bytes, hblock, hbuf'⟩ := hext.block
  refine ⟨⟨bs ++ [bytes], ?_, ?_⟩, ?_, ?_, hext.count_le, hext.total_le⟩
  · exact List.rel_append hblocks (.cons hblock .nil)
  · rw [hbuf', hbuf, List.flatten_append]
    simp
  · rw [hext.count, h.count, List.length_append]
    rfl
  · rw [hext.total, h.total, bodySize, bodySize, List.map_append, List.sum_append]
    simp

/-- Every call keeps the invariant. -/
theorem written_attempt {s : TarWriter × List Member} (h : Written s.1 s.2) (c : Call) :
    Written (attempt s c).1 (attempt s c).2 := by
  rw [attempt]
  split
  · next hrun => exact h.extend (run_eq_ok hrun)
  · next hrun =>
    rw [failSafe_run c _ _ _ hrun]
    exact h

theorem written_build (calls : List Call) : Written (build calls).1 (build calls).2 := by
  suffices hall : ∀ s : TarWriter × List Member, Written s.1 s.2 →
      Written (calls.foldl attempt s).1 (calls.foldl attempt s).2 from hall _ written_new
  induction calls with
  | nil => exact fun _ h => h
  | cons c calls ih => exact fun s h => ih _ (written_attempt h c)

/-! ## What is read -/

theorem length_padding (n : Nat) : n + (padding n).length = (n + 511) / 512 * 512 := by
  rw [padding, List.length_replicate, blockLen]
  omega

theorem Block.length_eq (h : Block m bytes) :
    bytes.length = 512 + (m.data.length + 511) / 512 * 512 := by
  cases h with
  | mk _ _ _ _ _ =>
    rw [List.length_append, List.length_append, Bytes.length_toList, length_padding]

/-- The reader after one more member. -/
def Reading.push (r : Reading) (e : TarEntry) : Reading :=
  { r with entries := r.entries ++ [e], total := r.total + e.data.length, zeroSeen := false, anyValid := true }

/-- An entry has the numbers of the header in front of a block. -/
def Stamped (bytes : ByteString) (e : TarEntry) : Prop :=
  ∀ n, readNumbers (bytes.take blockLen) = .ok n → e.mode = n.mode ∧ e.mtime = n.mtime

/-- An entry is read from its header. -/
theorem readEntry_header {h : Bytes 512} {typeflag : UInt8} {n : Numbers}
    (hheader : Header h (storedName m.name) m.linkTarget typeflag m.data.length)
    (hkind : kindOf typeflag = m.kind) (hdata : m.kind ≠ .file → m.data = [])
    (hpending : r.pending = .default) (hcount : r.entries.length + 1 ≤ maxEntries)
    (htotal : r.total + m.data.length ≤ maxTotalSize) :
    ∃ e, e.member = m.stored ∧ (e.mode = n.mode ∧ e.mtime = n.mtime) ∧
      readEntry h.toList m.data n r = .ok { r with entries := r.entries ++ [e], total :=
      r.total + e.data.length } := by
  have hbody : (if kindOf (h.toList.getD 156 0) = .file then m.data else []) = m.data := by
    rw [hheader.typeflag, hkind]
    split
    · rfl
    · next hne => exact (hdata hne).symm
  have hsum : min (r.total + m.data.length) (2 ^ 64 - 1) = r.total + m.data.length := by
    rw [maxTotalSize] at htotal
    omega
  refine ⟨⟨storedName m.name, n.size, m.kind, n.mode, n.mtime, m.linkTarget, m.data⟩, rfl, ⟨rfl, rfl⟩, ?_⟩
  rw [readEntry, hpending, bind_ok hheader.name, bind_ok hheader.link]
  dsimp only
  rw [hbody, hsum, hheader.typeflag, hkind]
  have hfits : require (r.total + m.data.length ≤ maxTotalSize) .tooLarge = .ok () :=
    if_pos (decide_eq_true htotal)
  have hroom : ∀ e : TarEntry, require ((r.entries ++ [e]).length ≤ maxEntries) .tooLarge = .ok () := by
    intro e
    rw [List.length_append]
    exact if_pos (decide_eq_true hcount)
  rw [bind_ok hfits, bind_ok (hroom _), ← hpending]
  rw [show r.pending.size = none from congrArg Pending.size hpending]
  rfl

/-- **One round takes one block.** -/
theorem readRound_block (hblock : Block m bytes) (pre post : ByteString)
    (hpending : r.pending = .default) (hcount : r.entries.length + 1 ≤ maxEntries)
    (htotal : r.total + m.data.length ≤ maxTotalSize) (hlen : pre.length + bytes.length < 2 ^ 64) :
    ∃ e, e.member = m.stored ∧ Stamped bytes e ∧ readRound (pre ++ (bytes ++ post)) r pre.length =
      .ok (.inl (r.push e), (pre ++ bytes).length) := by
  have hbytes := hblock.length_eq
  cases hblock with
  | @mk h typeflag hheader hkind hreal hdata hsize =>
  obtain ⟨mode, mtime, hnumbers⟩ := hheader.numbers
  obtain ⟨e, he, hstamp, hentry⟩ := readEntry_header (n := ⟨m.data.length, mode, mtime⟩)
    (r := { r with zeroSeen := false, anyValid := true }) hheader hkind hdata hpending hcount htotal
  have hhead : (h.toList).length = 512 := Bytes.length_toList h
  refine ⟨e, he, ?_, ?_⟩
  · intro n hn
    rw [List.take_left' (show h.toList.length = blockLen from hhead), hnumbers] at hn
    obtain rfl := Except.ok.inj hn
    exact hstamp
  have hblock : slice (pre ++ (h.toList ++ (m.data ++ padding m.data.length) ++ post)) pre.length blockLen =
      h.toList := by
    rw [List.append_assoc h.toList]
    exact slice_append_mid _ _ _ rfl hhead.symm
  have hbody : slice (pre ++ (h.toList ++ (m.data ++ padding m.data.length) ++ post)) (pre.length + blockLen)
      m.data.length = m.data := by
    rw [List.append_assoc h.toList, ← List.append_assoc pre, List.append_assoc m.data]
    refine slice_append_mid _ _ _ ?_ rfl
    rw [List.length_append, hhead]
    rfl
  generalize hall : pre ++ (h.toList ++ (m.data ++ padding m.data.length) ++ post) = data at hblock hbody ⊢
  have hdatalen : pre.length + (512 + (m.data.length + 511) / 512 * 512) ≤ data.length := by
    rw [← hall, List.length_append, List.length_append, hbytes]
    omega
  have hsize' : m.data.length ≤ 1024 * 1024 * 1024 := hsize
  have hmember : readMember h.toList m.data ⟨m.data.length, mode, mtime⟩
      { r with zeroSeen := false, anyValid := true } = .ok (r.push e) := by
    rw [readMember, hheader.typeflag]
    dsimp only
    obtain ⟨hL, hK, hx, hg⟩ := hreal
    rw [if_neg hL, if_neg hK, if_neg (not_or_intro hx hg)]
    exact hentry
  have hinside : pre.length + blockLen + m.data.length ≤ data.length := by
    rw [blockLen]
    omega
  have hnext : pre.length + blockLen + (m.data.length + 511) / 512 * 512 < 2 ^ 64 := by
    rw [blockLen]
    omega
  rw [readRound_header hblock hheader.checksum hheader.nonzero hnumbers hsize hinside hnext (by rw [hbody]; exact hmember)]
  refine congrArg (fun pos => Except.ok (Sum.inl (r.push e), pos)) ?_
  show pre.length + blockLen + (m.data.length + 511) / 512 * 512 = _
  rw [List.length_append, hbytes, blockLen]
  omega

theorem bodySize_cons (m : Member) (ms : List Member) : bodySize (m :: ms) = m.data.length + bodySize ms := rfl

/-- **The loop takes all blocks**, by induction on them. -/
theorem loop_blocks (hblocks : List.Forall₂ Block ms bs)
    (pre post : ByteString) (hdata : data = pre ++ (bs.flatten ++ post))
    (hpending : r.pending = .default) (hzero : r.zeroSeen = false)
    (hcount : r.entries.length + ms.length ≤ maxEntries) (htotal : r.total + bodySize ms ≤ maxTotalSize)
    (hlen : pre.length + bs.flatten.length < 2 ^ 64) :
    ∃ r', Decoder.loop (fun pos => data.length - pos) (readRound data) (progresses_readRound data) r pre.length =
        Decoder.loop (fun pos => data.length - pos) (readRound data) (progresses_readRound data) r'
          (pre ++ bs.flatten).length ∧
      r'.zeroSeen = false ∧ ∃ entries, r'.entries = r.entries ++ entries ∧
        entries.map TarEntry.member = ms.map Member.stored ∧ List.Forall₂ Stamped bs entries := by
  induction hblocks generalizing pre r with
  | nil => exact ⟨r, by rw [List.flatten_nil, List.append_nil], hzero, [], by simp, rfl, .nil⟩
  | @cons m bytes ms bs hblock hblocks ih =>
    rw [bodySize_cons] at htotal
    rw [List.length_cons] at hcount
    rw [List.flatten_cons] at hdata hlen ⊢
    rw [List.length_append] at hlen
    obtain ⟨e, he, hstamp, hround⟩ := readRound_block hblock pre (bs.flatten ++ post) hpending (by omega) (by omega)
      (by omega)
    have hedata : e.data.length = m.data.length := congrArg (fun m => m.data.length) he
    rw [← List.append_assoc bytes, ← hdata] at hround
    obtain ⟨r', hrest, hzero', entries, hentries, hmembers, hstamps⟩ := ih (pre ++ bytes) (r := r.push e)
      (by rw [hdata, List.append_assoc, List.append_assoc]) hpending rfl
      (by show (r.entries ++ [e]).length + ms.length ≤ _; rw [List.length_append, List.length_singleton]; omega)
      (by show r.total + e.data.length + bodySize ms ≤ _; omega)
      (by rw [List.length_append]; omega)
    refine ⟨r', (Decoder.loop_continue hround).trans ?_, hzero', e :: entries, ?_, ?_, .cons hstamp hstamps⟩
    · rw [hrest, List.append_assoc]
    · rw [hentries]
      show (r.entries ++ [e]) ++ entries = _
      rw [List.append_assoc, List.singleton_append]
    · rw [List.map_cons, List.map_cons, he, hmembers]

/-- Two zero blocks end the archive. -/
theorem loop_end (pre : ByteString) (hdata : data = pre ++ List.replicate (blockLen * 2) 0)
    (hzero : r.zeroSeen = false) :
    Decoder.loop (fun pos => data.length - pos) (readRound data) (progresses_readRound data) r
      pre.length = .ok (r.entries, pre.length + blockLen) := by
  have hlen : data.length = pre.length + 1024 := by
    rw [hdata, List.length_append, List.length_replicate, blockLen]
  have hblock : ∀ k, k ≤ 1 → isZeroBlock (slice data (pre.length + blockLen * k) blockLen) = true := by
    intro k hk
    have hslice : slice data (pre.length + blockLen * k) blockLen = List.replicate 512 0 := by
      rw [hdata, slice_append_right _ _ (Nat.le_add_right _ _), slice, List.drop_replicate, List.take_replicate,
        blockLen]
      congr 1
      omega
    rw [hslice]
    decide +kernel
  have hfirst : readRound data r pre.length = .ok (.inl { r with zeroSeen := true }, pre.length + blockLen) := by
    have hblock₀ := hblock 0 (Nat.zero_le _)
    rw [Nat.mul_zero, Nat.add_zero] at hblock₀
    rw [readRound, if_neg (by rw [hlen, blockLen]; omega), if_pos hblock₀, if_neg]
    rw [hzero]
    decide
  have hsecond : readRound data { r with zeroSeen := true } (pre.length + blockLen) =
      .ok (.inr r.entries, pre.length + blockLen) := by
    have hblock₁ := hblock 1 (Nat.le_refl _)
    rw [Nat.mul_one] at hblock₁
    rw [readRound, if_neg (by rw [hlen, blockLen]; omega), if_pos hblock₁, if_pos rfl]
  exact (Decoder.loop_continue hfirst).trans (Decoder.loop_break hsecond)

/-- The blocks of a writer fit a `usize`. -/
theorem length_flatten_le (hblocks : List.Forall₂ Block ms bs) :
    bs.flatten.length ≤ 1024 * ms.length + bodySize ms := by
  induction hblocks with
  | nil => exact Nat.le_refl _
  | cons hblock hblocks ih =>
    have hlen := hblock.length_eq
    rw [List.flatten_cons, List.length_append, List.length_cons, bodySize_cons]
    omega

/-- **Reading blocks** gives their members, under the names that are stored, with the numbers of their headers. -/
theorem readTar_blocks (hblocks : List.Forall₂ Block ms bs) (hcount : ms.length ≤ maxEntries)
    (htotal : bodySize ms ≤ maxTotalSize) :
    ∃ entries, readTar (bs.flatten ++ List.replicate (blockLen * 2) 0) = .ok entries ∧
      entries.map TarEntry.member = ms.map Member.stored ∧ List.Forall₂ Stamped bs entries := by
  have hfits := length_flatten_le hblocks
  have hcount' : ms.length ≤ 2 ^ 20 := hcount
  have htotal' : bodySize ms ≤ 2 * 1024 * 1024 * 1024 := htotal
  have hdata : bs.flatten ++ List.replicate (blockLen * 2) 0 =
      ([] : ByteString) ++ (bs.flatten ++ List.replicate (blockLen * 2) 0) := rfl
  obtain ⟨r', hloop, hzero, entries, hentries, hmembers, hstamps⟩ := loop_blocks hblocks [] _ hdata (r := .start)
    rfl rfl (by rw [show Reading.start.entries = [] from rfl, List.length_nil, Nat.zero_add]; exact hcount)
    (by rw [show Reading.start.total = 0 from rfl, Nat.zero_add]; exact htotal)
    (by rw [List.length_nil]; omega)
  rw [List.nil_append, loop_end bs.flatten rfl hzero, hentries] at hloop
  refine ⟨entries, ?_, hmembers, hstamps⟩
  have hlong : ¬ (bs.flatten ++ List.replicate (blockLen * 2) 0).length < blockLen := by
    rw [List.length_append, List.length_replicate]
    omega
  rw [readTar, if_neg hlong]
  exact congrArg (Except.map Prod.fst) hloop

/-- **Reading what was written** gives the members, under the names that are stored. -/
theorem readTar_finish (h : Written w ms) :
    ∃ tar entries, w.finish = .ok tar ∧ readTar tar = .ok entries ∧
      entries.map TarEntry.member = ms.map Member.stored := by
  obtain ⟨bs, hblocks, hbuf⟩ := h.blocks
  obtain ⟨entries, hread, hmembers, -⟩ := readTar_blocks hblocks (h.count ▸ h.count_le) (h.total ▸ h.total_le)
  exact ⟨_, entries, rfl, by rw [hbuf]; exact hread, hmembers⟩

theorem map_stored_eq_iff : ms.map Member.stored = ms ↔ ∀ m ∈ ms, ¬ LosesSlash m.name := by
  induction ms with
  | nil => simp
  | cons m ms ih =>
    rw [List.map_cons, List.cons.injEq, ih, List.forall_mem_cons]
    refine and_congr_left fun _ => ?_
    rw [← storedName_eq_iff]
    constructor
    · exact congrArg Member.name
    · intro hname
      rw [Member.stored, hname]

/-- **Round trip.** What was added comes back iff no name loses its slash: one of 101 bytes whose
only usable slash is its first byte. -/
theorem roundTrips_iff (calls : List Call) :
    RoundTrips calls ↔ ∀ m ∈ (build calls).2, ¬ LosesSlash m.name := by
  obtain ⟨tar, entries, hfinish, hread, hentries⟩ := readTar_finish (written_build calls)
  rw [← map_stored_eq_iff, ← hentries]
  constructor
  · rintro ⟨tar', entries', hfinish', hread', hsame⟩
    obtain rfl := Except.ok.inj (hfinish.symm.trans hfinish')
    obtain rfl := Except.ok.inj (hread.symm.trans hread')
    exact hsame
  · intro hsame
    exact ⟨tar, entries, hfinish, hread, hsame⟩

/-- A directory at the root with a long name. -/
def rootName : String := "/" ++ String.ofList (List.replicate 100 'a')

/-- The name comes back without its slash. -/
theorem rootName_not_roundTrips : ¬ ∀ calls, RoundTrips calls := by
  intro h
  obtain ⟨tar, entries, hfinish, hread, hsame⟩ := h [.dir rootName ⟨0o755, 0, 0, 0⟩]
  obtain ⟨tar', entries', hfinish', hread', hentries⟩ :=
    readTar_finish (written_build [.dir rootName ⟨0o755, 0, 0, 0⟩])
  obtain rfl := Except.ok.inj (hfinish.symm.trans hfinish')
  obtain rfl := Except.ok.inj (hread.symm.trans hread')
  have hstored := map_stored_eq_iff.mp (hentries.symm.trans hsame)
  have hadded : (build [.dir rootName ⟨0o755, 0, 0, 0⟩]).2 = [⟨rootName, .dir, "", []⟩] := by decide
  rw [hadded] at hstored
  exact hstored _ List.mem_cons_self (by decide)

end AthenaOS.Tar
