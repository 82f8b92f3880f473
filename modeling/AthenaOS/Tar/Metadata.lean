import AthenaOS.Tar.RoundTrip

/-!
# Modes and times

What comes back of the numbers a caller passes.
-/

namespace AthenaOS.Tar

open Lib Lib.Wire

/-! ## Calls that succeed -/

deriving instance DecidableEq for TarMeta
deriving instance DecidableEq for Call

/-- What goes into the header. -/
def Call.info : Call → TarMeta
  | .file _ _ info => info
  | .dir _ info => if info.mode = 0o644 then { info with mode := 0o755 } else info
  | .symlink _ _ info => info

/-- The mode and the time fit seven and eleven octal digits. -/
def TarMeta.Fits (info : TarMeta) : Prop := info.mode.toNat < 8 ^ 7 ∧ info.mtime.toNat < 8 ^ 11

instance (info : TarMeta) : Decidable info.Fits := inferInstanceAs (Decidable (_ ∧ _))

/-- A call, and the calls that returned `Ok` so far. -/
def attemptCall (s : TarWriter × List Call) (c : Call) : TarWriter × List Call :=
  match c.run.exec s.1 with
  | (.ok _, w) => (w, s.2 ++ [c])
  | (.error _, w) => (w, s.2)

/-- The calls that return `Ok` on a new writer. -/
def added (calls : List Call) : List Call := (calls.foldl attemptCall (.new, [])).2

/-- An entry has the mode and the time that were passed. Directories replace a mode. -/
def Keeps : Call → TarEntry → Prop
  | .dir _ _, _ => True
  | c, e => e.mode = c.info.mode.toNat ∧ e.mtime = c.info.mtime.toNat

/-- The modes and times of files and symlinks come back. -/
def KeepsNumbers (calls : List Call) : Prop :=
  ∃ tar entries, (build calls).1.finish = .ok tar ∧ readTar tar = .ok entries ∧
    List.Forall₂ Keeps (added calls) entries

/-! ## What is written -/

/-- The bytes that stand for a call. -/
structure Stands (c : Call) (bytes : ByteString) : Prop where
  block : Block c.member bytes
  numbers : readNumbers (bytes.take blockLen) =
    .ok ⟨c.member.data.length, c.info.mode.toNat % 8 ^ 7, c.info.mtime.toNat % 8 ^ 11⟩

/-- The numbers of a header in front of other bytes. -/
theorem readNumbers_front {name link : String} {typeflag : UInt8} {size : Nat} {info : TarMeta} {h : Bytes 512}
    (hsize : size < 8 ^ 11) (hbuild : buildHeader name typeflag size link info = .ok h) (rest : ByteString) :
    readNumbers ((h.toList ++ rest).take blockLen) =
      .ok ⟨size, info.mode.toNat % 8 ^ 7, info.mtime.toNat % 8 ^ 11⟩ := by
  have hhead : h.toList.length = blockLen := Bytes.length_toList h
  rw [List.take_left' hhead]
  exact readNumbers_buildHeader hsize hbuild

/-- **A call that returns `Ok`** puts its header in front of what it writes. -/
theorem run_numbers {c : Call} {w w' : TarWriter} {u : Unit} (h : c.run.exec w = (.ok u, w')) :
    ∃ bytes, w'.buf = w.buf ++ bytes ∧ readNumbers (bytes.take blockLen) =
      .ok ⟨c.member.data.length, c.info.mode.toNat % 8 ^ 7, c.info.mtime.toNat % 8 ^ 11⟩ := by
  cases c with
  | file name data info =>
    obtain ⟨_, w₁, hrequire, h₁⟩ := Checked.bind_eq_ok h
    obtain ⟨hfits, rfl⟩ := Checked.require_eq_ok hrequire
    obtain ⟨_, w₂, hreserve, h₂⟩ := Checked.bind_eq_ok h₁
    obtain ⟨rfl, -⟩ := reserveEntry_eq_ok hreserve
    obtain ⟨hd, w₃, hresult, h₃⟩ := Checked.bind_eq_ok h₂
    obtain ⟨hbuild, rfl⟩ := Checked.ofExcept_eq_ok hresult
    obtain ⟨-, rfl⟩ := Prod.mk.inj h₃
    refine ⟨hd.toList ++ (data ++ padding data.length), ?_, ?_⟩
    · rw [← List.append_assoc hd.toList]
    · exact readNumbers_front (Nat.lt_of_le_of_lt (of_decide_eq_true hfits) (by decide)) hbuild _
  | dir name info =>
    obtain ⟨_, w₂, hreserve, h₂⟩ := Checked.bind_eq_ok h
    obtain ⟨rfl, -⟩ := reserveEntry_eq_ok hreserve
    obtain ⟨hd, w₃, hresult, h₃⟩ := Checked.bind_eq_ok h₂
    obtain ⟨hbuild, rfl⟩ := Checked.ofExcept_eq_ok hresult
    obtain ⟨-, rfl⟩ := Prod.mk.inj h₃
    refine ⟨hd.toList ++ [], by rw [List.append_nil], ?_⟩
    exact readNumbers_front (by decide) hbuild []
  | symlink name target info =>
    obtain ⟨_, w₁, htarget, h₁⟩ := Checked.bind_eq_ok h
    obtain ⟨-, rfl⟩ := Checked.require_eq_ok htarget
    obtain ⟨_, w₂, hreserve, h₂⟩ := Checked.bind_eq_ok h₁
    obtain ⟨rfl, -⟩ := reserveEntry_eq_ok hreserve
    obtain ⟨hd, w₃, hresult, h₃⟩ := Checked.bind_eq_ok h₂
    obtain ⟨hbuild, rfl⟩ := Checked.ofExcept_eq_ok hresult
    obtain ⟨-, rfl⟩ := Prod.mk.inj h₃
    refine ⟨hd.toList ++ [], by rw [List.append_nil], ?_⟩
    exact readNumbers_front (by decide) hbuild []

/-- The buffer holds the blocks of the calls that returned `Ok`. -/
structure Logged (w : TarWriter) (cs : List Call) : Prop where
  written : Written w (cs.map Call.member)
  stands : ∃ bs, List.Forall₂ Stands cs bs ∧ w.buf = bs.flatten

theorem logged_new : Logged .new [] := ⟨written_new, [], .nil, rfl⟩

/-- Every call keeps the invariant. -/
theorem logged_attempt {s : TarWriter × List Call} (h : Logged s.1 s.2) (c : Call) :
    Logged (attemptCall s c).1 (attemptCall s c).2 := by
  rw [attemptCall]
  split
  · next hrun =>
    have hext := run_eq_ok hrun
    obtain ⟨bytes, hblock, hbuf⟩ := hext.block
    obtain ⟨bytes', hbuf', hnumbers⟩ := run_numbers hrun
    obtain rfl : bytes = bytes' := List.append_cancel_left (hbuf.symm.trans hbuf')
    obtain ⟨bs, hstands, hall⟩ := h.stands
    refine ⟨?_, bs ++ [bytes], List.rel_append hstands (.cons ⟨hblock, hnumbers⟩ .nil), ?_⟩
    · rw [List.map_append]
      exact h.written.extend hext
    · rw [hbuf, hall, List.flatten_append]
      simp
  · next hrun =>
    rw [failSafe_run c _ _ _ hrun]
    exact h

/-- The members that were added are those of the calls that returned `Ok`. -/
theorem foldl_attemptCall (calls : List Call) (s : TarWriter × List Call) :
    calls.foldl attempt (s.1, s.2.map Call.member) =
      ((calls.foldl attemptCall s).1, (calls.foldl attemptCall s).2.map Call.member) := by
  induction calls generalizing s with
  | nil => rfl
  | cons c calls ih =>
    have hstep : attempt (s.1, s.2.map Call.member) c =
        ((attemptCall s c).1, (attemptCall s c).2.map Call.member) := by
      rw [attempt, attemptCall]
      cases c.run.exec s.1 with
      | mk result w =>
        cases result with
        | ok _ => exact congrArg (Prod.mk w) (@List.map_append _ _ Call.member _ [c]).symm
        | error _ => rfl
    rw [List.foldl_cons, List.foldl_cons, hstep, ih]

theorem logged_added (calls : List Call) : Logged (build calls).1 (added calls) := by
  have hwriter : (build calls).1 = (calls.foldl attemptCall (.new, [])).1 :=
    congrArg Prod.fst (foldl_attemptCall calls (.new, []))
  rw [hwriter, added]
  suffices hall : ∀ s : TarWriter × List Call, Logged s.1 s.2 →
      Logged (calls.foldl attemptCall s).1 (calls.foldl attemptCall s).2 from hall _ logged_new
  clear hwriter
  induction calls with
  | nil => exact fun _ h => h
  | cons c calls ih => exact fun s h => ih _ (logged_attempt h c)

/-! ## What comes back -/

/-- What comes back of a call. -/
def Comes (c : Call) (e : TarEntry) : Prop :=
  e.mode = c.info.mode.toNat % 8 ^ 7 ∧ e.mtime = c.info.mtime.toNat % 8 ^ 11

/-- **Every entry comes back with the last digits of its numbers.** -/
theorem readTar_added (calls : List Call) :
    ∃ tar entries, (build calls).1.finish = .ok tar ∧ readTar tar = .ok entries ∧
      List.Forall₂ Comes (added calls) entries := by
  have hlogged := logged_added calls
  obtain ⟨bs, hstands, hbuf⟩ := hlogged.stands
  have hwritten := hlogged.written
  have hblocks : List.Forall₂ Block ((added calls).map Call.member) bs :=
    List.forall₂_map_left_iff.mpr (hstands.imp fun _ _ h => h.block)
  obtain ⟨entries, hread, -, hstamps⟩ := readTar_blocks hblocks (hwritten.count ▸ hwritten.count_le)
    (hwritten.total ▸ hwritten.total_le)
  refine ⟨_, entries, rfl, by rw [hbuf]; exact hread, ?_⟩
  clear hread hblocks hwritten hlogged hbuf
  generalize added calls = cs at hstands
  induction hstands generalizing entries with
  | nil =>
    cases hstamps
    exact .nil
  | cons hstand _ ih =>
    cases hstamps with
    | cons hstamp hstamps => exact .cons (hstamp _ hstand.numbers) (ih _ hstamps)

/-- What comes back is what was passed iff it fits. -/
theorem keeps_iff {c : Call} {e : TarEntry} (h : Comes c e) (hdir : ∀ name info, c ≠ .dir name info) :
    Keeps c e ↔ c.info.Fits := by
  obtain ⟨hmode, hmtime⟩ := h
  have hkeeps : Keeps c e ↔ e.mode = c.info.mode.toNat ∧ e.mtime = c.info.mtime.toNat := by
    cases c with
    | file name data info => exact Iff.rfl
    | dir name info => exact absurd rfl (hdir name info)
    | symlink name target info => exact Iff.rfl
  rw [hkeeps, hmode, hmtime, TarMeta.Fits, Nat.mod_eq_iff_lt (by decide), Nat.mod_eq_iff_lt (by decide)]

theorem forall₂_keeps_iff {cs : List Call} {entries : List TarEntry} (h : List.Forall₂ Comes cs entries) :
    List.Forall₂ Keeps cs entries ↔ ∀ c ∈ cs, (∀ name info, c ≠ .dir name info) → c.info.Fits := by
  induction h with
  | nil => simp
  | @cons c e cs entries hcomes _ ih =>
    rw [List.forall₂_cons, ih, List.forall_mem_cons]
    refine and_congr_left fun _ => ?_
    cases c with
    | dir name info => exact ⟨fun _ hdir => absurd rfl (hdir name info), fun _ => trivial⟩
    | file name data info =>
      have hdir : ∀ name' info', Call.file name data info ≠ .dir name' info' := fun _ _ h => nomatch h
      rw [keeps_iff hcomes hdir]
      exact ⟨fun h _ => h, fun h => h hdir⟩
    | symlink name target info =>
      have hdir : ∀ name' info', Call.symlink name target info ≠ .dir name' info' := fun _ _ h => nomatch h
      rw [keeps_iff hcomes hdir]
      exact ⟨fun h _ => h, fun h => h hdir⟩

/-- **Modes and times come back** iff those of every file and symlink that was added fit their
digits. -/
theorem keepsNumbers_iff (calls : List Call) :
    KeepsNumbers calls ↔ ∀ c ∈ added calls, (∀ name info, c ≠ .dir name info) → c.info.Fits := by
  obtain ⟨tar, entries, hfinish, hread, hcomes⟩ := readTar_added calls
  rw [← forall₂_keeps_iff hcomes]
  constructor
  · rintro ⟨tar', entries', hfinish', hread', hkeeps⟩
    obtain rfl := Except.ok.inj (hfinish.symm.trans hfinish')
    obtain rfl := Except.ok.inj (hread.symm.trans hread')
    exact hkeeps
  · intro hkeeps
    exact ⟨tar, entries, hfinish, hread, hkeeps⟩

/-- A file of the year 2242. -/
def lateFile : Call := .file "a" [] ⟨0o644, 0, 0, 8 ^ 11⟩

theorem added_lateFile : added [lateFile] = [lateFile] := by decide

/-- **Its time comes back as 0.** -/
theorem lateFile_not_kept : ¬ ∀ calls, KeepsNumbers calls := by
  intro h
  obtain ⟨tar, entries, hfinish, hread, hkeeps⟩ := h [lateFile]
  obtain ⟨tar', entries', hfinish', hread', hcomes⟩ := readTar_added [lateFile]
  obtain rfl := Except.ok.inj (hfinish.symm.trans hfinish')
  obtain rfl := Except.ok.inj (hread.symm.trans hread')
  rw [added_lateFile] at hkeeps hcomes
  have hfits := (forall₂_keeps_iff hcomes).mp hkeeps lateFile List.mem_cons_self fun _ _ h => nomatch h
  exact absurd hfits (by decide)

end AthenaOS.Tar
