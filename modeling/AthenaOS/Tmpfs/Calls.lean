import AthenaOS.Lib.Checked
import AthenaOS.Tmpfs.Invariant

/-!
# The filesystem's calls, statement by statement (`kernel/src/tmpfs.rs`)

The calls of `Tmpfs/Filesystem` with the state they leave when they stop, and a panic where a `u64` or
`u32` overflows, a slice is out of range or an `unwrap` finds nothing.
-/

namespace AthenaOS.Tmpfs

open Lib Lib.Checked TmpfsFilesystem TmpfsInode

/-- A call, keeping the state it reached. -/
abbrev TmpfsM (α : Type) : Type := Checked TmpfsStop TmpfsFilesystem α

/-- `get(&ino).ok_or(NotFound)?`. -/
def getNode (ino : Nat) : TmpfsM TmpfsInode := do
  let fs ← read
  okOr (fs.node ino) (.error .notFound)

/-- `get_mut(&ino).unwrap()`. -/
def unwrapNode (ino : Nat) : TmpfsM TmpfsInode := do
  let fs ← read
  okOr (fs.node ino) .panic

def putNode (ino : Nat) (node : TmpfsInode) : TmpfsM Unit := write fun fs => fs.setNode ino node

/-- Panic unless the condition holds. -/
def ensure (c : Bool) : TmpfsM Unit := require c .panic

def allocIno : TmpfsM Nat := do
  let fs ← read
  ensure (fs.nextIno + 1 < 2 ^ 64)
  write fun fs => { fs with nextIno := fs.nextIno + 1 }
  return fs.nextIno

/-- The new inode of `create`. -/
def newNode (ino parentIno : Nat) (fileType : TmpfsFileType) (mode uid gid : Nat) : TmpfsInode :=
  let node := TmpfsInode.new ino fileType mode uid gid
  if fileType = .directory then (node.addChild "." ino).addChild ".." parentIno else node

def create (parentIno : Nat) (name : String) (fileType : TmpfsFileType) (mode uid gid : Nat) : TmpfsM Nat := do
  require (validName name) (.error .invalidName)
  require (!isDot name) (.error .alreadyExists)
  let parent ← getNode parentIno
  require (parent.fileType = .directory) (.error .notADirectory)
  require (parent.children.lookup name).isNone (.error .alreadyExists)
  let ino ← allocIno
  putNode ino (newNode ino parentIno fileType mode uid gid)
  let parent ← unwrapNode parentIno
  putNode parentIno (parent.addChild name ino)
  (if fileType = .directory then do
    ensure (parent.nlinks + 1 < 2 ^ 32)
    putNode parentIno { parent.addChild name ino with nlinks := parent.nlinks + 1 }
  else pure ())
  return ino

/-- The count and the buffer. -/
def readFile (ino offset : Nat) (buf : List UInt8) : TmpfsM (Nat × List UInt8) := do
  let node ← getNode ino
  require (node.fileType ≠ .directory) (.error .isADirectory)
  (if offset ≥ node.data.length then return (0, buf)
  else do
    let n := min buf.length (node.data.length - offset)
    ensure (n ≤ buf.length && offset + n ≤ node.data.length)
    return (n, (node.data.drop offset).take n ++ buf.drop n))

/-- `total_used + growth > max_size`. -/
def checkSpace (growth : Nat) : TmpfsM Unit := do
  let fs ← read
  ensure (fs.totalUsed + growth < 2 ^ 64)
  require (fs.totalUsed + growth ≤ fs.maxSize) (.error .noSpace)

def addUsed (growth : Nat) : TmpfsM Unit := write fun fs => { fs with totalUsed := fs.totalUsed + growth }

def subUsed (count : Nat) : TmpfsM Unit := do
  let fs ← read
  ensure (count ≤ fs.totalUsed)
  write fun fs => { fs with totalUsed := fs.totalUsed - count }

def writeFile (ino offset : Nat) (data : List UInt8) : TmpfsM Nat := do
  ensure (offset + data.length < 2 ^ 64)
  let stop := offset + data.length
  let node ← getNode ino
  require (node.fileType ≠ .directory) (.error .isADirectory)
  (if stop > node.data.length then checkSpace (stop - node.data.length) else pure ())
  let node ← getNode ino
  let grown := resize node.data (max stop node.data.length)
  (if stop > node.data.length then addUsed (stop - node.data.length) else pure ())
  ensure (offset ≤ stop && stop ≤ grown.length)
  putNode ino (node.setData (grown.take offset ++ data ++ grown.drop stop))
  return data.length

def truncate (ino size : Nat) : TmpfsM Unit := do
  let node ← getNode ino
  let oldSize := node.data.length
  (if size > oldSize then do
    checkSpace (size - oldSize)
    addUsed (size - oldSize)
  else subUsed (oldSize - size))
  putNode ino (node.setData (resize node.data size))

/-- `inodes.remove` of what has no links any more. -/
def dropNode (ino : Nat) : TmpfsM Unit := do
  let fs ← read
  match fs.node ino with
  | some removed => do
    write fun fs => fs.removeNode ino
    subUsed removed.data.length
  | none => pure ()

def unlink (parentIno : Nat) (name : String) : TmpfsM Unit := do
  require (!isDot name) (.error .invalidName)
  let parent ← getNode parentIno
  let childIno ← okOr (parent.children.lookup name) (.error .notFound)
  let child ← getNode childIno
  require (child.fileType ≠ .directory) (.error .isADirectory)
  let child ← unwrapNode childIno
  putNode childIno { child with nlinks := child.nlinks - 1 }
  (if child.nlinks - 1 = 0 then dropNode childIno else pure ())
  let parent ← unwrapNode parentIno
  putNode parentIno (parent.removeChild name)

def link (parentIno : Nat) (name : String) (targetIno : Nat) : TmpfsM Unit := do
  require (validName name) (.error .invalidName)
  let target ← getNode targetIno
  require (target.fileType ≠ .directory) (.error .isADirectory)
  let parent ← getNode parentIno
  require (parent.fileType = .directory) (.error .notADirectory)
  require (parent.children.lookup name).isNone (.error .alreadyExists)
  let target ← unwrapNode targetIno
  ensure (target.nlinks + 1 < 2 ^ 32)
  putNode targetIno { target with nlinks := target.nlinks + 1 }
  let parent ← unwrapNode parentIno
  putNode parentIno (parent.addChild name targetIno)

def symlink (parentIno : Nat) (name target : String) (uid gid : Nat) : TmpfsM Nat := do
  let ino ← create parentIno name .symlink 0o777 uid gid
  let node ← unwrapNode ino
  putNode ino { node with symlinkTarget := some target, size := target.utf8ByteSize }
  return ino

def mkdir (parentIno : Nat) (name : String) (mode uid gid : Nat) : TmpfsM Nat :=
  create parentIno name .directory mode uid gid

def rmdir (parentIno : Nat) (name : String) : TmpfsM Unit := do
  require (!isDot name) (.error .invalidName)
  let parent ← getNode parentIno
  let childIno ← okOr (parent.children.lookup name) (.error .notFound)
  let child ← getNode childIno
  require (child.fileType = .directory) (.error .notADirectory)
  require child.isEmpty (.error .notEmpty)
  write fun fs => fs.removeNode childIno
  let parent ← unwrapNode parentIno
  putNode parentIno { parent.removeChild name with nlinks := parent.nlinks - 1 }

def chmod (ino mode : Nat) : TmpfsM Unit := do
  let node ← getNode ino
  putNode ino { node with mode := mode }

def chown (ino uid gid : Nat) : TmpfsM Unit := do
  let node ← getNode ino
  putNode ino { node with uid := uid, gid := gid }

/-- The check and the removal of what the new name stands for. -/
def dropExisting (newParent : Nat) (newName : String) : TmpfsM Unit := do
  let fs ← read
  match (fs.node newParent).bind (·.children.lookup newName) with
  | none => pure ()
  | some existing => do
    let existingNode ← getNode existing
    require (existingNode.fileType ≠ .directory || existingNode.isEmpty) (.error .notEmpty)
    write fun fs => fs.removeNode existing

/-- `..` of a directory that got a new parent. -/
def setParent (childIno newParent : Nat) : TmpfsM Unit := do
  let fs ← read
  match fs.node childIno with
  | some child =>
    if child.fileType = .directory then putNode childIno (child.addChild ".." newParent) else pure ()
  | none => pure ()

def rename (oldParent : Nat) (oldName : String) (newParent : Nat) (newName : String) : TmpfsM Unit := do
  require (!(isDot oldName || isDot newName)) (.error .invalidName)
  let parent ← getNode oldParent
  let childIno ← okOr (parent.children.lookup oldName) (.error .notFound)
  dropExisting newParent newName
  let parent ← unwrapNode oldParent
  putNode oldParent (parent.removeChild oldName)
  let parent ← unwrapNode newParent
  putNode newParent (parent.addChild newName childIno)
  setParent childIno newParent

/-! ## Runs -/

inductive Call where
  | create (parentIno : Nat) (name : String) (fileType : TmpfsFileType) (mode uid gid : Nat)
  | readFile (ino offset : Nat) (buf : List UInt8)
  | writeFile (ino offset : Nat) (data : List UInt8)
  | truncate (ino size : Nat)
  | unlink (parentIno : Nat) (name : String)
  | link (parentIno : Nat) (name : String) (targetIno : Nat)
  | symlink (parentIno : Nat) (name target : String) (uid gid : Nat)
  | mkdir (parentIno : Nat) (name : String) (mode uid gid : Nat)
  | rmdir (parentIno : Nat) (name : String)
  | rename (oldParent : Nat) (oldName : String) (newParent : Nat) (newName : String)
  | chmod (ino mode : Nat)
  | chown (ino uid gid : Nat)

/-- The result does not matter. -/
def forget {α : Type} (m : TmpfsM α) : TmpfsM Unit := m >>= fun _ => pure ()

def Call.run : Call → TmpfsM Unit
  | .create parentIno name fileType mode uid gid => forget (Tmpfs.create parentIno name fileType mode uid gid)
  | .readFile ino offset buf => forget (Tmpfs.readFile ino offset buf)
  | .writeFile ino offset data => forget (Tmpfs.writeFile ino offset data)
  | .truncate ino size => Tmpfs.truncate ino size
  | .unlink parentIno name => Tmpfs.unlink parentIno name
  | .link parentIno name targetIno => Tmpfs.link parentIno name targetIno
  | .symlink parentIno name target uid gid => forget (Tmpfs.symlink parentIno name target uid gid)
  | .mkdir parentIno name mode uid gid => forget (Tmpfs.mkdir parentIno name mode uid gid)
  | .rmdir parentIno name => Tmpfs.rmdir parentIno name
  | .rename oldParent oldName newParent newName => Tmpfs.rename oldParent oldName newParent newName
  | .chmod ino mode => Tmpfs.chmod ino mode
  | .chown ino uid gid => Tmpfs.chown ino uid gid

/-- Calls in any order on a new filesystem. A panic ends the run. -/
def tmpfsCalls : Machine TmpfsFilesystem Call where
  init fs := ∃ maxSize, fs = .new maxSize
  step fs call fs' := Ends call.run fs (fun _ s => s = fs') fun stop s => stop ≠ .panic ∧ s = fs'

/-- Run from `fs`, a call that started in `fs₀` ends well in a state that satisfies `Q`, returns an error in
`fs₀`, or panics, if `P` allows it. -/
def Outcome (P : Prop) (Q : TmpfsFilesystem → Prop) (fs₀ : TmpfsFilesystem) {α : Type} (m : TmpfsM α)
    (fs : TmpfsFilesystem) : Prop :=
  Ends m fs (fun _ s => Q s) fun stop s => (stop = .panic ∧ P) ∨ (stop ≠ .panic ∧ s = fs₀)

/-- A call ends without a panic, and an error leaves everything as it was. -/
abbrev Clean (fs₀ : TmpfsFilesystem) {α : Type} (m : TmpfsM α) (fs : TmpfsFilesystem) : Prop :=
  Outcome False (fun _ => True) fs₀ m fs

/-! ## What a call needs -/

/-- Numbers not given out are free, and no more bytes are held than are counted. -/
structure Held (fs : TmpfsFilesystem) : Prop where
  fresh : ∀ i, fs.nextIno ≤ i → fs.node i = none
  used : fs.bytes ≤ fs.totalUsed

/-- A name that can be made finds room in the two counters. -/
def CreateFits (fs : TmpfsFilesystem) (parentIno : Nat) (name : String) (fileType : TmpfsFileType) : Prop :=
  validName name = true → isDot name = false → ∀ parent, fs.node parentIno = some parent → parent.fileType = .directory →
    parent.children.lookup name = none →
      fs.nextIno + 1 < 2 ^ 64 ∧ (fileType = .directory → parent.nlinks + 1 < 2 ^ 32)

/-- What a call needs, if it gets past its checks. -/
def Fits (fs : TmpfsFilesystem) : Call → Prop
  | .create parentIno name fileType _ _ _ => CreateFits fs parentIno name fileType
  | .mkdir parentIno name _ _ _ => CreateFits fs parentIno name .directory
  | .symlink parentIno name _ _ _ => CreateFits fs parentIno name .symlink
  | .writeFile ino offset data =>
    offset + data.length < 2 ^ 64 ∧ ∀ n, fs.node ino = some n → n.fileType ≠ .directory →
      n.data.length < offset + data.length → fs.totalUsed + (offset + data.length - n.data.length) < 2 ^ 64
  | .truncate ino size =>
    ∀ n, fs.node ino = some n → n.data.length < size → fs.totalUsed + (size - n.data.length) < 2 ^ 64
  | .unlink parentIno name =>
    isDot name = false → ∀ parent c n, fs.node parentIno = some parent → parent.children.lookup name = some c →
      fs.node c = some n → n.fileType ≠ .directory → n.nlinks ≤ 1 → c ≠ parentIno
  | .link parentIno name targetIno =>
    validName name = true → ∀ n parent, fs.node targetIno = some n → n.fileType ≠ .directory →
      fs.node parentIno = some parent → parent.fileType = .directory → parent.children.lookup name = none →
      n.nlinks + 1 < 2 ^ 32
  | .rename oldParent oldName newParent newName =>
    isDot oldName = false → isDot newName = false → ∀ parent c, fs.node oldParent = some parent →
      parent.children.lookup oldName = some c →
      ∃ newNode, fs.node newParent = some newNode ∧ ∀ e n, newNode.children.lookup newName = some e →
        fs.node e = some n → (n.fileType = .directory → n.isEmpty = true) → e ≠ oldParent ∧ e ≠ newParent
  | .readFile .. | .rmdir .. | .chmod .. | .chown .. => True

/-! ## Running a call -/

section Rules

variable {α β : Type} {P : Prop} {Q : TmpfsFilesystem → Prop} {fs₀ fs : TmpfsFilesystem} {ino : Nat} {c : Bool} {e : TmpfsError}

theorem outcome_pure {a : α} : Outcome P Q fs₀ (pure a : TmpfsM α) fs ↔ Q fs := Iff.rfl

variable {m : TmpfsM α} {f : Unit → TmpfsM β} {node n : TmpfsInode} {growth count newParent : Nat}

theorem outcome_forget : Outcome P Q fs₀ (forget m) fs ↔ Outcome P Q fs₀ m fs := by
  rw [Outcome, forget, ends_bind]
  exact Iff.rfl

/-- A check before the first change. -/
theorem outcome_require :
    Outcome P Q fs₀ (require c (.error e) >>= f) fs₀ ↔ (c = true → Outcome P Q fs₀ (f ()) fs₀) := by
  rw [Outcome, ends_bind, ends_require]
  cases c with
  | true => exact ⟨fun h _ => h, fun h => h rfl⟩
  | false => exact iff_of_true (.inr ⟨TmpfsStop.noConfusion, rfl⟩) fun h => absurd h Bool.false_ne_true

theorem outcome_okOr {o : Option α} {f : α → TmpfsM β} :
    Outcome P Q fs₀ (okOr o (.error e) >>= f) fs₀ ↔ ∀ a, o = some a → Outcome P Q fs₀ (f a) fs₀ := by
  rw [Outcome, ends_bind, ends_okOr]
  cases o with
  | some a => exact ⟨fun h a' ha => Option.some.inj ha ▸ h, fun h => h a rfl⟩
  | none => exact iff_of_true (.inr ⟨TmpfsStop.noConfusion, rfl⟩) fun a ha => nomatch ha

theorem outcome_read {f : TmpfsFilesystem → TmpfsM β} :
    Outcome P Q fs₀ (read >>= f) fs ↔ Outcome P Q fs₀ (f fs) fs := by
  rw [Outcome, ends_bind, ends_read, Outcome]

theorem outcome_write {g : TmpfsFilesystem → TmpfsFilesystem} :
    Outcome P Q fs₀ (write g >>= f) fs ↔ Outcome P Q fs₀ (f ()) (g fs) := by
  rw [Outcome, ends_bind, ends_write, Outcome]

theorem outcome_ensure :
    Outcome P Q fs₀ (ensure c >>= f) fs ↔ (c = true → Outcome P Q fs₀ (f ()) fs) ∧ (c = true ∨ P) :=
      by
  rw [Outcome, ensure, ends_bind, ends_require]
  cases c with
  | true => exact ⟨fun h => ⟨fun _ => h, .inl rfl⟩, fun h => h.1 rfl⟩
  | false => simp

theorem outcome_getNode {f : TmpfsInode → TmpfsM β} :
    Outcome P Q fs₀ (getNode ino >>= f) fs₀ ↔ ∀ n, fs₀.node ino = some n → Outcome P Q fs₀ (f n) fs₀ := by
  rw [getNode, bind_assoc, outcome_read, outcome_okOr]

theorem outcome_unwrapNode {f : TmpfsInode → TmpfsM β} : Outcome P Q fs₀ (unwrapNode ino >>= f) fs ↔
    (∀ n, fs.node ino = some n → Outcome P Q fs₀ (f n) fs) ∧ (fs.node ino ≠ none ∨ P) := by
  rw [unwrapNode, bind_assoc, outcome_read, Outcome, ends_bind, ends_okOr]
  cases fs.node ino with
  | some n =>
    exact ⟨fun h => ⟨fun _ hn => Option.some.inj hn ▸ h, .inl (Option.some_ne_none n)⟩, fun h => h.1 n rfl⟩
  | none => simp

theorem outcome_putNode :
    Outcome P Q fs₀ (putNode ino node >>= f) fs ↔ Outcome P Q fs₀ (f ()) (fs.setNode ino node) :=
      outcome_write

theorem outcome_putNode_last :
    Outcome P Q fs₀ (putNode ino node) fs ↔ Q (fs.setNode ino node) := Iff.rfl

theorem outcome_ite {p : Prop} [Decidable p] {f : α → TmpfsM β} {m' : TmpfsM α} :
    Outcome P Q fs₀ ((if p then m else m') >>= f) fs ↔
      (p → Outcome P Q fs₀ (m >>= f) fs) ∧ (¬ p → Outcome P Q fs₀ (m' >>= f) fs) := by
  by_cases h : p
  · rw [if_pos h]
    exact ⟨fun hm => ⟨fun _ => hm, fun hn => absurd h hn⟩, fun hm => hm.1 h⟩
  · rw [if_neg h]
    exact ⟨fun hm => ⟨fun hp => absurd hp h, fun _ => hm⟩, fun hm => hm.2 h⟩

theorem outcome_allocIno {f : Nat → TmpfsM β} : Outcome P Q fs₀ (allocIno >>= f) fs ↔
    (fs.nextIno + 1 < 2 ^ 64 → Outcome P Q fs₀ (f fs.nextIno) { fs with nextIno := fs.nextIno + 1 }) ∧
      (fs.nextIno + 1 < 2 ^ 64 ∨ P) := by
  simp only [allocIno, bind_assoc, outcome_read, outcome_ensure, outcome_write, pure_bind, decide_eq_true_eq]

theorem outcome_checkSpace :
    Outcome P Q fs₀ (checkSpace growth >>= f) fs₀ ↔
      (fs₀.totalUsed + growth < 2 ^ 64 → fs₀.totalUsed + growth ≤ fs₀.maxSize →
      Outcome P Q fs₀ (f ()) fs₀) ∧ (fs₀.totalUsed + growth < 2 ^ 64 ∨ P) := by
  simp only [checkSpace, bind_assoc, outcome_read, outcome_ensure, outcome_require, decide_eq_true_eq]

theorem outcome_addUsed :
    Outcome P Q fs₀ (addUsed growth >>= f) fs ↔
    Outcome P Q fs₀ (f ()) { fs with totalUsed := fs.totalUsed + growth } := outcome_write

theorem outcome_subUsed :
    Outcome P Q fs₀ (subUsed count >>= f) fs ↔
    (count ≤ fs.totalUsed → Outcome P Q fs₀ (f ()) { fs with totalUsed := fs.totalUsed - count }) ∧
      (count ≤ fs.totalUsed ∨ P) := by
  simp only [subUsed, bind_assoc, outcome_read, outcome_ensure, outcome_write, decide_eq_true_eq]

theorem outcome_dropNode (hn : fs.node ino = some n) :
    Outcome P Q fs₀ (dropNode ino >>= f) fs ↔
      (n.data.length ≤ fs.totalUsed → Outcome P Q fs₀ (f ()) { fs.removeNode ino with totalUsed :=
      fs.totalUsed - n.data.length }) ∧ (n.data.length ≤ fs.totalUsed ∨ P) := by
  rw [dropNode, bind_assoc, outcome_read, hn]
  simp only [bind_assoc, outcome_write, outcome_subUsed]
  exact Iff.rfl

theorem outcome_dropExisting {newName : String} :
    Outcome P Q fs₀ (dropExisting newParent newName >>= f) fs₀ ↔
      (fs₀.entry newParent newName = none → Outcome P Q fs₀ (f ()) fs₀) ∧ ∀ e n,
      fs₀.entry newParent newName = some e → fs₀.node e = some n →
      (n.fileType = .directory → n.isEmpty = true) → Outcome P Q fs₀ (f ()) (fs₀.removeNode e) := by
  rw [dropExisting, bind_assoc, outcome_read, ← entry]
  cases fs₀.entry newParent newName with
  | none => exact ⟨fun h => ⟨fun _ => h, fun _ _ he => by cases he⟩, fun h => h.1 rfl⟩
  | some e =>
    simp only [bind_assoc, outcome_getNode, outcome_require, outcome_write, Bool.or_eq_true, decide_eq_true_eq]
    constructor
    · intro h
      refine ⟨fun he => (by cases he), fun e' n he hn hempty => ?_⟩
      obtain rfl := Option.some.inj he
      exact h n hn (Classical.or_iff_not_imp_left.mpr fun hdir => hempty (not_not.mp hdir))
    · intro h n hn hor
      exact h.2 e n rfl hn fun hdir => hor.resolve_left fun hnot => hnot hdir

theorem outcome_setParent {childIno : Nat} :
    Outcome P Q fs₀ (setParent childIno newParent) fs ↔
      (∀ n, fs.node childIno = some n → n.fileType = .directory →
      Q (fs.setNode childIno (n.addChild ".." newParent))) ∧
      ((∀ n, fs.node childIno = some n → n.fileType ≠ .directory) → Q fs) := by
  rw [Outcome, setParent, ends_bind, ends_read]
  cases fs.node childIno with
  | none => exact ⟨fun h => ⟨fun _ hn => (nomatch hn), fun _ => h⟩, fun h => h.2 fun _ hn => nomatch hn⟩
  | some n =>
    simp only [ends_ite, Option.some.injEq, forall_eq']
    by_cases hdir : n.fileType = .directory
    · rw [if_pos hdir]
      exact ⟨fun h => ⟨fun _ => h, fun hnot => absurd hdir hnot⟩, fun h => h.1 hdir⟩
    · rw [if_neg hdir]
      exact ⟨fun h => ⟨fun h' => absurd h' hdir, fun _ => h⟩, fun h => h.2 hdir⟩

/-- Where a panic is not allowed the condition has to hold. -/
theorem imp_and_or_false {p q : Prop} : ((p → q) ∧ (p ∨ False)) ↔ p ∧ q := by
  rw [or_false]
  exact ⟨fun h => ⟨h.2, h.1 h.2⟩, fun h => ⟨fun _ => h.2, h.1⟩⟩

theorem clean_ensure : Clean fs₀ (ensure c >>= f) fs ↔ c = true ∧ Clean fs₀ (f ()) fs := by
  rw [Clean, outcome_ensure, imp_and_or_false]

theorem clean_unwrapNode {f : TmpfsInode → TmpfsM β} :
    Clean fs₀ (unwrapNode ino >>= f) fs ↔ ∃ n, fs.node ino = some n ∧ Clean fs₀ (f n) fs := by
  rw [Clean, outcome_unwrapNode, or_false]
  cases fs.node ino with
  | some n => simp
  | none => simp

theorem clean_allocIno {f : Nat → TmpfsM β} : Clean fs₀ (allocIno >>= f) fs ↔
    fs.nextIno + 1 < 2 ^ 64 ∧ Clean fs₀ (f fs.nextIno) { fs with nextIno := fs.nextIno + 1 } := by
  rw [Clean, outcome_allocIno, imp_and_or_false]

theorem clean_checkSpace :
    Clean fs₀ (checkSpace growth >>= f) fs₀ ↔ fs₀.totalUsed + growth < 2 ^ 64 ∧
      (fs₀.totalUsed + growth ≤ fs₀.maxSize → Clean fs₀ (f ()) fs₀) := by
  rw [Clean, outcome_checkSpace, imp_and_or_false]

theorem clean_subUsed :
    Clean fs₀ (subUsed count >>= f) fs ↔
    count ≤ fs.totalUsed ∧ Clean fs₀ (f ()) { fs with totalUsed := fs.totalUsed - count } := by
  rw [Clean, outcome_subUsed, imp_and_or_false]

theorem clean_dropNode (hn : fs.node ino = some n) :
    Clean fs₀ (dropNode ino >>= f) fs ↔ n.data.length ≤ fs.totalUsed ∧
      Clean fs₀ (f ()) { fs.removeNode ino with totalUsed := fs.totalUsed - n.data.length } := by
  rw [Clean, outcome_dropNode hn, imp_and_or_false]

end Rules

section Exact

variable {fs : TmpfsFilesystem}

variable {parent n : TmpfsInode}

/-- The parent is still there behind the new inode. -/
theorem node_created (h : Held fs) {parentIno : Nat} {node : TmpfsInode}
    (hparent : fs.node parentIno = some parent) :
    ({ fs with nextIno := fs.nextIno + 1 }.setNode fs.nextIno node).node parentIno = some parent :=
      by
  rw [node_setNode, if_neg]
  · exact hparent
  · rintro rfl
    rw [h.fresh _ (Nat.le_refl _)] at hparent
    exact nomatch hparent

theorem clean_create (h : Held fs) (parentIno : Nat) (name : String) (fileType : TmpfsFileType) (mode uid gid : Nat) :
    Clean fs (create parentIno name fileType mode uid gid) fs ↔ CreateFits fs parentIno name fileType := by
  simp only [create, outcome_require, outcome_getNode, clean_allocIno, outcome_putNode, clean_unwrapNode, outcome_ite,
    bind_assoc, clean_ensure, pure_bind, outcome_pure, decide_eq_true_eq, and_true, implies_true]
  constructor
  · intro hclean hvalid hdot parent hparent htype hfree
    obtain ⟨hnext, parent', hparent', hlinks⟩ :=
      hclean hvalid (by rw [hdot]; rfl) parent hparent htype (Option.isNone_iff_eq_none.mpr hfree)
    rw [node_created h hparent] at hparent'
    exact ⟨hnext, Option.some.inj hparent' ▸ hlinks⟩
  · intro hfits hvalid hdot parent hparent htype hfree
    obtain ⟨hnext, hlinks⟩ := hfits hvalid (by simpa using hdot) parent hparent htype (Option.isNone_iff_eq_none.mp hfree)
    exact ⟨hnext, parent, node_created h hparent, hlinks⟩

theorem clean_readFile (ino offset : Nat) (buf : List UInt8) : Clean fs (readFile ino offset buf) fs := by
  simp only [readFile, outcome_getNode, outcome_require]
  intro n _ _
  split
  · exact outcome_pure.mpr trivial
  · rename_i hoffset
    refine clean_ensure.mpr ⟨?_, outcome_pure.mpr trivial⟩
    rw [Bool.and_eq_true, decide_eq_true_eq, decide_eq_true_eq]
    omega

theorem length_resize (data : List UInt8) (len : Nat) : (resize data len).length = len := by
  rw [resize, List.length_append, List.length_take, List.length_replicate]
  omega

theorem clean_writeFile (ino offset : Nat) (data : List UInt8) : Clean fs (writeFile ino offset data) fs ↔
    Fits fs (.writeFile ino offset data) := by
  simp only [writeFile, clean_ensure, outcome_getNode, outcome_require, outcome_ite, clean_checkSpace, pure_bind,
    outcome_addUsed, outcome_putNode, outcome_pure, decide_eq_true_eq, Fits, Bool.and_eq_true, length_resize, and_true]
  refine and_congr_right fun _ => forall_congr' fun n => forall₂_congr fun hn _ => ?_
  constructor
  · exact fun h hgrows => (h.1 hgrows).1
  · intro h
    have hslice : offset ≤ offset + data.length ∧ offset + data.length ≤ max (offset + data.length) n.data.length :=
      ⟨Nat.le_add_right _ _, Nat.le_max_left _ _⟩
    have hagain : ∀ n', fs.node ino = some n' → offset ≤ offset + data.length ∧
        offset + data.length ≤ max (offset + data.length) n'.data.length := fun n' _ =>
      ⟨Nat.le_add_right _ _, Nat.le_max_left _ _⟩
    exact ⟨fun hgrows => ⟨h hgrows, fun _ n' hn' => ⟨fun _ => hagain n' hn', fun _ => hagain n' hn'⟩⟩,
      fun _ n' hn' => ⟨fun _ => hagain n' hn', fun _ => hagain n' hn'⟩⟩

/-- An inode's bytes are counted. -/
theorem length_le_totalUsed (h : Held fs) {ino : Nat} (hn : fs.node ino = some n) :
    n.data.length ≤ fs.totalUsed := by
  have hbytes := bytes_removeNode hn
  have hused := h.used
  omega

theorem clean_truncate (h : Held fs) (ino size : Nat) : Clean fs (truncate ino size) fs ↔ Fits fs (.truncate ino size) := by
  simp only [truncate, outcome_getNode, outcome_ite, bind_assoc, clean_checkSpace, outcome_addUsed, clean_subUsed,
    outcome_putNode_last, Fits, implies_true, and_true]
  refine forall₂_congr fun n hn => ?_
  have hcounted := length_le_totalUsed h hn
  exact ⟨fun hclean => hclean.1, fun hfits => ⟨hfits, fun _ => by omega⟩⟩

theorem clean_unlink (h : Held fs) (parentIno : Nat) (name : String) : Clean fs (unlink parentIno name) fs ↔
    Fits fs (.unlink parentIno name) := by
  simp only [unlink, outcome_require, outcome_getNode, outcome_okOr, clean_unwrapNode, outcome_putNode, outcome_ite, pure_bind,
    outcome_putNode_last, Fits, and_true, decide_eq_true_eq, Bool.not_eq_true']
  refine imp_congr_right fun _ => ⟨fun hclean parent c n hparent hname hn htype hlast hself => ?_,
    fun hfits parent hparent c hname n hn htype => ⟨n, hn, fun hlast => ?_, fun _ => ?_⟩⟩
  · obtain ⟨n', hn', hdrop, -⟩ := hclean parent hparent c hname n hn htype
    obtain rfl := Option.some.inj (hn.symm.trans hn')
    obtain ⟨-, hrest⟩ := (clean_dropNode (by rw [node_setNode, if_pos rfl])).mp (hdrop (by omega))
    obtain ⟨parent', hparent', -⟩ := clean_unwrapNode.mp hrest
    have hgone : ((fs.setNode c { n with nlinks := n.nlinks - 1 }).removeNode c).node parentIno = some parent' := hparent'
    rw [node_removeNode, if_pos hself.symm] at hgone
    exact nomatch hgone
  · refine (clean_dropNode (by rw [node_setNode, if_pos rfl])).mpr ⟨?_, clean_unwrapNode.mpr ⟨parent, ?_, trivial⟩⟩
    · have hcounted := length_le_totalUsed h hn
      exact hcounted
    have hne : parentIno ≠ c := (hfits parent c n hparent hname hn htype (by omega)).symm
    change ((fs.setNode c { n with nlinks := n.nlinks - 1 }).removeNode c).node parentIno = some parent
    rw [node_removeNode, if_neg hne, node_setNode, if_neg hne, hparent]
  · rw [node_setNode]
    split
    · exact ⟨_, rfl⟩
    · exact ⟨parent, hparent⟩

theorem clean_link (parentIno : Nat) (name : String) (targetIno : Nat) : Clean fs (link parentIno name targetIno) fs ↔
    Fits fs (.link parentIno name targetIno) := by
  simp only [link, outcome_require, outcome_getNode, clean_unwrapNode, clean_ensure, outcome_putNode,
    outcome_putNode_last, Fits, and_true, decide_eq_true_eq, Option.isNone_iff_eq_none]
  refine imp_congr_right fun _ => ⟨fun hclean n parent hn htype hparent hdir hfree => ?_,
    fun hfits n hn htype parent hparent hdir hfree => ⟨n, hn, hfits n parent hn htype hparent hdir hfree, ?_⟩⟩
  · obtain ⟨n', hn', hfits, -⟩ := hclean n hn htype parent hparent hdir hfree
    exact Option.some.inj (hn.symm.trans hn') ▸ hfits
  · rw [node_setNode]
    split
    · exact ⟨_, rfl⟩
    · exact ⟨parent, hparent⟩

/-- A directory that is empty is not the one the name is in. -/
theorem ne_of_isEmpty {p c : Nat} {name : String} (hname : isDot name = false)
    (hparent : fs.node p = some parent) (hentry : parent.children.lookup name = some c)
    (hn : fs.node c = some n) (hempty : n.isEmpty = true) : p ≠ c := by
  rintro rfl
  obtain rfl := Option.some.inj (hparent.symm.trans hn)
  rw [isEmpty_iff.mp hempty name (real_iff.mp (by rw [hname]; rfl))] at hentry
  exact nomatch hentry

theorem clean_rmdir (parentIno : Nat) (name : String) : Clean fs (rmdir parentIno name) fs := by
  simp only [rmdir, outcome_require, outcome_getNode, outcome_okOr, clean_unwrapNode, outcome_write, outcome_putNode_last, and_true,
    Bool.not_eq_true']
  intro hname parent hparent c hentry n hn _ hempty
  exact ⟨parent, by rw [node_removeNode, if_neg (ne_of_isEmpty hname hparent hentry hn hempty), hparent]⟩

theorem clean_rename (oldParent : Nat) (oldName : String) (newParent : Nat) (newName : String) :
    Clean fs (rename oldParent oldName newParent newName) fs ↔ Fits fs (.rename oldParent oldName newParent newName) := by
  simp only [rename, outcome_require, outcome_getNode, outcome_okOr, outcome_dropExisting, clean_unwrapNode, outcome_putNode,
    outcome_setParent, Fits, and_true, implies_true, Bool.not_eq_true', Bool.or_eq_false_iff, and_imp]
  refine imp_congr_right fun hold => imp_congr_right fun _ =>
    ⟨fun hclean parent c hparent hname => ?_, fun hfits parent hparent c hname => ?_⟩
  · obtain ⟨hnew, hreplace⟩ := hclean parent hparent c hname
    cases hentry : fs.entry newParent newName with
    | none =>
      obtain ⟨_, -, hlive⟩ := hnew hentry
      rw [node_setNode] at hlive
      obtain ⟨newNode, hnode⟩ : ∃ newNode, fs.node newParent = some newNode := by
        split at hlive
        · rename_i heq
          exact ⟨parent, heq ▸ hparent⟩
        · exact hlive
      refine ⟨newNode, hnode, fun e n he _ _ => ?_⟩
      rw [entry_of_node hnode, he] at hentry
      exact nomatch hentry
    | some existing =>
      obtain ⟨newNode, hnode, hlookup⟩ := Option.bind_eq_some_iff.mp hentry
      refine ⟨newNode, hnode, fun e n he hn hempty => ?_⟩
      obtain rfl := Option.some.inj (hlookup.symm.trans he)
      obtain ⟨parent', hparent', newNode', hnew'⟩ := hreplace existing n hentry hn hempty
      have hold' : existing ≠ oldParent := by
        rintro rfl
        rw [node_removeNode, if_pos rfl] at hparent'
        exact nomatch hparent'
      refine ⟨hold', ?_⟩
      rintro rfl
      rw [node_setNode, if_neg hold', node_removeNode, if_pos rfl] at hnew'
      exact nomatch hnew'
  · obtain ⟨newNode, hnode, hapart⟩ := hfits parent c hparent hname
    refine ⟨fun _ => ⟨parent, hparent, ?_⟩, fun e n hentry hn hempty => ?_⟩
    · rw [node_setNode]
      split
      · exact ⟨_, rfl⟩
      · exact ⟨newNode, hnode⟩
    · rw [entry_of_node hnode] at hentry
      obtain ⟨hold', hnew'⟩ := hapart e n hentry hn hempty
      refine ⟨parent, by rw [node_removeNode, if_neg hold'.symm, hparent], ?_⟩
      rw [node_setNode, node_removeNode, if_neg hnew'.symm]
      split
      · exact ⟨_, rfl⟩
      · exact ⟨newNode, hnode⟩

theorem clean_symlink (h : Held fs) (parentIno : Nat) (name target : String) (uid gid : Nat) :
    Clean fs (symlink parentIno name target uid gid) fs ↔ CreateFits fs parentIno name .symlink := by
  rw [← clean_create h parentIno name .symlink 0o777 uid gid]
  simp only [symlink, create, outcome_require, outcome_getNode, clean_allocIno, outcome_putNode, clean_unwrapNode, outcome_ite,
    bind_assoc, clean_ensure, pure_bind, outcome_pure, decide_eq_true_eq, and_true, implies_true]
  have hlive : ∀ (s : TmpfsFilesystem) (i j : Nat) (a b : TmpfsInode), ∃ n, ((s.setNode i a).setNode j b).node i = some n := by
    intro s i j a b
    rw [node_setNode, node_setNode, if_pos rfl]
    split
    · exact ⟨_, rfl⟩
    · exact ⟨_, rfl⟩
  constructor
  · intro hclean hvalid hdot parent hparent htype hfree
    obtain ⟨hnext, parent', hparent', -⟩ := hclean hvalid hdot parent hparent htype hfree
    exact ⟨hnext, parent', hparent', fun hdir => nomatch hdir⟩
  · intro hclean hvalid hdot parent hparent htype hfree
    obtain ⟨hnext, parent', hparent', -⟩ := hclean hvalid hdot parent hparent htype hfree
    exact ⟨hnext, parent', hparent', fun hdir => (nomatch hdir), fun _ => hlive ..⟩

/-- What a call needs is exact. -/
theorem clean_call_iff (h : Held fs) (call : Call) : Clean fs call.run fs ↔ Fits fs call := by
  cases call with
  | create parentIno name fileType mode uid gid => exact outcome_forget.trans (clean_create h ..)
  | readFile ino offset buf => exact iff_of_true (outcome_forget.mpr (clean_readFile ..)) trivial
  | writeFile ino offset data => exact outcome_forget.trans (clean_writeFile ..)
  | truncate ino size => exact clean_truncate h ..
  | unlink parentIno name => exact clean_unlink h ..
  | link parentIno name targetIno => exact clean_link ..
  | symlink parentIno name target uid gid => exact outcome_forget.trans (clean_symlink h ..)
  | mkdir parentIno name mode uid gid => exact outcome_forget.trans (clean_create h ..)
  | rmdir parentIno name => exact iff_of_true (clean_rmdir ..) trivial
  | rename oldParent oldName newParent newName => exact clean_rename ..
  | chmod ino mode =>
    refine iff_of_true ?_ trivial
    exact outcome_getNode.mpr fun _ _ => outcome_putNode_last.mpr trivial
  | chown ino uid gid =>
    refine iff_of_true ?_ trivial
    exact outcome_getNode.mpr fun _ _ => outcome_putNode_last.mpr trivial

end Exact

/-! ## Every state reached -/

namespace Held

variable {fs : TmpfsFilesystem} {i : Nat} {old n : TmpfsInode}

/-- An inode stored back with no more data. -/
theorem setNode (h : Held fs) (hn : fs.node i = some old) (hdata : n.data = old.data) : Held (fs.setNode i n) where
  fresh j hj := by
    rw [node_setNode, if_neg]
    · exact h.fresh j hj
    · rintro rfl
      rw [h.fresh _ hj] at hn
      exact nomatch hn
  used := by
    have hbytes := bytes_setNode (n := n) hn
    have hused := h.used
    rw [hdata] at hbytes
    change (fs.setNode i n).bytes ≤ fs.totalUsed
    omega

/-- An inode removed. -/
theorem removeNode (h : Held fs) (hn : fs.node i = some n) : Held (fs.removeNode i) where
  fresh j hj := by
    rw [node_removeNode]
    split
    · rfl
    · exact h.fresh j hj
  used := by
    have hbytes := bytes_removeNode hn
    have hused := h.used
    change (fs.removeNode i).bytes ≤ fs.totalUsed
    omega

/-- An inode removed, and its bytes no longer counted. -/
theorem dropNode (h : Held fs) (hn : fs.node i = some n) :
    Held { fs.removeNode i with totalUsed := fs.totalUsed - n.data.length } where
  fresh := (h.removeNode hn).fresh
  used := by
    have hbytes := bytes_removeNode hn
    have hused := h.used
    change (fs.removeNode i).bytes ≤ fs.totalUsed - n.data.length
    omega

/-- A new inode without data. -/
theorem alloc (h : Held fs) (hdata : n.data = []) : Held ({ fs with nextIno := fs.nextIno + 1 }.setNode fs.nextIno n) where
  fresh j hj := by
    have hj' : fs.nextIno + 1 ≤ j := hj
    rw [node_setNode, if_neg (by omega)]
    exact h.fresh j (by omega)
  used := by
    have hused := h.used
    have hbytes := bytes_setNode_new (n := n) (h.fresh fs.nextIno (Nat.le_refl _))
    rw [hdata, List.length_nil, Nat.add_zero] at hbytes
    exact (hbytes.trans_le hused)

/-- The data of an inode replaced, and the count with it. -/
theorem setData (h : Held fs) (hn : fs.node i = some n) {data : List UInt8} {used : Nat}
    (hused : data.length + fs.totalUsed ≤ used + n.data.length) :
    Held ({ fs with totalUsed := used }.setNode i (n.setData data)) where
  fresh j hj := by
    rw [node_setNode, if_neg]
    · exact h.fresh j hj
    · rintro rfl
      rw [h.fresh _ hj] at hn
      exact nomatch hn
  used := by
    have hbytes := bytes_setNode (n := n.setData data) hn
    have hcounted := h.used
    have hlen : (n.setData data).data.length = data.length := rfl
    change (fs.setNode i (n.setData data)).bytes ≤ used
    omega

end Held

/-- A call keeps the invariant, whatever it ends in. -/
abbrev Keeps (fs₀ : TmpfsFilesystem) {α : Type} (m : TmpfsM α) (fs : TmpfsFilesystem) : Prop := Outcome True Held fs₀ m fs

section Keeps

variable {fs : TmpfsFilesystem}

theorem newNode_data (ino parentIno : Nat) (fileType : TmpfsFileType) (mode uid gid : Nat) :
    (newNode ino parentIno fileType mode uid gid).data = [] := by
  rw [newNode]
  split <;> rfl

theorem keeps_create (h : Held fs) (parentIno : Nat) (name : String) (fileType : TmpfsFileType) (mode uid gid : Nat) :
    Keeps fs (create parentIno name fileType mode uid gid) fs := by
  simp only [create, Keeps, outcome_require, outcome_getNode, outcome_allocIno, outcome_putNode, outcome_unwrapNode,
    outcome_ite, bind_assoc, outcome_ensure, pure_bind, outcome_pure, or_true, and_true]
  intro _ _ parent hparent _ _ _ parent' hparent'
  have halloc := h.alloc (newNode_data fs.nextIno parentIno fileType mode uid gid)
  have hadded := halloc.setNode (n := parent'.addChild name fs.nextIno) hparent' rfl
  exact ⟨fun _ _ => hadded.setNode (node_setNode.trans (if_pos rfl)) rfl, fun _ => hadded⟩

theorem keeps_symlink (h : Held fs) (parentIno : Nat) (name target : String) (uid gid : Nat) :
    Keeps fs (symlink parentIno name target uid gid) fs := by
  simp only [symlink, create, Keeps, outcome_require, outcome_getNode, outcome_allocIno, outcome_putNode, outcome_unwrapNode,
    outcome_ite, bind_assoc, outcome_ensure, pure_bind, outcome_pure, or_true, and_true]
  intro _ _ parent hparent _ _ _ parent' hparent'
  have halloc := h.alloc (newNode_data fs.nextIno parentIno .symlink 0o777 uid gid)
  have hadded := halloc.setNode (n := parent'.addChild name fs.nextIno) hparent' rfl
  exact ⟨fun hdir => (nomatch hdir), fun _ node hnode => hadded.setNode hnode rfl⟩

theorem keeps_readFile (h : Held fs) (ino offset : Nat) (buf : List UInt8) : Keeps fs (readFile ino offset buf) fs := by
  simp only [readFile, Keeps, outcome_getNode, outcome_require]
  intro n _ _
  split
  · exact outcome_pure.mpr h
  · exact outcome_ensure.mpr ⟨fun _ => outcome_pure.mpr h, .inr trivial⟩

theorem length_written {data written : List UInt8} {offset : Nat} (h : offset + written.length ≤ data.length) :
    (data.take offset ++ written ++ data.drop (offset + written.length)).length = data.length := by
  rw [List.length_append, List.length_append, List.length_take, List.length_drop]
  omega

theorem keeps_writeFile (h : Held fs) (ino offset : Nat) (data : List UInt8) : Keeps fs (writeFile ino offset data) fs := by
  simp only [writeFile, Keeps, outcome_ensure, outcome_getNode, outcome_require, outcome_ite, outcome_checkSpace, pure_bind,
    outcome_addUsed, outcome_putNode, outcome_pure, or_true, and_true]
  intro _ n hn _
  have hlen : ∀ n' : TmpfsInode, ((resize n'.data (max (offset + data.length) n'.data.length)).take offset ++ data ++
      (resize n'.data (max (offset + data.length) n'.data.length)).drop (offset + data.length)).length =
        max (offset + data.length) n'.data.length := fun n' => by
    rw [length_written, length_resize]
    rw [length_resize]
    exact Nat.le_max_left _ _
  refine ⟨fun _ _ _ n' hn' => ⟨fun _ _ => h.setData hn' ?_, fun _ _ => h.setData hn' ?_⟩,
    fun _ n' hn' => ⟨fun _ _ => h.setData hn' ?_, fun _ _ => h.setData hn' ?_⟩⟩
  · rw [hlen]
    omega
  · rw [hlen]
    omega
  · rw [hlen]
    omega
  · rw [hlen]
    omega

theorem keeps_truncate (h : Held fs) (ino size : Nat) : Keeps fs (truncate ino size) fs := by
  simp only [truncate, Keeps, outcome_getNode, outcome_ite, bind_assoc, outcome_checkSpace, outcome_addUsed, outcome_subUsed,
    outcome_putNode_last, or_true, and_true]
  intro n hn
  have hlen := length_resize n.data size
  exact ⟨fun _ _ _ => h.setData hn (by omega), fun _ _ => h.setData hn (by omega)⟩

theorem keeps_unlink (h : Held fs) (parentIno : Nat) (name : String) : Keeps fs (unlink parentIno name) fs := by
  simp only [unlink, Keeps, outcome_require, outcome_getNode, outcome_okOr, outcome_unwrapNode, outcome_putNode, outcome_ite,
    pure_bind, outcome_putNode_last, or_true, and_true]
  intro _ parent _ c _ n hn _ n' hn'
  have hlinked := h.setNode (n := { n' with nlinks := n'.nlinks - 1 }) hn' rfl
  have hnode : (fs.setNode c { n' with nlinks := n'.nlinks - 1 }).node c = some { n' with nlinks := n'.nlinks - 1 } := by
    rw [node_setNode, if_pos rfl]
  refine ⟨fun _ => (outcome_dropNode hnode).mpr ⟨fun _ => ?_, .inr trivial⟩, fun _ parent' hparent' => hlinked.setNode hparent' rfl⟩
  refine outcome_unwrapNode.mpr ⟨fun parent' hparent' => ?_, .inr trivial⟩
  exact (hlinked.dropNode hnode).setNode hparent' rfl

theorem keeps_link (h : Held fs) (parentIno : Nat) (name : String) (targetIno : Nat) :
    Keeps fs (link parentIno name targetIno) fs := by
  simp only [link, Keeps, outcome_require, outcome_getNode, outcome_unwrapNode, outcome_ensure, outcome_putNode,
    outcome_putNode_last, or_true, and_true]
  intro _ _ _ _ _ _ _ _ n hn _ parent hparent
  exact (h.setNode (n := { n with nlinks := n.nlinks + 1 }) hn rfl).setNode hparent rfl

theorem keeps_rmdir (h : Held fs) (parentIno : Nat) (name : String) : Keeps fs (rmdir parentIno name) fs := by
  simp only [rmdir, Keeps, outcome_require, outcome_getNode, outcome_okOr, outcome_unwrapNode, outcome_write,
    outcome_putNode_last, or_true, and_true]
  intro _ _ _ c _ n hn _ _ parent hparent
  exact (h.removeNode hn).setNode hparent rfl

/-- The second half of a renaming. -/
theorem held_moved (c : Nat) (newName : String) (h : Held fs) {oldParent newParent : Nat} {oldName : String}
    {parent newNode : TmpfsInode}
    (hparent : fs.node oldParent = some parent)
    (hnew : (fs.setNode oldParent (parent.removeChild oldName)).node newParent = some newNode) :
    Held ((fs.setNode oldParent (parent.removeChild oldName)).setNode newParent (newNode.addChild newName c)) :=
  (h.setNode (n := parent.removeChild oldName) hparent rfl).setNode hnew rfl

theorem keeps_rename (h : Held fs) (oldParent : Nat) (oldName : String) (newParent : Nat) (newName : String) :
    Keeps fs (rename oldParent oldName newParent newName) fs := by
  simp only [rename, Keeps, outcome_require, outcome_getNode, outcome_okOr, outcome_dropExisting, outcome_unwrapNode,
    outcome_putNode, outcome_setParent, or_true, and_true]
  intro _ _ _ c _
  refine ⟨fun _ parent hparent newNode hnew => ?_, fun e n _ hn _ parent hparent newNode hnew => ?_⟩
  · have hmoved := held_moved c newName h hparent hnew
    exact ⟨fun child hchild _ => hmoved.setNode hchild rfl, fun _ => hmoved⟩
  · have hmoved := held_moved c newName (h.removeNode hn) hparent hnew
    exact ⟨fun child hchild _ => hmoved.setNode hchild rfl, fun _ => hmoved⟩

/-- One call. -/
theorem keeps_call (h : Held fs) (call : Call) : Keeps fs call.run fs := by
  cases call with
  | create parentIno name fileType mode uid gid => exact outcome_forget.mpr (keeps_create h ..)
  | readFile ino offset buf => exact outcome_forget.mpr (keeps_readFile h ..)
  | writeFile ino offset data => exact outcome_forget.mpr (keeps_writeFile h ..)
  | truncate ino size => exact keeps_truncate h ..
  | unlink parentIno name => exact keeps_unlink h ..
  | link parentIno name targetIno => exact keeps_link h ..
  | symlink parentIno name target uid gid => exact outcome_forget.mpr (keeps_symlink h ..)
  | mkdir parentIno name mode uid gid => exact outcome_forget.mpr (keeps_create h ..)
  | rmdir parentIno name => exact keeps_rmdir h ..
  | rename oldParent oldName newParent newName => exact keeps_rename h ..
  | chmod ino mode => exact outcome_getNode.mpr fun _ hn => outcome_putNode_last.mpr (h.setNode hn rfl)
  | chown ino uid gid => exact outcome_getNode.mpr fun _ hn => outcome_putNode_last.mpr (h.setNode hn rfl)

end Keeps

variable {fs : TmpfsFilesystem}

theorem held_of_reachable (h : tmpfsCalls.Reachable fs) : Held fs := by
  refine h.invariant ?_ fun fs call fs' hheld _ hstep => ?_
  · rintro _ ⟨maxSize, rfl⟩
    exact ⟨kept_new.fresh, kept_new.used.ge⟩
  · have hkeeps := keeps_call hheld call
    unfold Keeps Outcome Ends at hkeeps
    change Ends call.run fs _ _ at hstep
    unfold Ends at hstep
    generalize Checked.exec call.run fs = r at hkeeps hstep
    obtain ⟨stop | _, s⟩ := r
    · obtain ⟨hstop, rfl⟩ := hstep
      obtain ⟨hpanic, -⟩ | ⟨-, rfl⟩ := hkeeps
      · exact absurd hpanic hstop
      · exact hheld
    · exact hstep ▸ hkeeps

/-- **A call in a state that calls have led to** runs without a panic, and changes nothing when it returns an
error, exactly when it has what it needs. -/
theorem clean_iff {fs : TmpfsFilesystem} (h : tmpfsCalls.Reachable fs) (call : Call) : Clean fs call.run fs ↔ Fits fs call :=
  clean_call_iff (held_of_reachable h) call

/-- A call that returns leads on. -/
theorem reachable_exec (h : tmpfsCalls.Reachable fs) {call : Call}
    (hok : (call.run.exec fs).1.toOption.isSome = true) :
    tmpfsCalls.Reachable (call.run.exec fs).2 := by
  refine .snoc (l := call) h trivial ?_
  change Ends call.run fs (fun _ s => s = (call.run.exec fs).2)
    fun stop s => stop ≠ .panic ∧ s = (call.run.exec fs).2
  unfold Ends
  generalize Checked.exec call.run fs = r at hok
  obtain ⟨stop | _, s⟩ := r
  · exact nomatch hok
  · rfl

/-- The filesystem with one empty file. -/
def oneFile : TmpfsFilesystem :=
  ((Call.create 1 "a" .regular 0o644 0 0).run.exec (TmpfsFilesystem.new 4096)).2

theorem reachable_oneFile : tmpfsCalls.Reachable oneFile :=
  reachable_exec (.start ⟨4096, rfl⟩) (by decide)

/-- And a directory. -/
def twoEntries : TmpfsFilesystem := ((Call.mkdir 1 "d" 0o755 0 0).run.exec oneFile).2

/-- The file can be moved into the directory. -/
theorem clean_move : Clean twoEntries (Call.rename 1 "a" 3 "b").run twoEntries := by
  have hnode : ((twoEntries.node 3).any fun n => n.children.lookup "b" = none) = true := by decide
  obtain ⟨newNode, hnew, hfree⟩ := (Option.any_eq_true _ _).mp hnode
  refine (clean_iff (reachable_exec reachable_oneFile (by decide)) (.rename 1 "a" 3 "b")).mpr
    fun _ _ _ _ _ _ => ⟨newNode, hnew, fun e n he => ?_⟩
  exact nomatch (of_decide_eq_true hfree).symm.trans he

/-- A renaming to a parent that does not exist takes the entry out and panics, and so does a write
whose end overflows, of any inode. -/
theorem calls_panic : tmpfsCalls.Reachable oneFile ∧
    ¬ Clean oneFile (Call.rename 1 "a" 99 "b").run oneFile ∧
    ¬ Clean oneFile (Call.writeFile 2 (2 ^ 64 - 1) [1]).run oneFile := by
  have hheld := held_of_reachable reachable_oneFile
  have hentry : ((oneFile.node 1).any fun parent => parent.children.lookup "a" = some 2) = true := by
    decide
  have hgone : oneFile.node 99 = none := Option.isNone_iff_eq_none.mp (by decide)
  obtain ⟨parent, hparent, hname⟩ := (Option.any_eq_true _ _).mp hentry
  refine ⟨reachable_oneFile, fun hclean => ?_, fun hclean => ?_⟩
  · obtain ⟨newNode, hnew, -⟩ := (clean_call_iff hheld (.rename 1 "a" 99 "b")).mp hclean
      (by decide) (by decide) parent 2 hparent (by simpa using hname)
    rw [hgone] at hnew
    exact nomatch hnew
  · exact absurd ((clean_call_iff hheld (.writeFile 2 (2 ^ 64 - 1) [1])).mp hclean).1 (by decide)

end AthenaOS.Tmpfs
