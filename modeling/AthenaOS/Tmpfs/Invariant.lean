import AthenaOS.Tmpfs.Filesystem
import AthenaOS.Tmpfs.Tree

/-!
# The filesystem through its calls

Entries, link counts, paths and the space counter agree in every run of safe calls. A renaming is
safe when it replaces only what has no other name and no data, and goes to a directory that is not
below the thing renamed.
-/

namespace AthenaOS

open Lib Lib.Totals Lib.Forest

namespace TmpfsFilesystem

open TmpfsInode

/-! ## What the state says -/

/-- What directory `d` calls `name`. -/
def entry (fs : TmpfsFilesystem) (d : Nat) (name : String) : Option Nat :=
  (fs.node d).bind (·.children.lookup name)

/-- The inode is in use. -/
def Live (fs : TmpfsFilesystem) (i : Nat) : Prop := (fs.node i).isSome = true

/-- A directory in use. -/
def IsDir (fs : TmpfsFilesystem) (d : Nat) : Prop :=
  ∃ n, fs.node d = some n ∧ n.fileType = .directory

/-- How many entries of the inode name `c`. -/
def naming (c : Nat) (n : TmpfsInode) : Nat := total (fun k => if k = c then 1 else 0) n.children

/-- How many entries name `c`. -/
def linksTo (fs : TmpfsFilesystem) (c : Nat) : Nat := total (naming c) fs.inodes

/-- The bytes all inodes hold. -/
def bytes (fs : TmpfsFilesystem) : Nat := total (·.data.length) fs.inodes

/-- Entries, link counts, paths and the space counter agree. -/
structure Consistent (fs : TmpfsFilesystem) : Prop where
  /-- Only directories have entries, and these name inodes in use. -/
  entries : ∀ d name c, fs.entry d name = some c → fs.IsDir d ∧ fs.Live c
  nlinks : ∀ i n, fs.node i = some n → n.fileType ≠ .directory → n.nlinks = fs.linksTo i
  paths : ∀ d, fs.IsDir d → ∃! path, Walk (RealEntry fs.entry) 1 path d
  parents : ∀ p name d, RealEntry fs.entry p name d → fs.IsDir d → fs.entry d ".." = some p
  used : fs.totalUsed = fs.bytes
  bound : fs.totalUsed ≤ fs.maxSize

/-- The invariant. -/
structure Kept (fs : TmpfsFilesystem) : Prop where
  tree : DirTree fs.Live fs.IsDir fs.entry
  /-- Numbers not given out are not in use. -/
  fresh : ∀ i, fs.nextIno ≤ i → fs.node i = none
  nlinks : ∀ i n, fs.node i = some n → n.fileType ≠ .directory → n.nlinks = fs.linksTo i
  used : fs.totalUsed = fs.bytes
  bound : fs.totalUsed ≤ fs.maxSize

theorem Kept.consistent {fs : TmpfsFilesystem} (h : Kept fs) : Consistent fs where
  entries := h.tree.entries
  nlinks := h.nlinks
  paths _ hd := h.tree.existsUnique_path hd
  parents _ _ _ hname hd := h.tree.up_of_named hd hname
  used := h.used
  bound := h.bound

/-! ## Running a call -/

section Rules

variable {α β : Type} {c : Bool} {e : TmpfsError} {o : Option α} {r : β}

theorem require_bind_eq_ok {f : Unit → Except TmpfsStop β} :
    (require c e >>= f) = .ok r ↔ c = true ∧ f () = .ok r := by
  cases c with
  | false => exact ⟨fun h => (nomatch h), fun h => (nomatch h.1)⟩
  | true => exact ⟨fun h => ⟨rfl, h⟩, fun h => h.2⟩

variable {f : α → Except TmpfsStop β}

theorem okOr_bind_eq_ok : (okOr o e >>= f) = .ok r ↔ ∃ a, o = some a ∧ f a = .ok r := by
  cases o with
  | none => exact ⟨fun h => (nomatch h), fun ⟨_, h, _⟩ => (nomatch h)⟩
  | some a => exact ⟨fun h => ⟨a, rfl, h⟩, fun ⟨_, h, hf⟩ => Option.some.inj h ▸ hf⟩

theorem unwrap_bind_eq_ok : (unwrap o >>= f) = .ok r ↔ ∃ a, o = some a ∧ f a = .ok r := by
  cases o with
  | none => exact ⟨fun h => (nomatch h), fun ⟨_, h, _⟩ => (nomatch h)⟩
  | some a => exact ⟨fun h => ⟨a, rfl, h⟩, fun ⟨_, h, hf⟩ => Option.some.inj h ▸ hf⟩

theorem bind_eq_ok {x : Except TmpfsStop α} : (x >>= f) = .ok r ↔ ∃ a, x = .ok a ∧ f a = .ok r := by
  cases x with
  | error stop => exact ⟨fun h => (nomatch h), fun ⟨_, h, _⟩ => (nomatch h)⟩
  | ok a => exact ⟨fun h => ⟨a, rfl, h⟩, fun ⟨_, h, hf⟩ => Except.ok.inj h ▸ hf⟩

theorem pure_eq_ok {b : β} : (pure b : Except TmpfsStop β) = .ok r ↔ b = r :=
  ⟨Except.ok.inj, congrArg _⟩

theorem real_iff {name : String} : (!isDot name) = true ↔ Real name := by
  simp [isDot, Real]

end Rules

/-! ## Inodes stored and removed -/

section Nodes

variable {fs : TmpfsFilesystem} {i j c : Nat} {n old : TmpfsInode} {name m : String}

theorem node_setNode : (fs.setNode i n).node j = if j = i then some n else fs.node j := by
  unfold setNode node
  by_cases hj : j = i
  · subst hj
    rw [if_pos rfl, Finmap.lookup_insert]
  · rw [if_neg hj, Finmap.lookup_insert_of_ne _ hj]

theorem node_removeNode : (fs.removeNode i).node j = if j = i then none else fs.node j := by
  unfold removeNode node
  by_cases hj : j = i
  · subst hj
    rw [if_pos rfl, Finmap.lookup_erase]
  · rw [if_neg hj, Finmap.lookup_erase_ne hj]

theorem lookup_addChild :
    (n.addChild name c).children.lookup m = if m = name then some c else n.children.lookup m := by
  unfold addChild
  by_cases hm : m = name
  · subst hm
    rw [if_pos rfl, Finmap.lookup_insert]
  · rw [if_neg hm, Finmap.lookup_insert_of_ne _ hm]

theorem lookup_removeChild :
    (n.removeChild name).children.lookup m = if m = name then none else n.children.lookup m := by
  unfold removeChild
  by_cases hm : m = name
  · subst hm
    rw [if_pos rfl, Finmap.lookup_erase]
  · rw [if_neg hm, Finmap.lookup_erase_ne hm]

theorem entry_of_node (h : fs.node i = some n) : fs.entry i m = n.children.lookup m := by
  rw [entry, h, Option.bind_some]

theorem entry_setNode :
    (fs.setNode i n).entry j m = if j = i then n.children.lookup m else fs.entry j m := by
  unfold entry
  rw [node_setNode]
  split <;> rfl

theorem entry_removeNode :
    (fs.removeNode i).entry j m = if j = i then none else fs.entry j m := by
  unfold entry
  rw [node_removeNode]
  split <;> rfl

/-! ## Links -/

theorem naming_addChild_new (h : n.children.lookup name = none) :
    naming c (n.addChild name i) = naming c n + if i = c then 1 else 0 := total_insert_new h

variable {k d : Nat}

theorem naming_addChild (h : n.children.lookup name = some k) :
    naming c (n.addChild name i) + (if k = c then 1 else 0)
      = naming c n + if i = c then 1 else 0 := total_insert h

theorem naming_removeChild (h : n.children.lookup name = some k) :
    naming c (n.removeChild name) + (if k = c then 1 else 0) = naming c n := total_erase h

/-- An inode none of whose entries names `c`. -/
theorem naming_eq_zero (h : ∀ m k, n.children.lookup m = some k → k ≠ c) : naming c n = 0 :=
  total_eq_zero fun m k hk => if_neg (h m k hk)

theorem linksTo_setNode (h : fs.node i = some old) :
    (fs.setNode i n).linksTo c + naming c old = fs.linksTo c + naming c n := total_insert h

theorem linksTo_setNode_new (h : fs.node i = none) :
    (fs.setNode i n).linksTo c = fs.linksTo c + naming c n := total_insert_new h

theorem linksTo_removeNode (h : fs.node i = some old) :
    (fs.removeNode i).linksTo c + naming c old = fs.linksTo c := total_erase h

theorem bytes_setNode (h : fs.node i = some old) :
    (fs.setNode i n).bytes + old.data.length = fs.bytes + n.data.length :=
  total_insert (f := fun n : TmpfsInode => n.data.length) h

theorem bytes_setNode_new (h : fs.node i = none) :
    (fs.setNode i n).bytes = fs.bytes + n.data.length :=
  total_insert_new (f := fun n : TmpfsInode => n.data.length) h

theorem bytes_removeNode (h : fs.node i = some old) :
    (fs.removeNode i).bytes + old.data.length = fs.bytes :=
  total_erase (f := fun n : TmpfsInode => n.data.length) h

theorem linksTo_eq_zero (h : ∀ d m, fs.entry d m ≠ some c) : fs.linksTo c = 0 := by
  refine total_eq_zero fun d n hn => naming_eq_zero fun m k hk => ?_
  rintro rfl
  exact h d m ((entry_of_node hn).trans hk)

/-- An entry counts. -/
theorem linksTo_pos (h : fs.entry d m = some c) : 0 < fs.linksTo c := by
  obtain ⟨n, hn, hlookup⟩ := Option.bind_eq_some_iff.mp h
  have hname : 1 ≤ naming c n := by
    have hle := le_total (f := fun k => if k = c then 1 else 0) hlookup
    rwa [if_pos rfl] at hle
  exact Nat.lt_of_lt_of_le hname (le_total (f := naming c) hn)

/-- The only entry is the only one. -/
theorem entry_unique {d' : Nat} {m' : String} (hone : fs.linksTo c = 1) (h : fs.entry d m = some c)
    (h' : fs.entry d' m' = some c) : d' = d ∧ m' = m := by
  by_contra hne
  obtain ⟨n, hn, hlookup⟩ := Option.bind_eq_some_iff.mp h
  -- without the first entry there is still the other one
  have hrest : (fs.setNode d (n.removeChild m)).entry d' m' = some c := by
    rw [entry_setNode]
    split
    · rename_i hd
      rw [lookup_removeChild, if_neg fun hm => hne ⟨hd, hm⟩, ← entry_of_node (hd ▸ hn), h']
    · exact h'
  have hpos := linksTo_pos hrest
  have hset := @linksTo_setNode fs d c (n.removeChild m) n hn
  have hremove := @naming_removeChild c n m c hlookup
  rw [if_pos rfl] at hremove
  omega

end Nodes

/-! ## Writing and truncating -/

section Calls

variable {fs fs' : TmpfsFilesystem} {i p ino : Nat} {n n' parent : TmpfsInode} {name : String}

variable {d c used mode uid gid q : Nat} {fileType : TmpfsFileType} {old new : String}

theorem live_setNode : (fs.setNode i n).Live d ↔ d = i ∨ fs.Live d := by
  unfold Live
  rw [node_setNode]
  by_cases hd : d = i
  · rw [if_pos hd]
    exact iff_of_true rfl (.inl hd)
  · rw [if_neg hd, or_iff_right hd]

theorem isDir_setNode :
    (fs.setNode i n).IsDir d ↔ if d = i then n.fileType = .directory else fs.IsDir d := by
  unfold IsDir
  rw [node_setNode]
  by_cases hd : d = i
  · rw [if_pos hd, if_pos hd]
    exact ⟨fun ⟨_, hn, hdir⟩ => Option.some.inj hn ▸ hdir, fun hdir => ⟨n, rfl, hdir⟩⟩
  · rw [if_neg hd, if_neg hd]

theorem isDir_of_node (h : fs.node i = some n) : fs.IsDir i ↔ n.fileType = .directory :=
  ⟨fun ⟨_, hn, hdir⟩ => Option.some.inj (h.symm.trans hn) ▸ hdir, fun hdir => ⟨n, h, hdir⟩⟩

theorem not_isDir_of_none (h : fs.node i = none) : ¬ fs.IsDir i := by
  rintro ⟨n, hn, -⟩
  rw [h] at hn
  exact nomatch hn

theorem live_of_node (h : fs.node i = some n) : fs.Live i := by
  rw [Live, h]
  rfl

theorem live_setNode_same (hn : fs.node i = some n) : (fs.setNode i n').Live = fs.Live := by
  funext d
  refine propext (live_setNode.trans ⟨?_, .inr⟩)
  rintro (rfl | hd)
  · exact live_of_node hn
  · exact hd

theorem isDir_setNode_same (hn : fs.node i = some n) (htype : n'.fileType = n.fileType) :
    (fs.setNode i n').IsDir = fs.IsDir := by
  funext d
  refine propext (isDir_setNode.trans ?_)
  split
  · rename_i hd
    subst hd
    rw [htype, ← isDir_of_node hn]
  · exact Iff.rfl

theorem entry_addChild (hn : fs.node i = some n)
    (hchildren : n'.children = (n.addChild name c).children) (d : Nat) (m : String) :
    (fs.setNode i n').entry d m = if d = i ∧ m = name then some c else fs.entry d m := by
  rw [entry_setNode]
  by_cases hd : d = i
  · subst hd
    rw [if_pos rfl, hchildren, lookup_addChild, entry_of_node hn]
    exact if_congr (and_iff_right rfl).symm rfl rfl
  · rw [if_neg hd, if_neg fun hx => hd hx.1]

theorem entry_dropChild (hn : fs.node i = some n)
    (hchildren : n'.children = (n.removeChild name).children) (d : Nat) (m : String) :
    (fs.setNode i n').entry d m = if d = i ∧ m = name then none else fs.entry d m := by
  rw [entry_setNode]
  by_cases hd : d = i
  · subst hd
    rw [if_pos rfl, hchildren, lookup_removeChild, entry_of_node hn]
    exact if_congr (and_iff_right rfl).symm rfl rfl
  · rw [if_neg hd, if_neg fun hx => hd hx.1]

/-- Another inode with the same entries and links. -/
theorem Kept.setNode (h : Kept fs) (hn : fs.node i = some n) (n' : TmpfsInode)
    (htype : n'.fileType = n.fileType) (hnlinks : n'.nlinks = n.nlinks)
    (hchildren : n'.children = n.children)
    (hused : used + n.data.length = fs.totalUsed + n'.data.length) (hbound : used ≤ fs.maxSize) :
    Kept ({ fs with totalUsed := used }.setNode i n') := by
  let fs' : TmpfsFilesystem := { fs with totalUsed := used }.setNode i n'
  have hlive : fs'.Live = fs.Live := live_setNode_same hn
  have hdir : fs'.IsDir = fs.IsDir := isDir_setNode_same hn htype
  have hentry : fs'.entry = fs.entry := by
    funext d m
    refine entry_setNode.trans ?_
    split
    · rename_i hd
      subst hd
      rw [hchildren, entry_of_node hn]
    · rfl
  have hlinks : ∀ c, fs'.linksTo c = fs.linksTo c := fun c => by
    have hset : fs'.linksTo c + naming c n = fs.linksTo c + naming c n' := linksTo_setNode hn
    rw [show naming c n' = naming c n by rw [naming, naming, hchildren]] at hset
    exact Nat.add_right_cancel hset
  have hbytes : fs'.bytes + n.data.length = fs.bytes + n'.data.length := bytes_setNode hn
  refine ⟨?_, fun j hj => ?_, fun j x hx hfile => ?_, ?_, hbound⟩
  · show DirTree fs'.Live fs'.IsDir fs'.entry
    rw [hlive, hdir, hentry]
    exact h.tree
  · have hfree := h.fresh j hj
    refine node_setNode.trans ?_
    rw [if_neg, show ({ fs with totalUsed := used } : TmpfsFilesystem).node j = fs.node j from rfl, hfree]
    rintro rfl
    exact nomatch hn.symm.trans hfree
  · rw [hlinks]
    have hx := node_setNode.symm.trans hx
    split at hx
    · rename_i hj
      obtain rfl := Option.some.inj hx
      rw [hnlinks, h.nlinks i n hn (htype ▸ hfile), hj]
    · exact h.nlinks j x hx hfile
  · show used = fs'.bytes
    have := h.used
    omega

theorem kept_writeFile (h : Kept fs) {offset count : Nat} {data : List UInt8}
    (hrun : fs.writeFile ino offset data = .ok (count, fs')) : Kept fs' := by
  unfold writeFile at hrun
  simp only [okOr_bind_eq_ok, require_bind_eq_ok, pure_eq_ok, Prod.mk.injEq] at hrun
  obtain ⟨n, hn, -, hspace, -, rfl⟩ := hrun
  have hlen : ∀ len, n.data.length ≤ len → (resize n.data len).length = len := fun len hle => by
    rw [resize, List.length_append, List.length_take, List.length_replicate]
    omega
  have hwritten : ((resize n.data (max (offset + data.length) n.data.length)).take offset ++ data ++
      (resize n.data (max (offset + data.length) n.data.length)).drop (offset + data.length)).length
      = max (offset + data.length) n.data.length := by
    simp only [List.length_append, List.length_take, List.length_drop, hlen _ (Nat.le_max_right _ _)]
    omega
  refine h.setNode hn (n.setData _) rfl rfl rfl ?_ ?_
  · rw [setData_data, hwritten]
    omega
  · have hbound := h.bound
    simp only [Bool.or_eq_true, decide_eq_true_eq] at hspace
    omega

theorem kept_truncate (h : Kept fs) {size : Nat} (hrun : fs.truncate ino size = .ok fs') :
    Kept fs' := by
  unfold truncate at hrun
  simp only [okOr_bind_eq_ok, require_bind_eq_ok, pure_eq_ok] at hrun
  obtain ⟨n, hn, hspace, rfl⟩ := hrun
  have hlen : (resize n.data size).length = size := by
    rw [resize, List.length_append, List.length_take, List.length_replicate]
    omega
  -- the inode's own bytes are part of the total
  have hle : n.data.length ≤ fs.totalUsed := by
    rw [h.used]
    exact le_total (f := fun n : TmpfsInode => n.data.length) hn
  refine h.setNode hn (n.setData _) rfl rfl rfl ?_ ?_
  · rw [setData_data, hlen]
    omega
  · have hbound := h.bound
    simp only [Bool.or_eq_true, decide_eq_true_eq] at hspace
    omega

/-! ## Creating -/

/-- What `create` found, and the inode it made. -/
theorem create_eq_ok (h : Kept fs) (hnext : fs.nextIno + 1 < 2 ^ 64)
    (hrun : fs.create p name fileType mode uid gid = .ok (ino, fs')) :
    ∃ parent n parent', fs.node p = some parent ∧ parent.fileType = .directory ∧
      parent.children.lookup name = none ∧ Real name ∧ ino = fs.nextIno ∧
      fs' = ({ fs with nextIno := fs.nextIno + 1 }.setNode ino n).setNode p parent' ∧
      n.fileType = fileType ∧ n.data = [] ∧ n.nlinks = (if fileType = .directory then 2 else 1) ∧
      n.children = (if fileType = .directory then
        ((∅ : Finmap fun _ : String => Nat).insert "." ino).insert ".." p else ∅) ∧
      parent'.fileType = .directory ∧ parent'.data = parent.data ∧
      parent'.children = (parent.addChild name ino).children := by
  unfold create at hrun
  simp only [okOr_bind_eq_ok, unwrap_bind_eq_ok, require_bind_eq_ok, pure_eq_ok, real_iff,
    decide_eq_true_eq, Option.isNone_iff_eq_none, Prod.mk.injEq] at hrun
  obtain ⟨-, hreal, parent, hp, hdir, hfree, parent₁, hp₁, hino, hfs⟩ := hrun
  rw [node_setNode, if_neg] at hp₁
  · have hp₁ : fs.node p = some parent₁ := hp₁
    obtain rfl := Option.some.inj (hp.symm.trans hp₁)
    rw [Nat.mod_eq_of_lt hnext] at hfs
    subst hino
    refine ⟨parent, _, _, hp, hdir, hfree, hreal, rfl, hfs.symm, ?_, ?_, ?_, ?_, ?_, ?_, ?_⟩ <;>
      by_cases hft : fileType = .directory <;> simp [hft, TmpfsInode.new, addChild, hdir]
  · rintro rfl
    rw [h.fresh _ (Nat.le_refl _)] at hp
    exact nomatch hp

theorem kept_create (h : Kept fs) (hnext : fs.nextIno + 1 < 2 ^ 64)
    (hrun : fs.create p name fileType mode uid gid = .ok (ino, fs')) : Kept fs' := by
  obtain ⟨parent, n, parent', hp, hdir, hfree, hreal, rfl, rfl, htype, hdata, hnlinks, hchildren,
    hdir', hdata', hchildren'⟩ := create_eq_ok h hnext hrun
  let fs₁ : TmpfsFilesystem := { fs with nextIno := fs.nextIno + 1 }.setNode fs.nextIno n
  let fs' : TmpfsFilesystem := fs₁.setNode p parent'
  have hnew : fs.node fs.nextIno = none := h.fresh _ (Nat.le_refl _)
  have hne : p ≠ fs.nextIno := by
    rintro rfl
    exact nomatch hp.symm.trans hnew
  have hp₁ : fs₁.node p = some parent := node_setNode.trans (by rw [if_neg hne]; exact hp)
  have hpdir : fs.IsDir p := (isDir_of_node hp).mpr hdir
  have hnode : ∀ j, fs'.node j =
      if j = p then some parent' else if j = fs.nextIno then some n else fs.node j := fun j => by
    refine node_setNode.trans ?_
    split
    · rfl
    · exact node_setNode
  have hlive : ∀ j, fs'.Live j ↔ fs.Live j ∨ j = fs.nextIno := fun j => by
    refine live_setNode.trans ((or_congr_right live_setNode).trans ?_)
    constructor
    · rintro (rfl | rfl | hj)
      · exact .inl (live_of_node hp)
      · exact .inr rfl
      · exact .inl hj
    · rintro (hj | rfl)
      · exact .inr (.inr hj)
      · exact .inr (.inl rfl)
  have hisDir : ∀ j, fs'.IsDir j ↔ fs.IsDir j ∨ (j = fs.nextIno ∧ fileType = .directory) := fun j => by
    refine isDir_setNode.trans ?_
    by_cases hj : j = p
    · rw [if_pos hj]
      exact iff_of_true hdir' (.inl (hj ▸ hpdir))
    · rw [if_neg hj]
      refine isDir_setNode.trans ?_
      by_cases hjn : j = fs.nextIno
      · subst hjn
        rw [if_pos rfl, htype, or_iff_right (not_isDir_of_none hnew), and_iff_right rfl]
      · rw [if_neg hjn]
        exact ⟨.inl, fun hx => hx.resolve_right fun hn => hjn hn.1⟩
  have hentry : ∀ d m, fs'.entry d m = if d = fs.nextIno then n.children.lookup m
      else if d = p ∧ m = name then some fs.nextIno else fs.entry d m := fun d m => by
    refine entry_setNode.trans ?_
    by_cases hd : d = p
    · subst hd
      rw [if_pos rfl, if_neg hne, hchildren', lookup_addChild, entry_of_node hp]
      by_cases hm : m = name
      · rw [if_pos hm, if_pos ⟨rfl, hm⟩]
      · rw [if_neg hm, if_neg fun hx => hm hx.2]
    · rw [if_neg hd]
      refine entry_setNode.trans ?_
      by_cases hdn : d = fs.nextIno
      · rw [if_pos hdn, if_pos hdn]
      · rw [if_neg hdn, if_neg hdn, if_neg fun hx => hd hx.1]
        rfl
  have htree : DirTree fs'.Live fs'.IsDir fs'.entry := by
    by_cases hft : fileType = .directory
    · refine h.tree.addDir hpdir hreal ((entry_of_node hp).trans hfree) ?_ hlive (fun j => ?_)
        fun d m => ?_
      · rw [Live, hnew]
        exact Bool.false_ne_true
      · rw [hisDir, and_iff_left hft]
      · rw [hentry, hchildren, if_pos hft]
        by_cases hup : m = ".."
        · subst hup
          rw [Finmap.lookup_insert, if_neg (show ".." ≠ "." by decide), if_pos rfl]
        · rw [Finmap.lookup_insert_of_ne _ hup, if_neg hup]
          by_cases hdot : m = "."
          · subst hdot
            rw [Finmap.lookup_insert, if_pos rfl]
          · rw [Finmap.lookup_insert_of_ne _ hdot, if_neg hdot, Finmap.lookup_empty]
    · have hsame : fs'.IsDir = fs.IsDir := by
        funext j
        exact propext ((hisDir j).trans ⟨fun hx => hx.resolve_right fun hn => hft hn.2, .inl⟩)
      rw [hsame]
      refine h.tree.addFile hpdir hreal ((entry_of_node hp).trans hfree) ?_
        (fun j hj => (hlive j).mpr (.inl hj)) ((hlive _).mpr (.inr rfl)) fun d m => ?_
      · exact not_isDir_of_none hnew
      · rw [hentry]
        by_cases hd : d = fs.nextIno
        · -- the new file has no entries, and an unused number had none
          rw [if_pos hd, hchildren, if_neg hft, Finmap.lookup_empty,
            if_neg fun hx => hne (hx.1.symm.trans hd), entry, hd, hnew, Option.bind_none]
        · rw [if_neg hd]
  have hlinks : ∀ c, fs'.linksTo c =
      fs.linksTo c + naming c n + if fs.nextIno = c then 1 else 0 := fun c => by
    have h₁ : fs₁.linksTo c = fs.linksTo c + naming c n := linksTo_setNode_new hnew
    have h₂ : fs'.linksTo c + naming c parent = fs₁.linksTo c + naming c parent' :=
      linksTo_setNode hp₁
    have h₃ : naming c parent' = naming c parent + if fs.nextIno = c then 1 else 0 := by
      rw [naming, hchildren']
      exact naming_addChild_new hfree
    omega
  -- the entries of a new directory name directories
  have hzero : ∀ c, ¬ fs.IsDir c → (c = fs.nextIno → fileType ≠ .directory) → naming c n = 0 := by
    intro c hc hfile
    refine naming_eq_zero fun m k hk => ?_
    rw [hchildren] at hk
    split at hk
    · rename_i hft
      rintro rfl
      by_cases hup : m = ".."
      · rw [hup, Finmap.lookup_insert] at hk
        exact hc (Option.some.inj hk ▸ hpdir)
      · rw [Finmap.lookup_insert_of_ne _ hup] at hk
        by_cases hdot : m = "."
        · rw [hdot, Finmap.lookup_insert] at hk
          exact hfile (Option.some.inj hk).symm hft
        · rw [Finmap.lookup_insert_of_ne _ hdot, Finmap.lookup_empty] at hk
          exact nomatch hk
    · rw [Finmap.lookup_empty] at hk
      exact nomatch hk
  refine ⟨htree, fun j hj => ?_, fun j x hx hfile => ?_, ?_, h.bound⟩
  · have hj : fs.nextIno + 1 ≤ j := hj
    have hfree' := h.fresh j (by omega)
    refine (hnode j).trans ?_
    rw [if_neg, if_neg (by omega), hfree']
    rintro rfl
    exact nomatch hp.symm.trans hfree'
  · show x.nlinks = fs'.linksTo j
    have hx := (hnode j).symm.trans hx
    rw [hlinks]
    split at hx
    · obtain rfl := Option.some.inj hx
      exact absurd hdir' hfile
    · split at hx
      · rename_i hj
        obtain rfl := Option.some.inj hx
        rw [htype] at hfile
        have hunnamed : fs.linksTo j = 0 := linksTo_eq_zero fun d m hdm => by
          have hlive := (h.tree.entries d m j hdm).2
          rw [Live, hj, hnew] at hlive
          exact nomatch hlive
        rw [hnlinks, if_neg hfile, hunnamed, if_pos hj.symm,
          hzero j (hj ▸ not_isDir_of_none hnew) fun _ => hfile]
      · rename_i hj
        have hnot : ¬ fs.IsDir j := (isDir_of_node hx).not.mpr hfile
        rw [hzero j hnot fun heq => absurd heq hj, if_neg (Ne.symm hj), Nat.add_zero]
        exact h.nlinks j x hx hfile
  · show fs.totalUsed = fs'.bytes
    have h₁ : fs₁.bytes = fs.bytes + n.data.length := bytes_setNode_new hnew
    have h₂ : fs'.bytes + parent.data.length = fs₁.bytes + parent'.data.length := bytes_setNode hp₁
    rw [hdata, List.length_nil] at h₁
    rw [hdata'] at h₂
    have := h.used
    omega

theorem kept_symlink (h : Kept fs) (hnext : fs.nextIno + 1 < 2 ^ 64) {target : String}
    (hrun : fs.symlink p name target uid gid = .ok (ino, fs')) : Kept fs' := by
  unfold symlink at hrun
  cases hcreate : fs.create p name .symlink 0o777 uid gid with
  | error stop =>
    rw [hcreate] at hrun
    exact nomatch hrun
  | ok made =>
    obtain ⟨ino₁, fs₁⟩ := made
    have hkept := kept_create h hnext hcreate
    rw [hcreate] at hrun
    have hrun : (do
        let n ← unwrap (fs₁.node ino₁)
        return (ino₁, fs₁.setNode ino₁
          { n with symlinkTarget := some target, size := target.utf8ByteSize })) = .ok (ino, fs') := hrun
    simp only [unwrap_bind_eq_ok, pure_eq_ok, Prod.mk.injEq] at hrun
    obtain ⟨n, hn, -, rfl⟩ := hrun
    exact hkept.setNode hn { n with symlinkTarget := some target, size := target.utf8ByteSize }
      rfl rfl rfl rfl hkept.bound

/-! ## Linking -/

theorem kept_link (h : Kept fs) {target : Nat}
    (hwrap : ∀ n, fs.node target = some n → n.fileType ≠ .directory → n.nlinks + 1 < 2 ^ 32)
    (hrun : fs.link p name target = .ok fs') : Kept fs' := by
  unfold link at hrun
  simp only [okOr_bind_eq_ok, unwrap_bind_eq_ok, require_bind_eq_ok, pure_eq_ok, decide_eq_true_eq,
    Option.isNone_iff_eq_none] at hrun
  obtain ⟨-, n, hn, hfile, parent, hp, hdir, hfree, parent₁, hp₁, rfl⟩ := hrun
  have hne : p ≠ target := by
    rintro rfl
    obtain rfl := Option.some.inj (hp.symm.trans hn)
    exact hfile hdir
  rw [Nat.mod_eq_of_lt (hwrap n hn hfile)] at hp₁ ⊢
  rw [node_setNode, if_neg hne, hp, Option.some.injEq] at hp₁
  subst hp₁
  let n₁ : TmpfsInode := { n with nlinks := n.nlinks + 1 }
  let fs₁ := fs.setNode target n₁
  have hp₁ : fs₁.node p = some parent := node_setNode.trans (by rw [if_neg hne, hp])
  have hpdir : fs.IsDir p := (isDir_of_node hp).mpr hdir
  have hreal : Real name := by
    -- a directory calls something by both other names
    constructor
    · rintro rfl
      exact nomatch ((entry_of_node hp).symm.trans (h.tree.dot p hpdir)).symm.trans hfree
    · rintro rfl
      obtain ⟨q, hq, -⟩ := h.tree.up p hpdir
      exact nomatch ((entry_of_node hp).symm.trans hq).symm.trans hfree
  have hlive₁ : fs₁.Live = fs.Live := live_setNode_same hn
  have hdir₁ : fs₁.IsDir = fs.IsDir := isDir_setNode_same hn rfl
  have hentry₁ : ∀ d m, fs₁.entry d m = fs.entry d m := fun d m => by
    refine entry_setNode.trans ?_
    split
    · rename_i hd
      rw [hd, entry_of_node hn]
    · rfl
  have hlinks : ∀ c, (fs₁.setNode p (parent.addChild name target)).linksTo c
      = fs.linksTo c + if target = c then 1 else 0 := fun c => by
    have h₁ : fs₁.linksTo c + naming c n = fs.linksTo c + naming c n₁ := linksTo_setNode hn
    have h₂ := @linksTo_setNode fs₁ p c (parent.addChild name target) parent hp₁
    have h₃ := @naming_addChild_new target c parent name hfree
    have h₄ : naming c n₁ = naming c n := rfl
    omega
  refine ⟨?_, fun j hj => ?_, fun j x hx hxfile => ?_, ?_, h.bound⟩
  · show DirTree (fs₁.setNode p _).Live (fs₁.setNode p _).IsDir _
    have hdir₂ : (fs₁.setNode p (parent.addChild name target)).IsDir = fs₁.IsDir :=
      isDir_setNode_same hp₁ rfl
    rw [live_setNode_same hp₁, hlive₁]
    refine (hdir₂.trans hdir₁).symm ▸ h.tree.addFile hpdir hreal ((entry_of_node hp).trans hfree) ?_ (fun _ hj => hj)
      (live_of_node hn) fun d m => ?_
    · rw [isDir_of_node hn]
      exact hfile
    · rw [entry_addChild hp₁ rfl, hentry₁]
  · have hfree' := h.fresh j hj
    rw [node_setNode, if_neg, node_setNode, if_neg, hfree']
    · rintro rfl
      exact nomatch hn.symm.trans hfree'
    · rintro rfl
      exact nomatch hp.symm.trans hfree'
  · show x.nlinks = (fs₁.setNode p (parent.addChild name target)).linksTo j
    rw [hlinks]
    rw [node_setNode, node_setNode] at hx
    split at hx
    · obtain rfl := Option.some.inj hx
      exact absurd hdir hxfile
    · split at hx
      · rename_i hj
        obtain rfl := Option.some.inj hx
        subst hj
        rw [if_pos rfl, ← h.nlinks j n hn hfile]
      · rename_i hj
        rw [if_neg (Ne.symm hj), Nat.add_zero, h.nlinks j x hx hxfile]
  · show fs.totalUsed = (fs₁.setNode p _).bytes
    have h₁ : fs₁.bytes + n.data.length = fs.bytes + n.data.length := bytes_setNode hn
    have h₂ := @bytes_setNode fs₁ p (parent.addChild name target) parent hp₁
    have h₃ : (parent.addChild name target).data = parent.data := rfl
    have := h.used
    rw [h₃] at h₂
    omega

/-! ## Removing -/

theorem isEmpty_iff : n.isEmpty = true ↔ ∀ m, Real m → n.children.lookup m = none := by
  simp only [isEmpty, decide_eq_true_eq, Finset.filter_eq_empty_iff, Finmap.mem_keys,
    Finmap.lookup_eq_none, real_iff]
  exact ⟨fun hall m hm hmem => hall hmem hm, fun hall m hmem hm => hall m hm hmem⟩

/-- **An inode that goes with its only name**: a file with one link, or an empty
directory. -/
theorem kept_drop (h : Kept fs) {parent' : TmpfsInode} (hp : fs.node p = some parent)
    (hreal : Real name) (hname : parent.children.lookup name = some c) (hn : fs.node c = some n)
    (hgone : (n.fileType ≠ .directory ∧ n.nlinks = 1) ∨
      (n.fileType = .directory ∧ n.isEmpty = true)) (hused : used + n.data.length = fs.totalUsed)
    (htype : parent'.fileType = parent.fileType) (hdata : parent'.data = parent.data)
    (hchildren : parent'.children = (parent.removeChild name).children) :
    Kept ({ fs.removeNode c with totalUsed := used }.setNode p parent') := by
  let fs₁ : TmpfsFilesystem := { fs.removeNode c with totalUsed := used }
  let fs' : TmpfsFilesystem := fs₁.setNode p parent'
  have hentry : fs.entry p name = some c := (entry_of_node hp).trans hname
  have hpdir : fs.IsDir p := (h.tree.entries p name c hentry).1
  have hne : p ≠ c := by
    rintro rfl
    obtain rfl := Option.some.inj (hp.symm.trans hn)
    rcases hgone with ⟨hfile, -⟩ | ⟨-, hempty⟩
    · exact hfile ((isDir_of_node hn).mp hpdir)
    · exact nomatch (isEmpty_iff.mp hempty name hreal).symm.trans hname
  have hp₁ : fs₁.node p = some parent := node_removeNode.trans (by rw [if_neg hne, hp])
  have hnode : ∀ j, fs'.node j = if j = p then some parent' else if j = c then none else fs.node j :=
    fun j => by
      refine node_setNode.trans ?_
      split
      · rfl
      · exact node_removeNode
  have hlive : ∀ j, fs'.Live j ↔ fs.Live j ∧ j ≠ c := fun j => by
    rw [show fs'.Live = fs₁.Live from live_setNode_same hp₁]
    unfold Live
    rw [show fs₁.node j = _ from node_removeNode]
    by_cases hj : j = c
    · rw [if_pos hj]
      exact ⟨fun hx => (nomatch hx), fun hx => absurd hj hx.2⟩
    · rw [if_neg hj, and_iff_left hj]
  have hdir : ∀ j, fs'.IsDir j ↔ fs.IsDir j ∧ j ≠ c := fun j => by
    rw [show fs'.IsDir = fs₁.IsDir from isDir_setNode_same hp₁ htype]
    unfold IsDir
    rw [show fs₁.node j = _ from node_removeNode]
    by_cases hj : j = c
    · rw [if_pos hj]
      exact ⟨fun ⟨_, hx, _⟩ => (nomatch hx), fun hx => absurd hj hx.2⟩
    · rw [if_neg hj, and_iff_left hj]
  have hentry' : ∀ d m, fs'.entry d m =
      if d = p ∧ m = name then none else if d = c then none else fs.entry d m := fun d m => by
    rw [show fs'.entry d m = _ from entry_dropChild hp₁ hchildren d m]
    exact if_congr Iff.rfl rfl entry_removeNode
  -- what goes names no file
  have hzero : ∀ j, ¬ fs.IsDir j → naming j n = 0 := by
    intro j hj
    refine naming_eq_zero fun m k hk => ?_
    have hck : fs.entry c m = some k := (entry_of_node hn).trans hk
    have hcdir := (h.tree.entries c m k hck).1
    rintro rfl
    rcases hgone with ⟨hfile, -⟩ | ⟨-, hempty⟩
    · exact hfile ((isDir_of_node hn).mp hcdir)
    · by_cases hdot : m = "."
      · subst hdot
        exact hj (Option.some.inj ((h.tree.dot c hcdir).symm.trans hck) ▸ hcdir)
      · by_cases hup : m = ".."
        · subst hup
          obtain ⟨q, hq, hqdir⟩ := h.tree.up c hcdir
          exact hj (Option.some.inj (hq.symm.trans hck) ▸ hqdir)
        · exact nomatch (isEmpty_iff.mp hempty m ⟨hdot, hup⟩).symm.trans hk
  have hlinks : ∀ j, ¬ fs.IsDir j → j ≠ c → fs'.linksTo j = fs.linksTo j := fun j hj hjc => by
    have h₁ : fs₁.linksTo j + naming j n = fs.linksTo j := linksTo_removeNode hn
    have h₂ : fs'.linksTo j + naming j parent = fs₁.linksTo j + naming j parent' :=
      linksTo_setNode hp₁
    have h₃ : naming j parent' + (if c = j then 1 else 0) = naming j parent := by
      rw [naming, hchildren]
      exact naming_removeChild hname
    rw [if_neg (Ne.symm hjc)] at h₃
    rw [hzero j hj] at h₁
    omega
  refine ⟨?_, fun j hj => ?_, fun j x hx hxfile => ?_, ?_, ?_⟩
  · show DirTree fs'.Live fs'.IsDir fs'.entry
    rcases hgone with ⟨hfile, hone⟩ | ⟨hcdir, hempty⟩
    · have hnot : ¬ fs.IsDir c := (isDir_of_node hn).not.mpr hfile
      have hsame : fs'.IsDir = fs.IsDir := by
        funext j
        refine propext ((hdir j).trans (and_iff_left_of_imp ?_))
        rintro hj rfl
        exact hnot hj
      rw [hsame]
      refine h.tree.dropFile hreal hentry hnot (fun a ha hac => (hlive a).mpr ⟨ha, hac⟩)
        (fun _ d m hdm => ?_) fun d m => ?_
      · rw [h.nlinks c n hn hfile] at hone
        exact entry_unique hone hentry hdm
      · rw [hentry']
        refine if_congr Iff.rfl rfl ?_
        split
        · rename_i hdc
          by_contra hsome
          obtain ⟨k, hk⟩ := Option.ne_none_iff_exists'.mp (Ne.symm hsome)
          exact hnot (hdc ▸ (h.tree.entries d m k hk).1)
        · rfl
    · refine h.tree.dropDir ((isDir_of_node hn).mpr hcdir) ⟨hreal, hentry⟩ (fun m hm => ?_) hlive hdir
        fun d m => ?_
      · rw [entry_of_node hn]
        exact isEmpty_iff.mp hempty m hm
      · rw [hentry']
        split
        · split <;> rfl
        · rfl
  · have hfree := h.fresh j hj
    refine (hnode j).trans ?_
    rw [if_neg]
    · split
      · rfl
      · exact hfree
    · rintro rfl
      exact nomatch hp.symm.trans hfree
  · show x.nlinks = fs'.linksTo j
    have hx := (hnode j).symm.trans hx
    split at hx
    · obtain rfl := Option.some.inj hx
      rw [htype] at hxfile
      exact absurd ((isDir_of_node hp).mp hpdir) hxfile
    · split at hx
      · exact nomatch hx
      · rename_i hjc
        rw [hlinks j ((isDir_of_node hx).not.mpr hxfile) hjc, h.nlinks j x hx hxfile]
  · show used = fs'.bytes
    have h₁ : fs₁.bytes + n.data.length = fs.bytes := bytes_removeNode hn
    have h₂ : fs'.bytes + parent.data.length = fs₁.bytes + parent'.data.length := bytes_setNode hp₁
    have := h.used
    rw [hdata] at h₂
    omega
  · have hbound := h.bound
    show used ≤ fs.maxSize
    omega

theorem kept_rmdir (h : Kept fs) (hrun : fs.rmdir p name = .ok fs')
    (hdata : ∀ c n, fs.entry p name = some c → fs.node c = some n → n.fileType = .directory →
      n.isEmpty = true → n.data = []) : Kept fs' := by
  unfold rmdir at hrun
  simp only [okOr_bind_eq_ok, unwrap_bind_eq_ok, require_bind_eq_ok, pure_eq_ok, real_iff,
    decide_eq_true_eq] at hrun
  obtain ⟨hreal, parent, hp, c, hname, n, hn, hdir, hempty, parent₁, hp₁, rfl⟩ := hrun
  have hnil := hdata c n ((entry_of_node hp).trans hname) hn hdir hempty
  rw [node_removeNode] at hp₁
  split at hp₁
  · exact nomatch hp₁
  · obtain rfl := Option.some.inj (hp.symm.trans hp₁)
    exact kept_drop h hp hreal hname hn (.inr ⟨hdir, hempty⟩) (by rw [hnil, List.length_nil, Nat.add_zero])
      rfl rfl rfl

theorem kept_unlink (h : Kept fs) (hrun : fs.unlink p name = .ok fs') : Kept fs' := by
  unfold unlink at hrun
  simp only [okOr_bind_eq_ok, unwrap_bind_eq_ok, require_bind_eq_ok, pure_eq_ok, real_iff,
    decide_eq_true_eq] at hrun
  obtain ⟨hreal, parent, hp, c, hname, n, hn, hfile, parent₁, hp₁, rfl⟩ := hrun
  have hentry : fs.entry p name = some c := (entry_of_node hp).trans hname
  have hpdir : fs.IsDir p := (h.tree.entries p name c hentry).1
  have hne : p ≠ c := by
    rintro rfl
    exact hfile ((isDir_of_node hn).mp hpdir)
  have hcount := h.nlinks c n hn hfile
  have hpos := linksTo_pos hentry
  by_cases hlast : n.nlinks - 1 = 0
  · rw [if_pos hlast] at hp₁ ⊢
    have hp₁ := node_removeNode.symm.trans hp₁
    rw [if_neg hne, hp] at hp₁
    obtain rfl := Option.some.inj hp₁
    have hle : n.data.length ≤ fs.totalUsed := by
      rw [h.used]
      exact le_total (f := fun n : TmpfsInode => n.data.length) hn
    exact kept_drop h hp hreal hname hn (.inl ⟨hfile, by omega⟩) (Nat.sub_add_cancel hle) rfl rfl rfl
  · rw [if_neg hlast] at hp₁ ⊢
    rw [node_setNode, if_neg hne, hp] at hp₁
    obtain rfl := Option.some.inj hp₁
    let n₁ : TmpfsInode := { n with nlinks := n.nlinks - 1 }
    let fs₁ := fs.setNode c n₁
    have hp₁ : fs₁.node p = some parent := node_setNode.trans (by rw [if_neg hne, hp])
    have hdir₁ : fs₁.IsDir = fs.IsDir := isDir_setNode_same hn rfl
    have hlive₁ : fs₁.Live = fs.Live := live_setNode_same hn
    have hentry₁ : ∀ d m, fs₁.entry d m = fs.entry d m := fun d m => by
      refine entry_setNode.trans ?_
      split
      · rename_i hd
        rw [hd, entry_of_node hn]
      · rfl
    have hlinks : ∀ j, (fs₁.setNode p (parent.removeChild name)).linksTo j
        + (if c = j then 1 else 0) = fs.linksTo j := fun j => by
      have h₁ : fs₁.linksTo j + naming j n = fs.linksTo j + naming j n₁ := linksTo_setNode hn
      have h₂ := @linksTo_setNode fs₁ p j (parent.removeChild name) parent hp₁
      have h₃ := @naming_removeChild j parent name c hname
      have h₄ : naming j n₁ = naming j n := rfl
      omega
    refine ⟨?_, fun j hj => ?_, fun j x hx hxfile => ?_, ?_, h.bound⟩
    · show DirTree (fs₁.setNode p _).Live (fs₁.setNode p _).IsDir _
      have hdir₂ : (fs₁.setNode p (parent.removeChild name)).IsDir = fs₁.IsDir :=
        isDir_setNode_same hp₁ rfl
      rw [live_setNode_same hp₁, hlive₁]
      refine (hdir₂.trans hdir₁).symm ▸ h.tree.dropFile hreal hentry
        ((isDir_of_node hn).not.mpr hfile) (fun _ hj _ => hj) (fun hgone => ?_) fun d m => ?_
      · exact absurd (live_of_node hn) hgone
      · rw [entry_dropChild hp₁ rfl, hentry₁]
    · have hfree' := h.fresh j hj
      rw [node_setNode, if_neg, node_setNode, if_neg, hfree']
      · rintro rfl
        exact nomatch hn.symm.trans hfree'
      · rintro rfl
        exact nomatch hp.symm.trans hfree'
    · show x.nlinks = (fs₁.setNode p (parent.removeChild name)).linksTo j
      have hj := hlinks j
      rw [node_setNode, node_setNode] at hx
      split at hx
      · obtain rfl := Option.some.inj hx
        exact absurd ((isDir_of_node hp).mp hpdir) hxfile
      · split at hx
        · rename_i hjc
          obtain rfl := Option.some.inj hx
          subst hjc
          rw [if_pos rfl, ← hcount] at hj
          exact Nat.sub_eq_of_eq_add hj.symm
        · rename_i hjc
          rw [if_neg (Ne.symm hjc), Nat.add_zero] at hj
          rw [hj, h.nlinks j x hx hxfile]
    · show fs.totalUsed = (fs₁.setNode p _).bytes
      have h₁ : fs₁.bytes + n.data.length = fs.bytes + n.data.length := bytes_setNode hn
      have h₂ := @bytes_setNode fs₁ p (parent.removeChild name) parent hp₁
      have h₃ : (parent.removeChild name).data = parent.data := rfl
      have := h.used
      rw [h₃] at h₂
      omega

/-! ## Renaming -/

/-- The inode without its entries. -/
def bare (n : TmpfsInode) : TmpfsInode := { n with children := ∅ }

/-- Only entries differ. -/
structure Relinked (fs fs' : TmpfsFilesystem) : Prop where
  nodes : ∀ i, (fs'.node i).map bare = (fs.node i).map bare
  bytes : fs'.bytes = fs.bytes
  nextIno : fs'.nextIno = fs.nextIno
  totalUsed : fs'.totalUsed = fs.totalUsed
  maxSize : fs'.maxSize = fs.maxSize

theorem Relinked.trans {fs₁ : TmpfsFilesystem} (h : Relinked fs fs₁) (h' : Relinked fs₁ fs') :
    Relinked fs fs' where
  nodes i := (h'.nodes i).trans (h.nodes i)
  bytes := h'.bytes.trans h.bytes
  nextIno := h'.nextIno.trans h.nextIno
  totalUsed := h'.totalUsed.trans h.totalUsed
  maxSize := h'.maxSize.trans h.maxSize

theorem relinked_setNode (hn : fs.node i = some n) (hbare : bare n' = bare n) :
    Relinked fs (fs.setNode i n') := by
  refine ⟨fun j => ?_, ?_, rfl, rfl, rfl⟩
  · rw [node_setNode]
    split
    · rename_i hj
      rw [hj, hn, Option.map_some, Option.map_some, hbare]
    · rfl
  · have hdata : n'.data = n.data := congrArg (·.data) hbare
    have hset := @bytes_setNode fs i n' n hn
    rw [hdata] at hset
    exact Nat.add_right_cancel hset

/-- What an inode was before. -/
theorem Relinked.node (h : Relinked fs fs') (hn : fs'.node i = some n') :
    ∃ n, fs.node i = some n ∧ bare n = bare n' := by
  have hi := h.nodes i
  rw [hn, Option.map_some] at hi
  exact Option.map_eq_some_iff.mp hi.symm

theorem Relinked.live (h : Relinked fs fs') : fs'.Live = fs.Live := by
  funext i
  unfold Live
  rw [← Option.isSome_map (f := bare), h.nodes i, Option.isSome_map]

theorem Relinked.isDir (h : Relinked fs fs') : fs'.IsDir = fs.IsDir := by
  have hdir : ∀ fs : TmpfsFilesystem, ∀ i, fs.IsDir i ↔
      ∃ n, (fs.node i).map bare = some n ∧ n.fileType = .directory := fun fs i => by
    simp only [IsDir, Option.map_eq_some_iff]
    constructor
    · rintro ⟨n, hn, htype⟩
      exact ⟨bare n, ⟨n, hn, rfl⟩, htype⟩
    · rintro ⟨_, ⟨n, hn, rfl⟩, htype⟩
      exact ⟨n, hn, htype⟩
  funext i
  rw [hdir, hdir, h.nodes i]

/-- Entries that make a tree again, with the same links of files. -/
theorem Kept.relinked (h : Kept fs) (hsame : Relinked fs fs')
    (htree : DirTree fs.Live fs.IsDir fs'.entry)
    (hlinks : ∀ j, ¬ fs.IsDir j → fs'.linksTo j = fs.linksTo j) : Kept fs' where
  tree := by
    rw [hsame.live, hsame.isDir]
    exact htree
  fresh j hj := by
    rw [hsame.nextIno] at hj
    have hnone := hsame.nodes j
    rwa [h.fresh j hj, Option.map_none, Option.map_eq_none_iff] at hnone
  nlinks j x hx hfile := by
    obtain ⟨n, hn, hbare⟩ := hsame.node hx
    have htype : n.fileType = x.fileType := congrArg (·.fileType) hbare
    have hcount : n.nlinks = x.nlinks := congrArg (·.nlinks) hbare
    have hnfile : n.fileType ≠ .directory := htype ▸ hfile
    rw [hlinks j ((isDir_of_node hn).not.mpr hnfile), ← h.nlinks j n hn hnfile, hcount]
  used := by rw [hsame.totalUsed, hsame.bytes, h.used]
  bound := by
    rw [hsame.totalUsed, hsame.maxSize]
    exact h.bound

theorem kept_moveEntry (h : Kept fs) (hq : fs.IsDir q) (hold : Real old) (hnew : Real new)
    (hname : fs.entry p old = some c) (hfree : fs.entry q new = none)
    (hbelow : fs.IsDir c → ¬ Descends (fs.entry · "..") q c)
    (hrun : fs.moveEntry p old q new c = .ok fs') : Kept fs' := by
  obtain ⟨cn, hc⟩ : ∃ cn, fs.node c = some cn :=
    Option.isSome_iff_exists.mp (h.tree.entries p old c hname).2
  unfold moveEntry at hrun
  simp only [unwrap_bind_eq_ok] at hrun
  obtain ⟨parent, hp, qn, hqn, hrun⟩ := hrun
  let fs₁ := fs.setNode p (parent.removeChild old)
  let fs₂ := fs₁.setNode q (qn.addChild new c)
  have hsame₁ : Relinked fs fs₁ := relinked_setNode hp rfl
  have hsame₂ : Relinked fs fs₂ := hsame₁.trans (relinked_setNode hqn rfl)
  have hentry₁ : ∀ d m, fs₁.entry d m = if d = p ∧ m = old then none else fs.entry d m :=
    entry_dropChild hp rfl
  have hentry₂ : ∀ d m, fs₂.entry d m = if d = q ∧ m = new then some c else
      if d = p ∧ m = old then none else fs.entry d m := fun d m => by
    rw [← hentry₁]
    exact entry_addChild hqn rfl d m
  have hlinks₂ : ∀ j, fs₂.linksTo j = fs.linksTo j := fun j => by
    have hfree₁ : qn.children.lookup new = none := by
      rw [← entry_of_node hqn, hentry₁]
      split
      · rfl
      · exact hfree
    have h₁ : fs₁.linksTo j + naming j parent = fs.linksTo j + naming j (parent.removeChild old) :=
      linksTo_setNode hp
    have h₂ : fs₂.linksTo j + naming j qn = fs₁.linksTo j + naming j (qn.addChild new c) :=
      linksTo_setNode hqn
    have h₃ := @naming_removeChild j parent old c ((entry_of_node hp).symm.trans hname)
    have h₄ := @naming_addChild_new c j qn new hfree₁
    omega
  cases hn : fs₂.node c with
  | none =>
    have hlive : fs₂.Live c := by
      rw [hsame₂.live]
      exact live_of_node hc
    rw [Live, hn] at hlive
    exact nomatch hlive
  | some child =>
    rw [show (fs.setNode p (parent.removeChild old)).setNode q (qn.addChild new c) = fs₂ from rfl,
      hn] at hrun
    obtain ⟨cn', hcn', hbare⟩ := hsame₂.node hn
    obtain rfl := Option.some.inj (hc.symm.trans hcn')
    have htype : cn.fileType = child.fileType := congrArg (·.fileType) hbare
    by_cases hdir : child.fileType = .directory
    · -- `..` goes with a directory
      have hcdir : fs.IsDir c := (isDir_of_node hc).mpr (htype.trans hdir)
      dsimp only at hrun
      rw [if_pos hdir] at hrun
      obtain rfl := Except.ok.inj hrun
      refine h.relinked (hsame₂.trans (relinked_setNode hn rfl))
        (h.tree.move hq hold hnew hname hfree (iff_of_true rfl hcdir) hbelow
          fun d m => ?_) fun j hj => ?_
      · rw [entry_addChild hn rfl, hentry₂]
        exact if_congr (and_congr_right fun _ => (and_iff_left rfl).symm) rfl rfl
      · obtain ⟨b, hb, hbdir⟩ := h.tree.up c hcdir
        have hup : child.children.lookup ".." = some b := by
          rw [← entry_of_node hn, hentry₂, if_neg fun heq => hnew.2 heq.2.symm,
            if_neg fun heq => hold.2 heq.2.symm, hb]
        have h₁ := @linksTo_setNode fs₂ c j (child.addChild ".." q) child hn
        have h₂ := @naming_addChild q j child ".." b hup
        have hbj : b ≠ j := fun heq => hj (heq ▸ hbdir)
        have hqj : q ≠ j := fun heq => hj (heq ▸ hq)
        rw [if_neg hbj, if_neg hqj] at h₂
        have := hlinks₂ j
        omega
    · dsimp only at hrun
      rw [if_neg hdir] at hrun
      obtain rfl := Except.ok.inj hrun
      have hcfile : ¬ fs.IsDir c := (isDir_of_node hc).not.mpr (htype ▸ hdir)
      refine h.relinked hsame₂ (h.tree.move hq hold hnew hname hfree
        (iff_of_false Bool.false_ne_true hcfile) hbelow fun d m => ?_) fun j _ => hlinks₂ j
      exact (hentry₂ d m).trans (if_neg fun heq => Bool.false_ne_true heq.2.2).symm

theorem setNode_setNode : (fs.setNode i n).setNode i n' = fs.setNode i n' := by
  unfold setNode
  rw [Finmap.insert_insert]

theorem setNode_comm {j : Nat} (hne : i ≠ j) :
    (fs.setNode i n).setNode j n' = (fs.setNode j n').setNode i n := by
  unfold setNode
  rw [Finmap.insert_insert_of_ne _ hne]

theorem removeChild_comm :
    (n.removeChild old).removeChild new = (n.removeChild new).removeChild old := by
  unfold removeChild
  rw [Finmap.erase_erase]

theorem addChild_removeChild : (n.removeChild name).addChild name c = n.addChild name c := by
  unfold addChild removeChild
  congr 1
  refine Finmap.ext_lookup fun m => ?_
  by_cases hm : m = name
  · subst hm
    rw [Finmap.lookup_insert, Finmap.lookup_insert]
  · rw [Finmap.lookup_insert_of_ne _ hm, Finmap.lookup_insert_of_ne _ hm, Finmap.lookup_erase_ne hm]

/-- What the new name stood for does not matter to the move. -/
theorem moveEntry_removeChild (hq : fs.node q = some n) :
    (fs.setNode q (n.removeChild new)).moveEntry p old q new c = fs.moveEntry p old q new c := by
  have hok : ∀ {α β : Type} (a : α) (f : α → Except TmpfsStop β), (unwrap (some a) >>= f) = f a :=
    fun _ _ => rfl
  unfold moveEntry
  by_cases hpq : p = q
  · subst hpq
    rw [node_setNode, if_pos rfl, hq, hok, hok]
    dsimp only
    rw [setNode_setNode, node_setNode, if_pos rfl, node_setNode, if_pos rfl, hok, hok, setNode_setNode,
      setNode_setNode, removeChild_comm, addChild_removeChild]
  · rw [node_setNode, if_neg hpq]
    cases hp : fs.node p with
    | none => rfl
    | some parent =>
      rw [hok, hok]
      dsimp only
      rw [node_setNode, if_neg (Ne.symm hpq), node_setNode, if_pos rfl, node_setNode,
        if_neg (Ne.symm hpq), hq, hok, hok, setNode_comm (Ne.symm hpq), setNode_setNode,
        addChild_removeChild]

/-- The condition on a renaming of `c` to the name `new` in `q`. -/
structure RenameSafe (fs : TmpfsFilesystem) (q : Nat) (new : String) (c : Nat) : Prop where
  /-- What is replaced is another inode, with no other name and no data. -/
  replaced : ∀ e n, fs.entry q new = some e → fs.node e = some n →
    n.fileType ≠ .directory ∨ n.isEmpty = true →
    e ≠ c ∧ n.data = [] ∧ (n.fileType ≠ .directory → n.nlinks = 1)
  /-- The new place is a directory, and a directory is not moved below itself. -/
  place : (∀ e n, fs.entry q new = some e → fs.node e = some n →
    n.fileType ≠ .directory ∨ n.isEmpty = true) →
    fs.IsDir q ∧ (fs.IsDir c → ¬ Descends (fs.entry · "..") q c)

theorem dropExisting_eq_ok :
    fs.dropExisting q new = .ok fs' ↔ (fs.entry q new = none ∧ fs = fs') ∨
      ∃ e n, fs.entry q new = some e ∧ fs.node e = some n ∧
        (n.fileType ≠ .directory ∨ n.isEmpty = true) ∧ fs.removeNode e = fs' := by
  unfold dropExisting
  rw [show (fs.node q).bind (·.children.lookup new) = fs.entry q new from rfl]
  cases fs.entry q new with
  | none =>
    simp only [pure_eq_ok, true_and, reduceCtorEq, false_and, exists_false, or_false]
  | some e =>
    simp only [okOr_bind_eq_ok, require_bind_eq_ok, pure_eq_ok, Bool.or_eq_true, decide_eq_true_eq,
      reduceCtorEq, false_and, false_or, Option.some.injEq]
    constructor
    · rintro ⟨n, hn, hgone, hfs⟩
      exact ⟨e, n, rfl, hn, hgone, hfs⟩
    · rintro ⟨_, n, rfl, hn, hgone, hfs⟩
      exact ⟨n, hn, hgone, hfs⟩

theorem kept_rename (h : Kept fs)
    (hsafe : ∀ c, Real old → Real new → fs.entry p old = some c → RenameSafe fs q new c)
    (hrun : fs.rename p old q new = .ok fs') : Kept fs' := by
  unfold rename at hrun
  simp only [okOr_bind_eq_ok, require_bind_eq_ok] at hrun
  obtain ⟨hreal, parent, hp, c, hname, hrun⟩ := hrun
  obtain ⟨fs₀, hdrop, hrun⟩ := bind_eq_ok.mp hrun
  rw [Bool.not_or, Bool.and_eq_true, real_iff, real_iff] at hreal
  obtain ⟨hold, hnew⟩ := hreal
  have hentry : fs.entry p old = some c := (entry_of_node hp).trans hname
  have hsafe := hsafe c hold hnew hentry
  rcases dropExisting_eq_ok.mp hdrop with ⟨hnone, rfl⟩ | ⟨e, n, he, hn, hgone, rfl⟩
  · obtain ⟨hq, hbelow⟩ := hsafe.place fun e n he => nomatch hnone.symm.trans he
    exact kept_moveEntry h hq hold hnew hentry hnone hbelow hrun
  · obtain ⟨qn, hqn, hlookup⟩ := Option.bind_eq_some_iff.mp he
    obtain ⟨hec, hdata, hone⟩ := hsafe.replaced e n he hn hgone
    obtain ⟨hq, hbelow⟩ := hsafe.place fun e' n' he' hn' => by
      obtain rfl := Option.some.inj (he.symm.trans he')
      obtain rfl := Option.some.inj (hn.symm.trans hn')
      exact hgone
    -- the name goes with what it stood for, and then the place is free
    let fs₁ := (fs.removeNode e).setNode q (qn.removeChild new)
    have hcases : (n.fileType ≠ .directory ∧ n.nlinks = 1) ∨
        (n.fileType = .directory ∧ n.isEmpty = true) := by
      by_cases hdir : n.fileType = .directory
      · exact .inr ⟨hdir, hgone.resolve_left fun hne => hne hdir⟩
      · exact .inl ⟨hdir, hone hdir⟩
    have hkept : Kept fs₁ := kept_drop h hqn hnew hlookup hn hcases
      (by rw [hdata, List.length_nil, Nat.add_zero]) rfl rfl rfl
    have hholds : ∀ d m x, Real m → fs.entry d m = some x → d ≠ e := by
      rintro d m x hm hx rfl
      rw [entry_of_node hn] at hx
      rcases hcases with ⟨hfile, -⟩ | ⟨-, hempty⟩
      · exact hfile ((isDir_of_node hn).mp (h.tree.entries d m x ((entry_of_node hn).trans hx)).1)
      · exact nomatch (isEmpty_iff.mp hempty m hm).symm.trans hx
    have hqe : q ≠ e := hholds q new e hnew he
    have hqn₁ : (fs.removeNode e).node q = some qn := by rw [node_removeNode, if_neg hqe, hqn]
    have hentry₁ : ∀ d m, fs₁.entry d m =
        if d = q ∧ m = new then none else if d = e then none else fs.entry d m := fun d m =>
      (entry_dropChild hqn₁ rfl d m).trans (if_congr Iff.rfl rfl entry_removeNode)
    have hdir₁ : ∀ d, fs₁.IsDir d ↔ fs.IsDir d ∧ d ≠ e := fun d => by
      rw [show fs₁.IsDir = (fs.removeNode e).IsDir from isDir_setNode_same hqn₁ rfl]
      unfold IsDir
      rw [node_removeNode]
      by_cases hde : d = e
      · rw [if_pos hde]
        exact ⟨fun ⟨_, hx, _⟩ => (nomatch hx), fun hx => absurd hde hx.2⟩
      · rw [if_neg hde, and_iff_left hde]
    rw [← moveEntry_removeChild hqn₁] at hrun
    refine kept_moveEntry hkept ((hdir₁ q).mpr ⟨hq, hqe⟩) hold hnew ?_ ?_ (fun hc hdesc => ?_) hrun
    · rw [hentry₁, if_neg, if_neg (hholds p old c hold hentry), hentry]
      rintro ⟨rfl, rfl⟩
      exact hec (Option.some.inj (he.symm.trans hentry))
    · rw [hentry₁, if_pos ⟨rfl, rfl⟩]
    · -- a chain of parents in what is left is one in what was there
      refine hbelow ((hdir₁ c).mp hc).1 (Relation.ReflTransGen.mono (fun a b hab => ?_) _ _ hdesc)
      have hab := (hentry₁ a "..").symm.trans hab
      rw [if_neg fun heq => hnew.2 heq.2.symm] at hab
      split at hab
      · exact nomatch hab
      · exact hab

end Calls

/-! ## Runs -/

/-- The condition on a call. -/
def Safe (fs : TmpfsFilesystem) : TmpfsOp → Prop
  | .create .. | .mkdir .. | .symlink .. => fs.nextIno + 1 < 2 ^ 64
  | .link _ _ targetIno => ∀ n, fs.node targetIno = some n → n.fileType ≠ .directory →
    n.nlinks + 1 < 2 ^ 32
  | .rmdir parentIno name => ∀ c n, fs.entry parentIno name = some c → fs.node c = some n →
    n.fileType = .directory → n.isEmpty = true → n.data = []
  | .rename oldParent oldName newParent newName => ∀ c, Real oldName → Real newName →
    fs.entry oldParent oldName = some c → RenameSafe fs newParent newName c
  | .unlink .. | .writeFile .. | .truncate .. => True

variable {fs' fs : TmpfsFilesystem} {maxSize : Nat}

/-- The number made by a call is not part of the state. -/
theorem map_snd_eq_ok {α : Type} {x : Except TmpfsStop (α × TmpfsFilesystem)}
    (h : (·.2) <$> x = .ok fs') : ∃ a, x = .ok (a, fs') := by
  cases x with
  | error stop => exact nomatch h
  | ok r =>
    obtain ⟨a, fs₁⟩ := r
    obtain rfl : fs₁ = fs' := Except.ok.inj h
    exact ⟨a, rfl⟩

/-- **Every call keeps the invariant.** -/
theorem kept_call {op : TmpfsOp} (h : Kept fs) (hsafe : fs.Safe op) (hrun : fs.call op = .ok fs') :
    Kept fs' := by
  cases op with
  | create parentIno name fileType mode uid gid =>
    obtain ⟨ino, hrun⟩ := map_snd_eq_ok hrun
    exact kept_create h hsafe hrun
  | mkdir parentIno name mode uid gid =>
    obtain ⟨ino, hrun⟩ := map_snd_eq_ok hrun
    exact kept_create h hsafe hrun
  | symlink parentIno name target uid gid =>
    obtain ⟨ino, hrun⟩ := map_snd_eq_ok hrun
    exact kept_symlink h hsafe hrun
  | link parentIno name targetIno => exact kept_link h hsafe hrun
  | unlink parentIno name => exact kept_unlink h hrun
  | rmdir parentIno name => exact kept_rmdir h hrun hsafe
  | rename oldParent oldName newParent newName => exact kept_rename h hsafe hrun
  | writeFile ino offset data =>
    obtain ⟨count, hrun⟩ := map_snd_eq_ok hrun
    exact kept_writeFile h hrun
  | truncate ino size => exact kept_truncate h hrun

/-- A new filesystem is its root. -/
theorem node_new {i : Nat} :
    (new maxSize).node i =
    if i = 1 then some (((TmpfsInode.new 1 .directory 0o1777 0 0).addChild "." 1).addChild ".." 1)
    else none := by
  unfold new node
  by_cases hi : i = 1
  · rw [if_pos hi, hi]
    exact Finmap.lookup_insert _
  · rw [if_neg hi]
    exact (Finmap.lookup_insert_of_ne _ hi).trans (Finmap.lookup_empty i)

theorem entry_new {d : Nat} {name : String} :
    (new maxSize).entry d name = if d = 1 ∧ isDot name = true then some 1 else none := by
  unfold entry
  rw [node_new]
  by_cases hd : d = 1
  · rw [if_pos hd, Option.bind_some, lookup_addChild, lookup_addChild]
    by_cases hup : name = ".."
    · rw [if_pos hup, if_pos ⟨hd, by rw [hup]; rfl⟩]
    · rw [if_neg hup]
      by_cases hdot : name = "."
      · rw [if_pos hdot, if_pos ⟨hd, by rw [hdot]; rfl⟩]
      · rw [if_neg hdot, if_neg fun h => ?_]
        · exact Finmap.lookup_empty name
        · exact absurd h.2 (by simp [isDot, hdot, hup])
  · rw [if_neg hd, if_neg fun h => hd h.1]
    rfl

theorem kept_new : Kept (new maxSize) := by
  have hdir : ∀ d, (new maxSize).IsDir d ↔ d = 1 := fun d => by
    unfold IsDir
    rw [node_new]
    by_cases hd : d = 1
    · rw [if_pos hd]
      exact iff_of_true ⟨_, rfl, rfl⟩ hd
    · rw [if_neg hd]
      exact iff_of_false (fun ⟨_, hn, _⟩ => (nomatch hn)) hd
  have hroot : (new maxSize).Live 1 := by
    rw [Live, node_new, if_pos rfl]
    rfl
  have hdots : ∀ name, isDot name = true → (new maxSize).entry 1 name = some 1 :=
    fun name hname => by rw [entry_new, if_pos ⟨rfl, hname⟩]
  have hup := hdots ".." rfl
  refine ⟨?_, fun i hi => ?_, fun i n hn hfile => ?_, ?_, Nat.zero_le _⟩
  · refine ⟨(hdir 1).mpr rfl, fun d hd => (hdir d).mp hd ▸ hroot, fun d name c hc => ?_,
      fun d hd => ?_, fun d hd => ?_, hup, fun p name hname => ?_, fun d p hd hne => ?_,
      fun d hd => ?_⟩
    · rw [entry_new] at hc
      split at hc
      · rename_i hd
        obtain rfl := Option.some.inj hc
        exact ⟨(hdir d).mpr hd.1, hroot⟩
      · exact nomatch hc
    · obtain rfl := (hdir d).mp hd
      exact hdots "." rfl
    · obtain rfl := (hdir d).mp hd
      exact ⟨1, hup, hd⟩
    · have hreal := real_iff.mpr hname.1
      have hentry := hname.2
      rw [entry_new, if_neg fun h => by simp [h.2] at hreal] at hentry
      exact nomatch hentry
    · exact absurd ((hdir d).mp hd) hne
    · obtain rfl := (hdir d).mp hd
      exact Relation.ReflTransGen.refl
  · have hi : 2 ≤ i := hi
    rw [node_new, if_neg (by omega)]
  · rw [node_new] at hn
    split at hn
    · obtain rfl := Option.some.inj hn
      exact absurd rfl hfile
    · exact nomatch hn
  · unfold bytes new
    rw [total_insert_new (Finmap.lookup_empty 1)]
    rfl

/-- A run of calls, each of which must succeed. -/
def calls : TmpfsFilesystem → List TmpfsOp → Option TmpfsFilesystem :=
  replay fun fs op => (fs.call op).toOption

theorem toOption_eq_some {x : Except TmpfsStop TmpfsFilesystem} (h : x.toOption = some fs) :
    x = .ok fs := by
  cases x with
  | error stop => exact nomatch h
  | ok a => exact congrArg _ (Option.some.inj h)

/-- **Every state is consistent**: in a run whose calls meet the condition, names, links,
paths and the space counter agree. -/
theorem consistent_of_run {fs : TmpfsFilesystem} (h : tmpfsMachine.Run Safe fs) :
    fs.Consistent := by
  refine Kept.consistent (h.invariant ?_ ?_)
  · rintro _ ⟨maxSize, rfl⟩
    exact kept_new
  · rintro fs op fs' hkept hsafe (hok | ⟨e, -, rfl⟩)
    · exact kept_call hkept hsafe hok
    · exact hkept

/-- A file is made, and renamed to a free name. -/
theorem consistent_of_run_renamed :
    ∃ fs, (new 100).calls [.create 1 "a" .regular 0o644 0 0, .rename 1 "a" 1 "b"] = some fs ∧
      fs.Consistent := by
  have hmade : ((new 100).call (.create 1 "a" .regular 0o644 0 0)).toOption.any (fun fs =>
      fs.entry 1 "a" = some 2 && fs.entry 1 "b" = none &&
      (fs.node 1).any (·.fileType = .directory) && (fs.node 2).any (·.fileType = .regular) &&
      (fs.call (.rename 1 "a" 1 "b")).toOption.isSome) = true := by decide
  obtain ⟨fs₁, hcreate, hfs₁⟩ := (Option.any_eq_true _ _).mp hmade
  simp only [Bool.and_eq_true, decide_eq_true_eq, Option.any_eq_true, Option.isSome_iff_exists] at hfs₁
  obtain ⟨⟨⟨⟨ha, hb⟩, root, hroot, hdir⟩, n, hn, hfile⟩, fs, hrename⟩ := hfs₁
  have hfresh : (new 100).Safe (.create 1 "a" .regular 0o644 0 0) := show 2 + 1 < 2 ^ 64 by decide
  have hrun : tmpfsMachine.Run Safe fs₁ :=
    .snoc (.start ⟨100, rfl⟩) hfresh (.inl (toOption_eq_some hcreate))
  have hsafe : fs₁.Safe (.rename 1 "a" 1 "b") := by
    intro c _ _ hc
    obtain rfl := Option.some.inj (ha.symm.trans hc)
    refine ⟨fun e n he => ?_, fun _ => ⟨⟨root, hroot, hdir⟩, fun hcdir => ?_⟩⟩
    · exact nomatch hb.symm.trans he
    · exact nomatch hfile.symm.trans ((isDir_of_node hn).mp hcdir)
  refine ⟨fs, ?_, consistent_of_run (.snoc hrun hsafe (.inl (toOption_eq_some hrename)))⟩
  unfold calls replay
  rw [hcreate, Option.bind_some]
  unfold replay
  rw [hrename]
  rfl

/-! ## A file renamed to its own name -/

/-- A file is made in the root, and renamed to the name it has. -/
def renamedToItself : List TmpfsOp :=
  [.create 1 "a" .regular 0o644 0 0, .rename 1 "a" 1 "a"]

/-- **The file is gone and its name is not.** -/
theorem rename_to_itself_dangles :
    ¬ ∀ fs, tmpfsMachine.Reachable fs → fs.Consistent := by
  intro hall
  have hrun : ((new 100).calls renamedToItself).any
      (fun fs => fs.entry 1 "a" = some 2 && (fs.node 2).isNone) = true := by decide
  obtain ⟨fs, hcalls, hfs⟩ := (Option.any_eq_true _ _).mp hrun
  have hreach : tmpfsMachine.Reachable fs :=
    Machine.Run.replay (fun _ _ _ hs => ⟨trivial, Or.inl (toOption_eq_some hs)⟩) (.start ⟨100, rfl⟩)
      hcalls
  rw [Bool.and_eq_true, decide_eq_true_eq, Option.isNone_iff_eq_none] at hfs
  have hlive := ((hall fs hreach).entries 1 "a" 2 hfs.1).2
  rw [Live, hfs.2] at hlive
  exact nomatch hlive

end TmpfsFilesystem

end AthenaOS
