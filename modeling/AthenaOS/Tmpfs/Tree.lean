import AthenaOS.Lib.NamedTree

/-!
# Directory trees

What the entries of a filesystem say, apart from where they are stored: which numbers
are in use, which of them are directories, and what each directory calls by which name.
-/

namespace AthenaOS

open Lib.Forest

/-- A name other than `.` and `..`. -/
def Real (name : String) : Prop := name ≠ "." ∧ name ≠ ".."

/-- The edges of the tree. -/
def RealEntry (entry : Nat → String → Option Nat) (d : Nat) (name : String) (c : Nat) : Prop :=
  Real name ∧ entry d name = some c

/-- The directories in use form a tree under inode 1. -/
structure DirTree (live dir : Nat → Prop) (entry : Nat → String → Option Nat) : Prop where
  root : dir 1
  dirLive : ∀ d, dir d → live d
  entries : ∀ d name c, entry d name = some c → dir d ∧ live c
  dot : ∀ d, dir d → entry d "." = some d
  up : ∀ d, dir d → ∃ p, entry d ".." = some p ∧ dir p
  rootUp : entry 1 ".." = some 1
  rootUnnamed : ∀ p name, ¬ RealEntry entry p name 1
  /-- A directory has one name, in the directory `..` leads to. -/
  named : ∀ d p, dir d → d ≠ 1 → entry d ".." = some p → ∃ name, RealEntry entry p name d ∧
    ∀ q name', RealEntry entry q name' d → q = p ∧ name' = name
  climbs : ∀ d, dir d → Descends (entry · "..") d 1

namespace DirTree

variable {live live' dir dir' : Nat → Prop} {entry entry' : Nat → String → Option Nat}
variable {p q c : Nat} {name old new : String}

/-- The directory `..` leads to names the directory. -/
theorem up_of_named (h : DirTree live dir entry) (hc : dir c) (hnamed : RealEntry entry p name c) :
    entry c ".." = some p := by
  have hne : c ≠ 1 := by
    rintro rfl
    exact h.rootUnnamed p name hnamed
  obtain ⟨b, hb, -⟩ := h.up c hc
  obtain ⟨_, -, honly⟩ := h.named c b hc hne hb
  rw [hb, ← (honly p name hnamed).1]

/-- **Exactly one path to each directory.** -/
theorem existsUnique_path (h : DirTree live dir entry) (hc : dir c) :
    ∃! path, Walk (RealEntry entry) 1 path c := by
  refine existsUnique_walk h.rootUnnamed (fun a b hab hne => ?_) (h.climbs c hc)
  exact h.named a b (h.entries a ".." b hab).1 hne hab

/-- A directory that nobody but itself calls its parent is at most a leaf. -/
theorem up_ne_of_empty (h : DirTree live dir entry) (hne : c ≠ 1)
    (hempty : ∀ name, Real name → entry c name = none) : ∀ a, entry a ".." ≠ some c := by
  intro a ha
  by_cases ha1 : a = 1
  · subst ha1
    exact hne (Option.some.inj (ha.symm.trans h.rootUp))
  · obtain ⟨name, ⟨hreal, hnamed⟩, -⟩ := h.named a c (h.entries a ".." c ha).1 ha1 ha
    rw [hempty name hreal] at hnamed
    exact nomatch hnamed

/-! ## Changes of files -/

theorem not_real_dot : ¬ Real "." := fun h => h.1 rfl

theorem not_real_up : ¬ Real ".." := fun h => h.2 rfl

/-- A change at a real name leaves the other two entries. -/
theorem not_at_real {d m} (hreal : Real name) (hm : ¬ Real m) : ¬ (d = p ∧ m = name) := by
  rintro ⟨-, rfl⟩
  exact hm hreal

/-- A change that leaves the directories, their names and their own two entries. -/
theorem of_names (h : DirTree live dir entry) (hlive : ∀ d, dir d → live' d)
    (hentries : ∀ d m x, entry' d m = some x → dir d ∧ live' x)
    (hdots : ∀ d m, ¬ Real m → entry' d m = entry d m)
    (hnames : ∀ a m d, dir d → (entry' a m = some d ↔ entry a m = some d)) :
    DirTree live' dir entry' := by
  have hreal : ∀ a m d, dir d → (RealEntry entry' a m d ↔ RealEntry entry a m d) :=
    fun a m d hd => and_congr_right fun _ => hnames a m d hd
  refine ⟨h.root, hlive, hentries, fun d hd => ?_, fun d hd => ?_, ?_, fun a m => ?_,
    fun d a hd hne ha => ?_, fun d hd => ?_⟩
  · rw [hdots d _ not_real_dot, h.dot d hd]
  · rw [hdots d _ not_real_up]
    exact h.up d hd
  · rw [hdots 1 _ not_real_up, h.rootUp]
  · rw [hreal a m 1 h.root]
    exact h.rootUnnamed a m
  · rw [hdots d _ not_real_up] at ha
    obtain ⟨m, hm, honly⟩ := h.named d a hd hne ha
    exact ⟨m, (hreal a m d hd).mpr hm, fun q m' hq => honly q m' ((hreal q m' d hd).mp hq)⟩
  · rw [show (fun a => entry' a "..") = (fun a => entry a "..") from
      funext fun a => hdots a _ not_real_up]
    exact h.climbs d hd

/-- A name for something that is not a directory. -/
theorem addFile (h : DirTree live dir entry) (hp : dir p) (hreal : Real name)
    (hfree : entry p name = none) (hc : ¬ dir c) (hlive : ∀ a, live a → live' a) (hc' : live' c)
    (hentry : ∀ d m, entry' d m = if d = p ∧ m = name then some c else entry d m) :
    DirTree live' dir entry' := by
  refine h.of_names (fun d hd => hlive d (h.dirLive d hd)) (fun d m x hx => ?_) (fun d m hm => ?_)
    fun a m d hd => ?_
  · rw [hentry] at hx
    split at hx
    · rename_i hnew
      obtain rfl := Option.some.inj hx
      exact ⟨hnew.1 ▸ hp, hc'⟩
    · exact ⟨(h.entries d m x hx).1, hlive x (h.entries d m x hx).2⟩
  · rw [hentry, if_neg (not_at_real hreal hm)]
  · rw [hentry]
    by_cases hnew : a = p ∧ m = name
    · -- the new name is not the name of a directory
      rw [if_pos hnew, hnew.1, hnew.2, hfree, Option.some.injEq]
      constructor
      · rintro rfl
        exact absurd hd hc
      · exact fun hn => nomatch hn
    · rw [if_neg hnew]

/-- A name of something that is not a directory taken away; it may be gone itself when
this was its last name. -/
theorem dropFile (h : DirTree live dir entry) (hreal : Real name) (hc : entry p name = some c)
    (hfile : ¬ dir c) (hlive : ∀ a, live a → a ≠ c → live' a)
    (hlast : ¬ live' c → ∀ d m, entry d m = some c → d = p ∧ m = name)
    (hentry : ∀ d m, entry' d m = if d = p ∧ m = name then none else entry d m) :
    DirTree live' dir entry' := by
  have hne : ∀ d, dir d → d ≠ c := by
    rintro d hd rfl
    exact hfile hd
  refine h.of_names (fun d hd => hlive d (h.dirLive d hd) (hne d hd)) (fun d m x hx => ?_)
    (fun d m hm => ?_) fun a m d hd => ?_
  · rw [hentry] at hx
    split at hx
    · exact nomatch hx
    · rename_i hother
      refine ⟨(h.entries d m x hx).1, ?_⟩
      by_cases hxc : x = c
      · subst hxc
        by_contra hgone
        exact hother (hlast hgone d m hx)
      · exact hlive x (h.entries d m x hx).2 hxc
  · rw [hentry, if_neg (not_at_real hreal hm)]
  · rw [hentry]
    by_cases hold : a = p ∧ m = name
    · rw [if_pos hold, hold.1, hold.2, hc, Option.some.injEq]
      constructor
      · exact fun hn => nomatch hn
      · rintro rfl
        exact absurd hd hfile
    · rw [if_neg hold]

/-! ## Changes of directories -/

/-- A new directory: the only name it has is the one in its parent. -/
theorem addDir (h : DirTree live dir entry) (hp : dir p) (hreal : Real name)
    (hfree : entry p name = none) (hc : ¬ live c) (hlive : ∀ a, live' a ↔ live a ∨ a = c)
    (hdir : ∀ a, dir' a ↔ dir a ∨ a = c)
    (hentry : ∀ d m, entry' d m =
      if d = c then if m = "." then some c else if m = ".." then some p else none
      else if d = p ∧ m = name then some c else entry d m) :
    DirTree live' dir' entry' := by
  have hne : ∀ d, dir d → d ≠ c := by
    rintro d hd rfl
    exact hc (h.dirLive d hd)
  have hold : ∀ d, d ≠ c → ∀ m, ¬ Real m → entry' d m = entry d m := fun d hd m hm => by
    rw [hentry, if_neg hd, if_neg (not_at_real hreal hm)]
  have hunnamed : ∀ d m, entry d m ≠ some c := fun d m hx => hc (h.entries d m c hx).2
  have hself : entry' c "." = some c := by rw [hentry, if_pos rfl, if_pos rfl]
  have hup : entry' c ".." = some p := by
    rw [hentry, if_pos rfl, if_neg (by decide), if_pos rfl]
  -- the real entries are the old ones and the new one
  have hnames : ∀ a m d, RealEntry entry' a m d ↔
      RealEntry entry a m d ∨ (a = p ∧ m = name ∧ d = c) := by
    intro a m d
    unfold RealEntry
    rw [hentry]
    by_cases hac : a = c
    · subst hac
      have hnone : entry a m = none := by
        by_contra hsome
        obtain ⟨x, hx⟩ := Option.ne_none_iff_exists'.mp hsome
        exact hc (h.dirLive a (h.entries a m x hx).1)
      rw [if_pos rfl, hnone]
      constructor
      · rintro ⟨hm, hx⟩
        rw [if_neg hm.1, if_neg hm.2] at hx
        exact nomatch hx
      · rintro (⟨-, hx⟩ | ⟨rfl, -, -⟩)
        · exact nomatch hx
        · exact absurd rfl (hne a hp)
    · rw [if_neg hac]
      by_cases hnew : a = p ∧ m = name
      · obtain ⟨rfl, rfl⟩ := hnew
        rw [if_pos ⟨rfl, rfl⟩, hfree]
        constructor
        · rintro ⟨-, hx⟩
          exact .inr ⟨rfl, rfl, (Option.some.inj hx).symm⟩
        · rintro (⟨-, hx⟩ | ⟨-, -, rfl⟩)
          · exact nomatch hx
          · exact ⟨hreal, rfl⟩
      · rw [if_neg hnew]
        exact ⟨.inl, fun hx => hx.resolve_right fun hn => hnew ⟨hn.1, hn.2.1⟩⟩
  have hc1 : c ≠ 1 := (hne 1 h.root).symm
  refine ⟨(hdir 1).mpr (.inl h.root), fun d hd => ?_, fun d m x hx => ?_, fun d hd => ?_,
    fun d hd => ?_, ?_, fun a m ha => ?_, fun d a hd hd1 ha => ?_, fun d hd => ?_⟩
  · exact (hlive d).mpr (((hdir d).mp hd).imp_left (h.dirLive d))
  · rw [hentry] at hx
    rw [hdir, hlive]
    split at hx
    · rename_i hdc
      refine ⟨.inr hdc, ?_⟩
      split at hx
      · exact .inr (Option.some.inj hx).symm
      · split at hx
        · obtain rfl := Option.some.inj hx
          exact .inl (h.dirLive p hp)
        · exact nomatch hx
    · split at hx
      · rename_i hnew
        exact ⟨.inl (hnew.1 ▸ hp), .inr (Option.some.inj hx).symm⟩
      · exact (h.entries d m x hx).imp .inl .inl
  · rcases (hdir d).mp hd with hd | rfl
    · rw [hold d (hne d hd) _ not_real_dot, h.dot d hd]
    · exact hself
  · rcases (hdir d).mp hd with hd | rfl
    · rw [hold d (hne d hd) _ not_real_up]
      obtain ⟨b, hb, hbd⟩ := h.up d hd
      exact ⟨b, hb, (hdir b).mpr (.inl hbd)⟩
    · exact ⟨p, hup, (hdir p).mpr (.inl hp)⟩
  · rw [hold 1 hc1.symm _ not_real_up, h.rootUp]
  · rcases (hnames a m 1).mp ha with ha | ⟨-, -, heq⟩
    · exact h.rootUnnamed a m ha
    · exact hc1 heq.symm
  · by_cases hdc : d = c
    · subst hdc
      obtain rfl := Option.some.inj (hup.symm.trans ha)
      refine ⟨name, (hnames _ _ _).mpr (.inr ⟨rfl, rfl, rfl⟩), fun q m' hq => ?_⟩
      rcases (hnames q m' d).mp hq with ⟨-, hq⟩ | ⟨rfl, rfl, -⟩
      · exact absurd hq (hunnamed q m')
      · exact ⟨rfl, rfl⟩
    · have hd := ((hdir d).mp hd).resolve_right hdc
      rw [hold d hdc _ not_real_up] at ha
      obtain ⟨m, hm, honly⟩ := h.named d a hd hd1 ha
      refine ⟨m, (hnames _ _ _).mpr (.inl hm), fun q m' hq => ?_⟩
      rcases (hnames q m' d).mp hq with hq | ⟨-, -, heq⟩
      · exact honly q m' hq
      · exact absurd heq hdc
  · have hchain : ∀ d, dir d → Descends (fun a => entry' a "..") d 1 := fun d hd => by
      refine (h.climbs d hd).relink_leaf (fun a ha => hold a ha _ not_real_up)
        (fun a => hunnamed a "..") (hne d hd)
    rcases (hdir d).mp hd with hd | rfl
    · exact hchain d hd
    · exact Relation.ReflTransGen.head hup (hchain p hp)

/-- An empty directory taken away, and its name with it. -/
theorem dropDir (h : DirTree live dir entry) (hc : dir c) (hname : RealEntry entry p name c)
    (hempty : ∀ m, Real m → entry c m = none) (hlive : ∀ a, live' a ↔ live a ∧ a ≠ c)
    (hdir : ∀ a, dir' a ↔ dir a ∧ a ≠ c)
    (hentry : ∀ d m, entry' d m =
      if d = c then none else if d = p ∧ m = name then none else entry d m) :
    DirTree live' dir' entry' := by
  have hc1 : c ≠ 1 := by
    rintro rfl
    exact h.rootUnnamed p name hname
  have hold : ∀ d, d ≠ c → ∀ m, ¬ Real m → entry' d m = entry d m := fun d hd m hm => by
    rw [hentry, if_neg hd, if_neg (not_at_real hname.1 hm)]
  have hleaf := h.up_ne_of_empty hc1 hempty
  obtain ⟨m₀, -, honly⟩ := h.named c p hc hc1 (h.up_of_named hc hname)
  -- nothing else names it
  have hgone : ∀ d m, entry d m = some c → d = c ∨ (d = p ∧ m = name) := by
    intro d m hx
    by_cases hm : Real m
    · obtain ⟨rfl, rfl⟩ := honly d m ⟨hm, hx⟩
      exact .inr ⟨rfl, (honly _ _ hname).2.symm⟩
    · have hd := (h.entries d m c hx).1
      by_cases hdot : m = "."
      · subst hdot
        exact .inl (Option.some.inj ((h.dot d hd).symm.trans hx))
      · obtain rfl : m = ".." := by
          by_contra hup
          exact hm ⟨hdot, hup⟩
        exact absurd hx (hleaf d)
  have hnames : ∀ a m d, d ≠ c → (RealEntry entry' a m d ↔ RealEntry entry a m d) := by
    intro a m d hd
    refine and_congr_right fun hm => ?_
    rw [hentry]
    by_cases hac : a = c
    · subst hac
      rw [if_pos rfl, hempty m hm]
    · rw [if_neg hac]
      by_cases hp : a = p ∧ m = name
      · rw [if_pos hp, hp.1, hp.2, hname.2, Option.some.injEq]
        exact ⟨fun hn => (nomatch hn), fun heq => absurd heq.symm hd⟩
      · rw [if_neg hp]
  refine ⟨(hdir 1).mpr ⟨h.root, hc1.symm⟩, fun d hd => ?_, fun d m x hx => ?_, fun d hd => ?_,
    fun d hd => ?_, ?_, fun a m => ?_, fun d a hd hd1 ha => ?_, fun d hd => ?_⟩
  · exact (hlive d).mpr (((hdir d).mp hd).imp_left (h.dirLive d))
  · rw [hentry] at hx
    split at hx
    · exact nomatch hx
    · rename_i hdc
      split at hx
      · exact nomatch hx
      · rename_i hother
        rw [hdir, hlive]
        refine ⟨⟨(h.entries d m x hx).1, hdc⟩, (h.entries d m x hx).2, ?_⟩
        rintro rfl
        exact (hgone d m hx).elim hdc hother
  · obtain ⟨hd, hdc⟩ := (hdir d).mp hd
    rw [hold d hdc _ not_real_dot, h.dot d hd]
  · obtain ⟨hd, hdc⟩ := (hdir d).mp hd
    rw [hold d hdc _ not_real_up]
    obtain ⟨b, hb, hbd⟩ := h.up d hd
    refine ⟨b, hb, (hdir b).mpr ⟨hbd, ?_⟩⟩
    rintro rfl
    exact hleaf d hb
  · rw [hold 1 hc1.symm _ not_real_up, h.rootUp]
  · rw [hnames a m 1 hc1.symm]
    exact h.rootUnnamed a m
  · obtain ⟨hd, hdc⟩ := (hdir d).mp hd
    rw [hold d hdc _ not_real_up] at ha
    obtain ⟨m, hm, honly⟩ := h.named d a hd hd1 ha
    exact ⟨m, (hnames a m d hdc).mpr hm, fun q m' hq => honly q m' ((hnames q m' d hdc).mp hq)⟩
  · obtain ⟨hd, hdc⟩ := (hdir d).mp hd
    exact (h.climbs d hd).relink_leaf (fun a ha => hold a ha _ not_real_up) hleaf hdc

/-- **A name moved to a free place**; a directory is not moved below itself, and its
`..` goes with it. -/
theorem move (h : DirTree live dir entry) (hq : dir q) (hold : Real old) (hnew : Real new)
    (hname : entry p old = some c) (hfree : entry q new = none) {isDir : Bool}
    (hdir : isDir = true ↔ dir c) (hbelow : dir c → ¬ Descends (entry · "..") q c)
    (hentry : ∀ d m, entry' d m =
      if d = c ∧ m = ".." ∧ isDir = true then some q else if d = q ∧ m = new then some c
      else if d = p ∧ m = old then none else entry d m) :
    DirTree live dir entry' := by
  have hdot : ∀ d, entry' d "." = entry d "." := fun d => by
    rw [hentry, if_neg fun heq => absurd heq.2.1 (by decide), if_neg fun heq => hnew.1 heq.2.symm,
      if_neg fun heq => hold.1 heq.2.symm]
  have hup : ∀ d, entry' d ".." = if d = c ∧ isDir = true then some q else entry d ".." := fun d => by
    rw [hentry]
    refine if_congr (by simp) rfl ?_
    rw [if_neg fun heq => hnew.2 heq.2.symm, if_neg fun heq => hold.2 heq.2.symm]
  -- the moved thing keeps its number of names, and everything else its names
  have hnames : ∀ a m d, RealEntry entry' a m d ↔
      (a = q ∧ m = new ∧ d = c) ∨ (RealEntry entry a m d ∧ ¬ (a = p ∧ m = old)) := by
    intro a m d
    have hm : Real m → entry' a m = if a = q ∧ m = new then some c
        else if a = p ∧ m = old then none else entry a m := fun hm => by
      rw [hentry, if_neg fun heq => hm.2 heq.2.1]
    constructor
    · rintro ⟨hreal, hx⟩
      rw [hm hreal] at hx
      split at hx
      · rename_i hqn
        exact .inl ⟨hqn.1, hqn.2, (Option.some.inj hx).symm⟩
      · split at hx
        · exact nomatch hx
        · rename_i hpo
          exact .inr ⟨⟨hreal, hx⟩, hpo⟩
    · rintro (⟨rfl, rfl, rfl⟩ | ⟨⟨hreal, hx⟩, hpo⟩)
      · exact ⟨hnew, by rw [hm hnew, if_pos ⟨rfl, rfl⟩]⟩
      · refine ⟨hreal, ?_⟩
        rw [hm hreal, if_neg, if_neg hpo, hx]
        rintro ⟨rfl, rfl⟩
        exact nomatch hx.symm.trans hfree
  have hc1 : c ≠ 1 := by
    rintro rfl
    exact h.rootUnnamed p old ⟨hold, hname⟩
  have hlive : live c := (h.entries p old c hname).2
  refine ⟨h.root, h.dirLive, fun d m x hx => ?_, fun d hd => ?_, fun d hd => ?_, ?_,
    fun a m ha => ?_, fun d a hd hd1 ha => ?_, fun d hd => ?_⟩
  · rw [hentry] at hx
    split at hx
    · rename_i hcup
      obtain rfl := Option.some.inj hx
      exact ⟨hcup.1 ▸ hdir.mp hcup.2.2, h.dirLive q hq⟩
    · split at hx
      · rename_i hqn
        obtain rfl := Option.some.inj hx
        exact ⟨hqn.1 ▸ hq, hlive⟩
      · split at hx
        · exact nomatch hx
        · exact h.entries d m x hx
  · rw [hdot, h.dot d hd]
  · rw [hup]
    split
    · exact ⟨q, rfl, hq⟩
    · exact h.up d hd
  · rw [hup, if_neg fun heq => hc1 heq.1.symm, h.rootUp]
  · rcases (hnames a m 1).mp ha with ⟨-, -, heq⟩ | ⟨ha, -⟩
    · exact hc1 heq.symm
    · exact h.rootUnnamed a m ha
  · rw [hup] at ha
    by_cases hdc : d = c
    · subst hdc
      rw [if_pos ⟨rfl, hdir.mpr hd⟩] at ha
      obtain rfl := Option.some.inj ha
      obtain ⟨m₀, -, honly⟩ := h.named d p hd hd1 (h.up_of_named hd ⟨hold, hname⟩)
      refine ⟨new, (hnames _ _ _).mpr (.inl ⟨rfl, rfl, rfl⟩), fun b m' hb => ?_⟩
      rcases (hnames b m' d).mp hb with ⟨rfl, rfl, -⟩ | ⟨hb, hnot⟩
      · exact ⟨rfl, rfl⟩
      · -- its one old name is the one taken away
        have hb' := honly b m' hb
        have hp' := honly p old ⟨hold, hname⟩
        exact absurd ⟨hb'.1, hb'.2.trans hp'.2.symm⟩ hnot
    · rw [if_neg fun heq => hdc heq.1] at ha
      obtain ⟨m, hm, honly⟩ := h.named d a hd hd1 ha
      refine ⟨m, (hnames _ _ _).mpr (.inr ⟨hm, ?_⟩), fun b m' hb => ?_⟩
      · rintro ⟨rfl, rfl⟩
        exact hdc (Option.some.inj (hm.2.symm.trans hname))
      · rcases (hnames b m' d).mp hb with ⟨-, -, heq⟩ | ⟨hb, -⟩
        · exact absurd heq hdc
        · exact honly b m' hb
  · by_cases hc : dir c
    · refine (h.climbs d hd).move (fun a ha => ?_) ?_ (h.climbs q hq) (hbelow hc)
      · rw [hup, if_neg fun heq => ha heq.1]
      · rw [hup, if_pos ⟨rfl, hdir.mpr hc⟩]
    · rw [show (fun a => entry' a "..") = (fun a => entry a "..") from
        funext fun a => by rw [hup, if_neg fun heq => hc (hdir.mp heq.2)]]
      exact h.climbs d hd

end DirTree

end AthenaOS
