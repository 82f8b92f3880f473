import AthenaOS.Dns.SignedData

/-!
# Names and zones

Trailing dots, empty labels and the case of letters do not matter to a name; what matters
are its labels.
-/

namespace AthenaOS

namespace Dnssec

/-! ## Labels -/

theorem lowercase_eq_dot (b : UInt8) : lowercase b = dot ↔ b = dot := by
  have hall : ∀ v : BitVec 8, lowercase ⟨v⟩ = dot ↔ (⟨v⟩ : UInt8) = dot := by decide
  exact hall b.toBitVec

theorem lowercase_lowercase (b : UInt8) : lowercase (lowercase b) = lowercase b := by
  have hall : ∀ v : BitVec 8, lowercase (lowercase ⟨v⟩) = lowercase ⟨v⟩ := by decide
  exact hall b.toBitVec

/-- Dots at the end give empty labels. -/
theorem splitLabels_trimEnd (name : DnsName) : splitLabels (trimEnd name) = splitLabels name := by
  unfold trimEnd
  induction name using List.reverseRecOn with
  | nil => rw [List.rdropWhile_nil]
  | append_singleton name b ih =>
    rw [List.rdropWhile_concat]
    split
    · rename_i hb
      rw [beq_iff_eq] at hb
      rw [ih, hb]
      unfold splitLabels
      rw [List.splitOn_append_cons_self, List.filter_append]
      simp
    · rfl

theorem splitLabels_append_dot (a b : DnsName) :
    splitLabels (a ++ dot :: b) = splitLabels a ++ splitLabels b := by
  unfold splitLabels
  rw [List.splitOn_append_cons_self, List.filter_append]

theorem splitOn_map_lowercase (name : DnsName) :
    (name.map lowercase).splitOn dot = (name.splitOn dot).map (·.map lowercase) := by
  induction name with
  | nil => rfl
  | cons b name ih =>
    rw [List.map_cons, List.splitOn_cons_eq_if_modifyHead, List.splitOn_cons_eq_if_modifyHead, ih]
    simp only [beq_iff_eq, lowercase_eq_dot]
    split
    · rfl
    · cases hparts : name.splitOn dot with
      | nil => exact absurd hparts (List.splitOn_ne_nil dot name)
      | cons part parts => rfl

theorem splitLabels_map_lowercase (name : DnsName) :
    splitLabels (name.map lowercase) = (splitLabels name).map (·.map lowercase) := by
  unfold splitLabels
  rw [splitOn_map_lowercase, List.filter_map]
  congr 1
  refine List.filter_congr fun part _ => ?_
  simp

theorem nameLabels_eq (name : DnsName) : nameLabels name = (splitLabels name).map (·.map lowercase) := by
  rw [nameLabels, splitLabels_trimEnd]

/-- **Made canonical, a name has the same labels.** -/
theorem nameLabels_lower (name : DnsName) : nameLabels ((trimEnd name).map lowercase) = nameLabels name := by
  rw [nameLabels_eq, splitLabels_map_lowercase, splitLabels_trimEnd, List.map_map, nameLabels_eq]
  refine List.map_congr_left fun label _ => ?_
  rw [Function.comp_apply, List.map_map]
  exact List.map_congr_left fun b _ => lowercase_lowercase b

/-- A name that ends in another one is below it. -/
theorem nameLabels_suffix {name zone : DnsName} (h : (dot :: zone) <:+ name) :
    nameLabels zone <:+ nameLabels name := by
  obtain ⟨pre, rfl⟩ := h
  rw [nameLabels_eq, nameLabels_eq, splitLabels_append_dot, List.map_append]
  exact List.suffix_append _ _

theorem not_mem_of_mem_splitOn {name : DnsName} {part : List UInt8} (h : part ∈ name.splitOn dot) :
    dot ∉ part := by
  induction name generalizing part with
  | nil =>
    obtain rfl := List.mem_singleton.mp h
    exact List.not_mem_nil
  | cons b name ih =>
    rw [List.splitOn_cons_eq_if_modifyHead] at h
    split at h
    · rcases List.mem_cons.mp h with rfl | h
      · exact List.not_mem_nil
      · exact ih h
    · rename_i hb
      cases hparts : name.splitOn dot with
      | nil => exact absurd hparts (List.splitOn_ne_nil dot name)
      | cons p ps =>
        rw [hparts, List.modifyHead_cons] at h
        rcases List.mem_cons.mp h with rfl | h
        · rintro (_ | ⟨_, hmem⟩)
          · exact hb (beq_self_eq_true dot)
          · exact ih (hparts ▸ List.mem_cons_self) hmem
        · exact ih (hparts ▸ List.mem_cons_of_mem _ h)

/-! ## Joined labels -/

/-- Lower-case labels that can be joined. -/
def Plain (labels : List (List UInt8)) : Prop :=
  ∀ l ∈ labels, l ≠ [] ∧ dot ∉ l ∧ l.map lowercase = l

/-- `join(".")`. -/
def joined (labels : List (List UInt8)) : DnsName := [dot].intercalate labels

variable {labels : List (List UInt8)}

theorem splitLabels_joined (h : ∀ l ∈ labels, l ≠ [] ∧ dot ∉ l) :
    splitLabels (joined labels) = labels := by
  cases labels with
  | nil => rfl
  | cons l ls =>
    unfold splitLabels joined
    rw [List.splitOn_intercalate dot (fun l hl => (h l hl).2) (List.cons_ne_nil l ls)]
    exact List.filter_eq_self.mpr fun l hl => decide_eq_true (h l hl).1

theorem nameLabels_joined (h : Plain labels) : nameLabels (joined labels) = labels := by
  rw [nameLabels_eq, splitLabels_joined fun l hl => ⟨(h l hl).1, (h l hl).2.1⟩]
  calc labels.map (·.map lowercase) = labels.map id := List.map_congr_left fun l hl => (h l hl).2.2
    _ = labels := List.map_id labels

theorem plain_splitLabels (name : DnsName) : Plain (splitLabels (name.map lowercase)) := by
  intro l hl
  obtain ⟨hpart, hne⟩ := List.mem_filter.mp hl
  refine ⟨by simpa using hne, not_mem_of_mem_splitOn hpart, ?_⟩
  rw [splitLabels_map_lowercase] at hl
  obtain ⟨l', -, rfl⟩ := List.mem_map.mp hl
  rw [List.map_map]
  exact List.map_congr_left fun b _ => lowercase_lowercase b

/-! ## Zones -/

/-- Zones from the root to a name, each one label longer than the one before. -/
structure ZonePath (zones : List DnsName) (name : DnsName) : Prop where
  root : zones.head? = some []
  step : zones.IsChain fun parent child => ∃ label, nameLabels child = label :: nameLabels parent
  last : ∃ zone, zones.getLast? = some zone ∧ nameLabels zone = nameLabels name

/-- The zones of a list of labels, by recursion on the labels. -/
def zonesOf : List (List UInt8) → List DnsName
  | [] => [[]]
  | l :: ls => zonesOf ls ++ [joined (l :: ls)]

theorem zonesOf_eq (labels : List (List UInt8)) : zonesOf labels =
    [] :: (List.range labels.length).reverse.map fun i => joined (labels.drop i) := by
  induction labels with
  | nil => rfl
  | cons l ls ih =>
    rw [zonesOf, ih, List.length_cons, List.range_succ_eq_map, List.reverse_cons, List.map_append,
      List.map_singleton, List.drop_zero, List.cons_append, ← List.map_reverse, List.map_map]
    rfl

theorem getLast?_zonesOf (labels : List (List UInt8)) :
    (zonesOf labels).getLast? = some (joined labels) := by
  cases labels with
  | nil => rfl
  | cons l ls => rw [zonesOf, List.getLast?_concat]

theorem head?_zonesOf (labels : List (List UInt8)) : (zonesOf labels).head? = some [] := by
  rw [zonesOf_eq]
  rfl

theorem isChain_zonesOf (h : Plain labels) :
    (zonesOf labels).IsChain fun parent child => ∃ label, nameLabels child = label ::
      nameLabels parent := by
  induction labels with
  | nil => exact .singleton _
  | cons l ls ih =>
    have hls : Plain ls := fun a ha => h a (List.mem_cons_of_mem _ ha)
    rw [zonesOf, List.isChain_append]
    refine ⟨ih hls, .singleton _, fun parent hparent child hchild => ?_⟩
    rw [getLast?_zonesOf, Option.mem_some_iff] at hparent
    rw [List.head?_cons, Option.mem_some_iff] at hchild
    subst hparent hchild
    exact ⟨l, by rw [nameLabels_joined h, nameLabels_joined hls]⟩

/-- **The chain of zones leads from the root to the name.** -/
theorem zonePath_zoneChain (name : DnsName) : ZonePath (zoneChain name) name := by
  let labels := splitLabels ((trimEnd name).map lowercase)
  have hchain : zoneChain name = zonesOf labels := by
    unfold zoneChain
    rw [zonesOf_eq]
    dsimp only
    split
    · rename_i hnil
      rw [show labels = splitLabels [] from congrArg splitLabels hnil]
      rfl
    · rfl
  have hplain : Plain labels := plain_splitLabels _
  rw [hchain]
  refine ⟨head?_zonesOf labels, isChain_zonesOf hplain, joined labels, getLast?_zonesOf labels, ?_⟩
  rw [nameLabels_joined hplain, nameLabels_eq, ← splitLabels_trimEnd, ← splitLabels_map_lowercase]

end Dnssec

end AthenaOS
