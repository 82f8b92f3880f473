import Mathlib

/-!
# Self-delimiting encodings

An encoding that says where it ends: what follows it never changes how it is read. A
string made of such parts, one behind the other, has one reading only.
-/

namespace AthenaOS.Lib

variable {α β γ δ : Type}

/-- Values in `ok` can be told from the start of a string, and the rest of it is the same. -/
def SelfDelimiting (ok : α → Prop) (enc : α → List γ) : Prop :=
  ∀ a b x y, ok a → ok b → enc a ++ x = enc b ++ y → a = b ∧ x = y

namespace SelfDelimiting

variable {ok : α → Prop} {ok' : β → Prop} {enc : α → List γ} {enc' : β → List γ}

/-- An injective encoding of one length. -/
theorem ofLength {n : Nat} (hlen : ∀ a, ok a → (enc a).length = n)
    (hinj : ∀ a b, ok a → ok b → enc a = enc b → a = b) : SelfDelimiting ok enc := by
  intro a b x y ha hb heq
  obtain ⟨henc, hrest⟩ := List.append_inj heq ((hlen a ha).trans (hlen b hb).symm)
  exact ⟨hinj a b ha hb henc, hrest⟩

/-- One value behind another. -/
theorem append (h : SelfDelimiting ok enc) (h' : SelfDelimiting ok' enc') :
    SelfDelimiting (fun p : α × β => ok p.1 ∧ ok' p.2) fun p => enc p.1 ++ enc' p.2 := by
  rintro ⟨a, a'⟩ ⟨b, b'⟩ x y ⟨ha, ha'⟩ ⟨hb, hb'⟩ heq
  rw [List.append_assoc, List.append_assoc] at heq
  obtain ⟨rfl, hrest⟩ := h a b _ _ ha hb heq
  obtain ⟨rfl, rfl⟩ := h' a' b' x y ha' hb' hrest
  exact ⟨rfl, rfl⟩

theorem mono {ok₁ : α → Prop} (h : SelfDelimiting ok enc) (hok : ∀ a, ok₁ a → ok a) :
    SelfDelimiting ok₁ enc := fun a b x y ha hb => h a b x y (hok a ha) (hok b hb)

/-- A string with its length in front. -/
theorem ofPrefix {len : Nat → List γ} {k : Nat}
    (hlen : SelfDelimiting (· < k) len) :
    SelfDelimiting (fun s : List γ => s.length < k) fun s => len s.length ++ s := by
  intro a b x y ha hb heq
  rw [List.append_assoc, List.append_assoc] at heq
  obtain ⟨hcount, hrest⟩ := hlen a.length b.length _ _ ha hb heq
  obtain ⟨rfl, rfl⟩ := List.append_inj hrest hcount
  exact ⟨rfl, rfl⟩

/-- Items up to a mark none of them starts with. -/
theorem terminated (h : SelfDelimiting ok enc) {mark : γ}
    (hmark : ∀ a, ok a → ∃ g gs, enc a = g :: gs ∧ g ≠ mark) :
    SelfDelimiting (fun l : List α => ∀ a ∈ l, ok a) fun l => l.flatMap enc ++ [mark] := by
  intro l
  induction l with
  | nil =>
    rintro (_ | ⟨b, bs⟩) x y - hb heq
    · exact ⟨rfl, (List.cons.inj heq).2⟩
    · obtain ⟨g, gs, hg, hne⟩ := hmark b (hb b List.mem_cons_self)
      simp only [List.flatMap_nil, List.flatMap_cons, hg] at heq
      exact absurd (List.cons.inj heq).1.symm hne
  | cons a as ih =>
    rintro (_ | ⟨b, bs⟩) x y ha hb heq
    · obtain ⟨g, gs, hg, hne⟩ := hmark a (ha a List.mem_cons_self)
      simp only [List.flatMap_nil, List.flatMap_cons, hg] at heq
      exact absurd (List.cons.inj heq).1 hne
    · simp only [List.flatMap_cons, List.append_assoc] at heq
      obtain ⟨rfl, hrest⟩ := h a b _ _ (ha a List.mem_cons_self) (hb b List.mem_cons_self) heq
      obtain ⟨rfl, rfl⟩ := ih bs x y (fun c hc => ha c (List.mem_cons_of_mem _ hc))
        (fun c hc => hb c (List.mem_cons_of_mem _ hc)) (by simpa only [List.append_assoc] using hrest)
      exact ⟨rfl, rfl⟩

/-- A whole string of items. -/
theorem flatMap_inj (h : SelfDelimiting ok enc) (hne : ∀ a, ok a → enc a ≠ []) :
    ∀ {l l' : List α}, (∀ a ∈ l, ok a) → (∀ a ∈ l', ok a) → l.flatMap enc = l'.flatMap enc → l = l'
  | [], [], _, _, _ => rfl
  | [], b :: bs, _, hb, heq => by
    rw [List.flatMap_nil, List.flatMap_cons] at heq
    exact absurd (List.append_eq_nil_iff.mp heq.symm).1 (hne b (hb b List.mem_cons_self))
  | a :: as, [], ha, _, heq => by
    rw [List.flatMap_nil, List.flatMap_cons] at heq
    exact absurd (List.append_eq_nil_iff.mp heq).1 (hne a (ha a List.mem_cons_self))
  | a :: as, b :: bs, ha, hb, heq => by
    rw [List.flatMap_cons, List.flatMap_cons] at heq
    obtain ⟨rfl, hrest⟩ := h a b _ _ (ha a List.mem_cons_self) (hb b List.mem_cons_self) heq
    rw [h.flatMap_inj hne (fun c hc => ha c (List.mem_cons_of_mem _ hc))
      (fun c hc => hb c (List.mem_cons_of_mem _ hc)) hrest]

end SelfDelimiting

end AthenaOS.Lib
