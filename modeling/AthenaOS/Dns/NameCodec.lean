import AthenaOS.Dns.Names
import AthenaOS.Dns.Message

/-!
# Names on the wire and as text (`kernel/src/dns.rs`)

A message spells a name as labels, each behind its length, and may go on elsewhere behind a
compression pointer; as text the labels have dots between them.
-/

namespace AthenaOS

open Lib Dnssec

namespace Dns

/-! ## The code -/

/-- `encode_name`, what it appends. -/
def encodeName (name : DnsName) : List UInt8 :=
  (splitLabels name).flatMap (fun label => UInt8.ofNat label.length :: label) ++ [0]

/-- `data[start..stop]`. -/
def range? (data : List UInt8) (start stop : Nat) : Option (List UInt8) :=
  if start ≤ stop ∧ stop ≤ data.length then some (bytesAt data start (stop - start)) else none

/-- The loop of `decode_name` with its counter. No result means an index or a range out of bounds. -/
def decodeNameLoop? (data : List UInt8) (pos : Nat) (jump : Option Nat) (safety : Nat) (name : DnsName) :
    Option (Option (DnsName × Nat)) :=
  if data.length ≤ pos ∨ 256 < safety then some none
  else do
    let len ← data[pos]?
    let len := len.toNat
    if len = 0 then some (some (name, jump.getD (pos + 1)))
    else if len &&& 0xC0 = 0xC0 then
      if data.length ≤ pos + 1 then some none
      else
        let low ← data[pos + 1]?
        decodeNameLoop? data (((len &&& 0x3F) <<< 8) ||| low.toNat) (some (jump.getD (pos + 2))) (safety + 1) name
    else if data.length < pos + 1 + len then some none
    else
      let label ← range? data (pos + 1) (pos + 1 + len)
      if (Wire.ofUtf8? label).isNone then some none
      else decodeNameLoop? data (pos + 1 + len) jump (safety + 1) ((if name = [] then name else name ++ [dot]) ++ label)
termination_by 257 - safety

/-- `decode_name`, its indices checked. -/
def decodeName? (data : List UInt8) (offset : Nat) : Option (Option (DnsName × Nat)) :=
  decodeNameLoop? data offset none 0 []

variable {data : List UInt8} {i pos : Nat} {labels : List (List UInt8)} {b : UInt8}

theorem getElem?_getD (h : i < data.length) : data[i]? = some (data.getD i 0) := by
  rw [List.getD_eq_getElem?_getD, List.getElem?_eq_getElem h, Option.getD_some]

theorem decodeNameLoop?_eq (data : List UInt8) {steps safety : Nat} (h : steps + safety = 257) (pos : Nat)
    (jump : Option Nat) (name : DnsName) :
    decodeNameLoop? data pos jump safety name = some (decodeNameLoop data steps pos jump name) := by
  induction steps generalizing safety pos jump name with
  | zero =>
    rw [decodeNameLoop?, if_pos (.inr (by omega)), decodeNameLoop]
  | succ steps ih =>
    have hnext : steps + (safety + 1) = 257 := by omega
    rw [decodeNameLoop?, decodeNameLoop]
    by_cases hpos : data.length ≤ pos
    · rw [if_pos (.inl hpos), if_pos hpos]
    have hlen := getElem?_getD (Nat.lt_of_not_le hpos)
    rw [if_neg (by omega), if_neg hpos]
    simp only [hlen, Option.bind_eq_bind, Option.bind_some]
    split
    · rfl
    · split
      · split
        · rfl
        · rename_i hlow
          rw [getElem?_getD (Nat.lt_of_not_le hlow), Option.bind_some]
          exact ih hnext ..
      · split
        · rfl
        · rename_i hrange
          rw [range?, if_pos ⟨Nat.le_add_right _ _, Nat.le_of_not_lt hrange⟩, Nat.add_sub_cancel_left, Option.bind_some]
          split
          · rfl
          · exact ih hnext ..

/-- **No index is out of range.** -/
theorem decodeName?_eq (data : List UInt8) (offset : Nat) : decodeName? data offset = some (decodeName data offset) :=
  decodeNameLoop?_eq data rfl offset none []

/-! ## What a message spells -/

/-- The message spells these labels from `pos` to `next`, in so many length bytes and pointers. A label has at most
`most` bytes: 63 in the standard; 191 where the two reserved kinds of length byte are lengths too, as they are for
`decode_name`. -/
inductive Denotes (data : List UInt8) (most : Nat) : Nat → Nat → Nat → List (List UInt8) → Prop where
  | root {pos : Nat} : data[pos]? = some 0 → Denotes data most 1 pos (pos + 1) []
  | label {rounds pos next : Nat} {l : List UInt8} {labels : List (List UInt8)} :
      l ≠ [] → l.length ≤ most → l.length < 192 → encodeLabel l <+: data.drop pos →
      Denotes data most rounds (pos + 1 + l.length) next labels → Denotes data most (rounds + 1) pos next (l :: labels)
  | pointer {rounds pos next : Nat} {high low : UInt8} {labels : List (List UInt8)} :
      data[pos]? = some high → 192 ≤ high.toNat → data[pos + 1]? = some low →
      Denotes data most rounds ((high.toNat - 192) * 256 + low.toNat) next labels →
      Denotes data most (rounds + 1) pos (pos + 2) labels

namespace Denotes

variable {data : List UInt8} {most most' rounds rounds' pos next next' : Nat} {l : List UInt8}
variable {labels labels' : List (List UInt8)}

/-- The byte before a label. -/
theorem length_byte (h : encodeLabel l <+: data.drop pos) : data[pos]? = some (UInt8.ofNat l.length) := by
  obtain ⟨rest, hrest⟩ := h
  rw [← Nat.add_zero pos, ← List.getElem?_drop, ← hrest]
  rfl

theorem toNat_length (h : l.length < 192) : (UInt8.ofNat l.length).toNat = l.length :=
  UInt8.toNat_ofNat_of_lt' (Nat.lt_trans h (by decide))

theorem same_label {l' rest : List UInt8} (hlen : l.length = l'.length) (h : encodeLabel l <+: rest)
    (h' : encodeLabel l' <+: rest) : l = l' := by
  have hsame : (encodeLabel l).length = (encodeLabel l').length := by
    rw [encodeLabel, encodeLabel, List.length_cons, List.length_cons, hlen]
  have heq := (List.prefix_of_prefix_length_le h h' hsame.le).eq_of_length hsame
  exact (List.cons.inj heq).2

theorem length_pos (h : l ≠ []) : 0 < l.length := List.length_pos_iff.mpr h

/-- The labels fit. -/
theorem fits (h : Denotes data most rounds pos next labels) : ∀ l ∈ labels, l ≠ [] ∧ l.length ≤ most ∧ l.length < 192 := by
  induction h with
  | root _ => exact fun l hl => nomatch hl
  | label hne hmost hlt _ _ ih =>
    intro l hl
    rcases List.mem_cons.mp hl with rfl | hl
    · exact ⟨hne, hmost, hlt⟩
    · exact ih l hl
  | pointer _ _ _ _ ih => exact ih

theorem mono (h : Denotes data most rounds pos next labels) (hfits : ∀ l ∈ labels, l.length ≤ most') :
    Denotes data most' rounds pos next labels := by
  induction h with
  | root hbyte => exact .root hbyte
  | label hne _ hlt hbytes _ ih =>
    exact .label hne (hfits _ List.mem_cons_self) hlt hbytes (ih fun l hl => hfits l (List.mem_cons_of_mem _ hl))
  | pointer hhigh hle hlow _ ih => exact .pointer hhigh hle hlow (ih hfits)

/-- **A message spells one thing at an offset.** -/
theorem unique (h : Denotes data most rounds pos next labels) (h' : Denotes data most' rounds' pos next' labels') :
    rounds = rounds' ∧ next = next' ∧ labels = labels' := by
  induction h generalizing rounds' next' labels' with
  | root hbyte =>
    cases h' with
    | root _ => exact ⟨rfl, rfl, rfl⟩
    | label hne _ hlt hbytes _ =>
      have hzero := congrArg UInt8.toNat (Option.some.inj (hbyte.symm.trans (length_byte hbytes)))
      rw [toNat_length hlt] at hzero
      exact absurd hzero.symm (length_pos hne).ne'
    | pointer hhigh hle _ _ =>
      obtain rfl := Option.some.inj (hbyte.symm.trans hhigh)
      exact absurd hle (by decide)
  | label hne _ hlt hbytes _ ih =>
    have hbyte := length_byte hbytes
    cases h' with
    | root hzero =>
      have hzero := congrArg UInt8.toNat (Option.some.inj (hbyte.symm.trans hzero))
      rw [toNat_length hlt] at hzero
      exact absurd hzero (length_pos hne).ne'
    | label hne' _ hlt' hbytes' hrest' =>
      have hlen := congrArg UInt8.toNat (Option.some.inj (hbyte.symm.trans (length_byte hbytes')))
      rw [toNat_length hlt, toNat_length hlt'] at hlen
      obtain rfl := same_label hlen hbytes hbytes'
      obtain ⟨rfl, rfl, rfl⟩ := ih hrest'
      exact ⟨rfl, rfl, rfl⟩
    | pointer hhigh hle _ _ =>
      obtain rfl := Option.some.inj (hbyte.symm.trans hhigh)
      rw [toNat_length hlt] at hle
      exact absurd hle (by omega)
  | pointer hhigh hle hlow _ ih =>
    cases h' with
    | root hbyte =>
      obtain rfl := Option.some.inj (hhigh.symm.trans hbyte)
      exact absurd hle (by decide)
    | label hne _ hlt hbytes _ =>
      obtain rfl := Option.some.inj (hhigh.symm.trans (length_byte hbytes))
      rw [toNat_length hlt] at hle
      exact absurd hle (by omega)
    | pointer hhigh' _ hlow' hrest' =>
      obtain rfl := Option.some.inj (hhigh.symm.trans hhigh')
      obtain rfl := Option.some.inj (hlow.symm.trans hlow')
      obtain ⟨rfl, -, rfl⟩ := ih hrest'
      exact ⟨rfl, rfl, rfl⟩

/-- **The name ends after it begins**, in the message. -/
theorem next_bounds (h : Denotes data most rounds pos next labels) : pos < next ∧ next ≤ data.length := by
  induction h with
  | root hbyte =>
    obtain ⟨hlt, -⟩ := List.getElem?_eq_some_iff.mp hbyte
    exact ⟨Nat.lt_succ_self _, hlt⟩
  | label _ _ _ _ _ ih => exact ⟨by omega, ih.2⟩
  | pointer _ _ hlow _ _ =>
    obtain ⟨hlt, -⟩ := List.getElem?_eq_some_iff.mp hlow
    exact ⟨by omega, hlt⟩

end Denotes

/-! ## Reading -/

/-- `name.push('.')` unless it is empty, and the label. -/
def appendLabel (name label : DnsName) : DnsName := (if name = [] then name else name ++ [dot]) ++ label

theorem foldl_appendLabel {name : DnsName} (hname : name ≠ []) :
    labels.foldl appendLabel name = joined (name :: labels) := by
  induction labels generalizing name with
  | nil => simp [joined]
  | cons l labels ih =>
    have hne : name ++ [dot] ++ l ≠ [] := by simp [hname]
    rw [List.foldl_cons, appendLabel, if_neg hname, ih hne]
    cases labels with
    | nil => simp [joined, List.intercalate]
    | cons l' labels => simp [joined, List.intercalate]

/-- The loop joins the labels. -/
theorem foldl_appendLabel_nil (h : ∀ l ∈ labels, l ≠ []) :
    labels.foldl appendLabel [] = joined labels := by
  cases labels with
  | nil => rfl
  | cons l labels => exact foldl_appendLabel (h l List.mem_cons_self)

/-- The top two bits. -/
theorem pointer_iff (b : UInt8) : b.toNat &&& 0xC0 = 0xC0 ↔ 192 ≤ b.toNat := by
  have hall : ∀ v : BitVec 8, (⟨v⟩ : UInt8).toNat &&& 0xC0 = 0xC0 ↔ 192 ≤ (⟨v⟩ : UInt8).toNat := by decide
  exact hall b.toBitVec

theorem target_eq (h : 192 ≤ b.toNat) (low : UInt8) :
    ((b.toNat &&& 0x3F) <<< 8) ||| low.toNat = (b.toNat - 192) * 256 + low.toNat := by
  have hall : ∀ v : BitVec 8, 192 ≤ (⟨v⟩ : UInt8).toNat → (⟨v⟩ : UInt8).toNat &&& 0x3F = (⟨v⟩ : UInt8).toNat - 192 := by decide
  rw [hall b.toBitVec h, ← Nat.shiftLeft_add_eq_or_of_lt low.toNat_lt, Nat.shiftLeft_eq]

/-- A label in range. -/
theorem prefix_bytesAt (hpos : data[pos]? = some b) (hrange : pos + 1 + b.toNat ≤ data.length) :
    (bytesAt data (pos + 1) b.toNat).length = b.toNat ∧
      encodeLabel (bytesAt data (pos + 1) b.toNat) <+: data.drop pos := by
  have hlen : (bytesAt data (pos + 1) b.toNat).length = b.toNat := by
    rw [bytesAt, List.length_take, List.length_drop]
    omega
  refine ⟨hlen, ?_⟩
  obtain ⟨hlt, rfl⟩ := List.getElem?_eq_some_iff.mp hpos
  rw [encodeLabel, hlen, UInt8.ofNat_toNat, List.drop_eq_getElem_cons hlt]
  exact (List.prefix_cons_inj _).mpr (List.take_prefix _ _)

theorem getD_of_getElem? (h : data[i]? = some b) : i < data.length ∧ data.getD i 0 = b := by
  obtain ⟨hlt, -⟩ := List.getElem?_eq_some_iff.mp h
  exact ⟨hlt, Option.some.inj ((getElem?_getD hlt).symm.trans h)⟩

theorem bytesAt_of_prefix {l : List UInt8} (h : encodeLabel l <+: data.drop pos) :
    pos + 1 + l.length ≤ data.length ∧ bytesAt data (pos + 1) l.length = l := by
  obtain ⟨rest, hrest⟩ := h
  have hlen := congrArg List.length hrest
  rw [encodeLabel, List.length_append, List.length_cons, List.length_drop] at hlen
  refine ⟨by omega, ?_⟩
  rw [bytesAt, ← List.drop_drop, ← hrest, encodeLabel, List.cons_append, List.drop_one, List.tail_cons, List.take_left']
  rfl

section Reading

variable {data : List UInt8} {most steps rounds pos offset next : Nat} {jump : Option Nat} {name n : DnsName}
variable {labels : List (List UInt8)}

/-- What the loop returns is spelled there. -/
theorem decodeNameLoop_some (h : decodeNameLoop data steps pos jump name = some (n, next)) :
    ∃ rounds stop labels, Denotes data 191 rounds pos stop labels ∧ rounds ≤ steps ∧
      (∀ l ∈ labels, (Wire.ofUtf8? l).isSome = true) ∧ n = labels.foldl appendLabel name ∧ next = jump.getD stop := by
  induction steps generalizing pos jump name with
  | zero => exact nomatch h
  | succ steps ih =>
    rw [decodeNameLoop] at h
    split at h
    · exact nomatch h
    · rename_i hpos
      have hbyte := getElem?_getD (Nat.lt_of_not_le hpos)
      dsimp only at h
      split at h
      · rename_i hzero
        obtain ⟨rfl, rfl⟩ := Prod.mk.inj (Option.some.inj h)
        have hroot : data.getD pos 0 = 0 := UInt8.toNat_inj.mp hzero
        exact ⟨1, pos + 1, [], .root (hroot ▸ hbyte), Nat.le_add_left _ _, fun l hl => (nomatch hl), rfl, rfl⟩
      · rename_i hlen
        split at h
        · rename_i hptr
          split at h
          · exact nomatch h
          · rename_i hlow
            have hhigh := (pointer_iff _).mp hptr
            rw [target_eq hhigh] at h
            obtain ⟨rounds, stop, labels, hdenotes, hrounds, hutf8, hn, hnext⟩ := ih h
            exact ⟨rounds + 1, pos + 2, labels, .pointer hbyte hhigh (getElem?_getD (Nat.lt_of_not_le hlow)) hdenotes,
              Nat.succ_le_succ hrounds, hutf8, hn, hnext⟩
        · rename_i hptr
          split at h
          · exact nomatch h
          · rename_i hrange
            split at h
            · exact nomatch h
            · rename_i hvalid
              rw [Option.isNone_iff_eq_none, ← ne_eq, Option.ne_none_iff_isSome] at hvalid
              obtain ⟨rounds, stop, labels, hdenotes, hrounds, hutf8, hn, hnext⟩ := ih h
              obtain ⟨hl, hprefix⟩ := prefix_bytesAt hbyte (Nat.le_of_not_lt hrange)
              have hlt : (data.getD pos 0).toNat < 192 := Nat.lt_of_not_le fun hle => hptr ((pointer_iff _).mpr hle)
              have hne : bytesAt data (pos + 1) (data.getD pos 0).toNat ≠ [] := List.length_pos_iff.mp (by omega)
              refine ⟨rounds + 1, stop, _ :: labels, .label hne (by omega) (by omega) hprefix (hl.symm ▸ hdenotes),
                Nat.succ_le_succ hrounds, fun l hmem => ?_, hn, hnext⟩
              rcases List.mem_cons.mp hmem with rfl | hmem
              · exact hvalid
              · exact hutf8 l hmem

/-- What is spelled there the loop returns, if it takes no more steps than are left. -/
theorem decodeNameLoop_of_denotes (h : Denotes data 191 rounds pos next labels) (hrounds : rounds ≤ steps)
    (hutf8 : ∀ l ∈ labels, (Wire.ofUtf8? l).isSome = true) :
    decodeNameLoop data steps pos jump name = some (labels.foldl appendLabel name, jump.getD next) := by
  induction h generalizing steps jump name with
  | @root pos hbyte =>
    obtain ⟨steps, rfl⟩ := Nat.exists_eq_add_of_le' hrounds
    obtain ⟨hlt, hget⟩ := getD_of_getElem? hbyte
    rw [decodeNameLoop, if_neg (Nat.not_le_of_lt hlt), hget]
    rfl
  | @label rounds pos next l labels hne hmost hlt hbytes _ ih =>
    obtain ⟨steps, rfl⟩ := Nat.exists_eq_add_of_le' (Nat.le_trans (Nat.le_add_left 1 rounds) hrounds)
    obtain ⟨hpos, hget⟩ := getD_of_getElem? (Denotes.length_byte hbytes)
    obtain ⟨hrange, hlabel⟩ := bytesAt_of_prefix hbytes
    have hlen := congrArg UInt8.toNat hget
    rw [Denotes.toNat_length hlt] at hlen
    have hptr : ¬ (data.getD pos 0).toNat &&& 0xC0 = 0xC0 := fun h => by
      have hle := (pointer_iff _).mp h
      omega
    have hrest := @ih steps jump (appendLabel name l) (by omega) fun l' hl' => hutf8 l' (List.mem_cons_of_mem _ hl')
    rw [decodeNameLoop, if_neg (Nat.not_le_of_lt hpos)]
    dsimp only
    rw [if_neg hptr, hlen, if_neg (Denotes.length_pos hne).ne', if_neg (Nat.not_lt_of_le hrange), hlabel, if_neg]
    · exact hrest
    · rw [Option.isNone_iff_eq_none, ← ne_eq, Option.ne_none_iff_isSome]
      exact hutf8 l List.mem_cons_self
  | @pointer rounds pos next high low labels hhigh hle hlow _ ih =>
    obtain ⟨steps, rfl⟩ := Nat.exists_eq_add_of_le' (Nat.le_trans (Nat.le_add_left 1 rounds) hrounds)
    obtain ⟨hpos, hget⟩ := getD_of_getElem? hhigh
    obtain ⟨hpos', hget'⟩ := getD_of_getElem? hlow
    have hrest := @ih steps (some (jump.getD (pos + 2))) name (by omega) hutf8
    rw [decodeNameLoop, if_neg (Nat.not_le_of_lt hpos), hget, hget']
    dsimp only
    rw [if_neg (by omega), if_pos ((pointer_iff high).mpr hle), if_neg (Nat.not_le_of_lt hpos'), target_eq hle]
    exact hrest

end Reading

/-! ## From the message to text -/

section Message

variable {data : List UInt8} {most offset next : Nat} {n : DnsName}

/-- **What `decode_name` returns**: the labels spelled at the offset, joined, if it takes at most 257 rounds and they are
UTF-8. -/
theorem decodeName_iff : decodeName data offset = some (n, next) ↔
    ∃ rounds labels, Denotes data 191 rounds offset next labels ∧ rounds ≤ 257 ∧
      (∀ l ∈ labels, (Wire.ofUtf8? l).isSome = true) ∧ n = joined labels := by
  constructor
  · intro h
    obtain ⟨rounds, stop, labels, hdenotes, hrounds, hutf8, rfl, rfl⟩ := decodeNameLoop_some h
    exact ⟨rounds, labels, hdenotes, hrounds, hutf8, foldl_appendLabel_nil fun l hl => (hdenotes.fits l hl).1⟩
  · rintro ⟨rounds, labels, hdenotes, hrounds, hutf8, rfl⟩
    rw [decodeName, decodeNameLoop_of_denotes hdenotes hrounds hutf8,
      foldl_appendLabel_nil fun l hl => (hdenotes.fits l hl).1]
    rfl

/-- Reading at an offset finds no index out of range; a name that is read ends behind its start, in the message, and is
encoded as the labels the message spells. -/
def Respells (data : List UInt8) (most offset : Nat) : Prop :=
  ∃ result, decodeName? data offset = some result ∧ ∀ n next, result = some (n, next) →
    offset < next ∧ next ≤ data.length ∧
      ∃ rounds stop labels, Denotes data most rounds offset stop labels ∧ encodeName n = encodeLabels labels

/-- What can be read at the offset has labels of at most `most` bytes, and no dots in them. -/
def Undotted (data : List UInt8) (most offset : Nat) : Prop :=
  ∀ rounds next labels, Denotes data 191 rounds offset next labels → rounds ≤ 257 →
    (∀ l ∈ labels, (Wire.ofUtf8? l).isSome = true) → ∀ l ∈ labels, l.length ≤ most ∧ dot ∉ l

theorem encodeName_eq (name : DnsName) : encodeName name = encodeLabels (splitLabels name) := rfl

variable {name : DnsName}

theorem mem_splitLabels {l : List UInt8} (h : l ∈ splitLabels name) : l ≠ [] ∧ dot ∉ l := by
  obtain ⟨hpart, hne⟩ := List.mem_filter.mp h
  exact ⟨of_decide_eq_true hne, not_mem_of_mem_splitOn hpart⟩

theorem length_le_of_mem_splitOn {part : List UInt8} (h : part ∈ name.splitOn dot) :
    part.length ≤ name.length := by
  induction name generalizing part with
  | nil =>
    obtain rfl := List.mem_singleton.mp h
    exact Nat.le_refl _
  | cons b name ih =>
    rw [List.splitOn_cons_eq_if_modifyHead] at h
    split at h
    · rcases List.mem_cons.mp h with rfl | h
      · exact Nat.zero_le _
      · exact Nat.le_succ_of_le (ih h)
    · cases hparts : name.splitOn dot with
      | nil => exact absurd hparts (List.splitOn_ne_nil dot name)
      | cons p ps =>
        rw [hparts, List.modifyHead_cons] at h
        rcases List.mem_cons.mp h with rfl | h
        · exact Nat.succ_le_succ (ih (hparts ▸ List.mem_cons_self))
        · exact Nat.le_succ_of_le (ih (hparts ▸ List.mem_cons_of_mem _ h))

/-- The labels of joined labels are those of each. -/
theorem splitLabels_joined_flatMap (labels : List (List UInt8)) :
    splitLabels (joined labels) = labels.flatMap splitLabels := by
  induction labels with
  | nil => rfl
  | cons l labels ih =>
    cases labels with
    | nil => simp [joined]
    | cons l' labels =>
      have hcons : joined (l :: l' :: labels) = l ++ dot :: joined (l' :: labels) := by simp [joined, List.intercalate]
      rw [hcons, splitLabels_append_dot, ih, @List.flatMap_cons _ _ l]

theorem length_le_of_mem_joined {labels : List (List UInt8)} (h : ∀ l ∈ labels, l.length ≤ most) :
    ∀ l ∈ splitLabels (joined labels), l.length ≤ most := by
  intro l hl
  rw [splitLabels_joined_flatMap] at hl
  obtain ⟨l', hl', hmem⟩ := List.mem_flatMap.mp hl
  exact Nat.le_trans (length_le_of_mem_splitOn (List.mem_filter.mp hmem).1) (h l' hl')

/-- **When a name that is read is encoded as it was spelled.** -/
theorem respells_iff : Respells data most offset ↔ Undotted data most offset := by
  constructor
  · rintro ⟨result, hresult, hname⟩ rounds next labels hdenotes hrounds hutf8
    have hread := decodeName_iff.mpr ⟨rounds, labels, hdenotes, hrounds, hutf8, rfl⟩
    rw [decodeName?_eq, hread] at hresult
    obtain ⟨-, -, rounds', stop, labels', hdenotes', henc⟩ := hname _ _ (Option.some.inj hresult).symm
    obtain ⟨-, -, rfl⟩ := hdenotes.unique hdenotes'
    -- the encoding tells the labels, and those of a text have no dots
    have hfits : ∀ l ∈ labels, l ≠ [] ∧ l.length < 256 := fun l hl =>
      ⟨(hdenotes.fits l hl).1, Nat.lt_trans (hdenotes.fits l hl).2.2 (by decide)⟩
    have hsplit : splitLabels (joined labels) = labels := by
      refine (encodeLabels_selfDelimiting _ _ [] [] (fun l hl => ⟨(mem_splitLabels hl).1, ?_⟩) hfits ?_).1
      · exact Nat.lt_of_le_of_lt (length_le_of_mem_joined (fun l hl => (hdenotes.fits l hl).2.1) l hl) (by decide)
      · rw [← encodeName_eq, henc]
    exact fun l hl => ⟨(hdenotes'.fits l hl).2.1, (mem_splitLabels (hsplit ▸ hl)).2⟩
  · intro hplain
    refine ⟨decodeName data offset, decodeName?_eq data offset, fun n next hread => ?_⟩
    obtain ⟨rounds, labels, hdenotes, hrounds, hutf8, rfl⟩ := decodeName_iff.mp hread
    have hlabels := hplain rounds next labels hdenotes hrounds hutf8
    refine ⟨hdenotes.next_bounds.1, hdenotes.next_bounds.2, rounds, next, labels, hdenotes.mono fun l hl => (hlabels l hl).1, ?_⟩
    rw [encodeName_eq, splitLabels_joined fun l hl => ⟨(hdenotes.fits l hl).1, (hlabels l hl).2⟩]

end Message

/-! ## From text to a message and back -/

section Text

variable {data : List UInt8} {pos : Nat} {labels : List (List UInt8)}

/-- Labels one after the other are spelled as such. -/
theorem denotes_encodeLabels (hfits : ∀ l ∈ labels, l ≠ [] ∧ l.length ≤ 191) (h : encodeLabels labels <+: data.drop pos) :
    Denotes data 191 (labels.length + 1) pos (pos + (encodeLabels labels).length) labels := by
  induction labels generalizing pos with
  | nil =>
    refine .root ?_
    obtain ⟨rest, hrest⟩ := h
    rw [← Nat.add_zero pos, ← List.getElem?_drop, ← hrest]
    rfl
  | cons l labels ih =>
    obtain ⟨hne, hle⟩ := hfits l List.mem_cons_self
    have hcons : encodeLabels (l :: labels) = encodeLabel l ++ encodeLabels labels := by
      rw [encodeLabels, encodeLabels, List.flatMap_cons, List.append_assoc]
    rw [hcons] at h ⊢
    have hrest : encodeLabels labels <+: data.drop (pos + 1 + l.length) := by
      obtain ⟨rest, hrest⟩ := h
      refine ⟨rest, ?_⟩
      rw [Nat.add_assoc, ← List.drop_drop, ← hrest, List.append_assoc, Nat.add_comm 1, encodeLabel, List.cons_append,
        List.drop_succ_cons, List.drop_left]
    have hlen : pos + (encodeLabel l ++ encodeLabels labels).length = pos + 1 + l.length + (encodeLabels labels).length := by
      rw [List.length_append, encodeLabel, List.length_cons]
      omega
    rw [hlen]
    exact .label hne hle (by omega) ((List.prefix_append _ _).trans h)
      (ih (fun l' hl' => hfits l' (List.mem_cons_of_mem _ hl')) hrest)

variable {s : String}

/-- The labels of a text are texts. -/
theorem isSome_of_mem_splitLabels {l : List UInt8} (h : l ∈ splitLabels (Wire.utf8 s)) :
    (Wire.ofUtf8? l).isSome = true := by
  have hmem := (List.mem_filter.mp h).1
  rw [Wire.utf8_eq_encode, show dot = Wire.ascii '.' from rfl, Wire.splitOn_encode (by decide)] at hmem
  obtain ⟨cs, -, rfl⟩ := List.mem_map.mp hmem
  rw [← Wire.utf8_ofList, Wire.ofUtf8?_utf8]
  rfl

/-- The text comes back from where it is encoded, without its empty labels. -/
def ComesBack (s : String) (pre post : List UInt8) : Prop :=
  ∃ next, decodeName (pre ++ encodeName (Wire.utf8 s) ++ post) pre.length = some (joined (splitLabels (Wire.utf8 s)), next)

/-- Labels that are no pointers, and few enough. -/
def Short (s : String) : Prop :=
  (splitLabels (Wire.utf8 s)).length ≤ 256 ∧ ∀ l ∈ splitLabels (Wire.utf8 s), l.length ≤ 191

theorem denotes_encodeName (pre post : List UInt8)
    (h : ∀ l ∈ splitLabels (Wire.utf8 s), l.length ≤ 191) :
    Denotes (pre ++ encodeName (Wire.utf8 s) ++ post) 191 ((splitLabels (Wire.utf8 s)).length + 1)
      pre.length (pre.length + (encodeName (Wire.utf8 s)).length) (splitLabels (Wire.utf8 s)) := by
  refine denotes_encodeLabels (fun l hl => ⟨(mem_splitLabels hl).1, h l hl⟩) ?_
  rw [List.append_assoc, List.drop_left]
  exact List.prefix_append _ _

/-- **A short text comes back**, and the offset is behind it. -/
theorem decodeName_encodeName (h : Short s) (pre post : List UInt8) :
    decodeName (pre ++ encodeName (Wire.utf8 s) ++ post) pre.length =
      some (joined (splitLabels (Wire.utf8 s)), pre.length + (encodeName (Wire.utf8 s)).length) :=
  decodeName_iff.mpr ⟨_, _, denotes_encodeName pre post h.2, Nat.succ_le_succ h.1,
    fun _ hl => isSome_of_mem_splitLabels hl, rfl⟩

/-- **When a text comes back**, wherever its encoding stands. -/
theorem comesBack_iff (s : String) (pre post : List UInt8) : ComesBack s pre post ↔ Short s := by
  constructor
  · rintro ⟨next, hread⟩
    obtain ⟨rounds, labels, hdenotes, hrounds, -, hjoined⟩ := decodeName_iff.mp hread
    -- no label that is read is longer, so no label of the text is
    have hle : ∀ l ∈ splitLabels (Wire.utf8 s), l.length ≤ 191 := by
      rw [← splitLabels_joined fun l hl => mem_splitLabels hl, hjoined]
      exact length_le_of_mem_joined fun l hl => (hdenotes.fits l hl).2.1
    obtain ⟨rfl, -, -⟩ := hdenotes.unique (denotes_encodeName pre post hle)
    exact ⟨Nat.le_of_succ_le_succ hrounds, hle⟩
  · exact fun h => ⟨_, decodeName_encodeName h pre post⟩

end Text

/-- **Both directions**: where a name that is read is encoded as it was spelled, for every bound on the length of a label,
and where a text comes back. -/
theorem nameCodec_iff (data : List UInt8) (most offset : Nat) (s : String) (pre post : List UInt8) :
    (Respells data most offset ↔ Undotted data most offset) ∧ (ComesBack s pre post ↔ Short s) :=
  ⟨respells_iff, comesBack_iff s pre post⟩

/-- The label `a.b`, which is encoded as the two labels `a` and `b`; and a label of 256 bytes, whose length byte is that
of the root. -/
theorem name_not_kept : ¬ Respells [3, 97, 46, 98, 0] 63 0 ∧
    decodeName (encodeName (Wire.utf8 (String.ofList (List.replicate 256 'a')))) 0 = some ([], 1) ∧
    ¬ ComesBack (String.ofList (List.replicate 256 'a')) [] [] := by
  have hdenotes : Denotes [3, 97, 46, 98, 0] 191 2 0 5 [[97, 46, 98]] :=
    .label (by decide) (by decide) (by decide) (by decide) (.root rfl)
  refine ⟨fun hrespells => ?_, ?_, fun hback => ?_⟩
  · exact absurd (by decide) (respells_iff.mp hrespells _ _ _ hdenotes (by decide) (by decide) _ List.mem_cons_self).2
  · rw [Wire.utf8_ofList]
    decide +kernel
  · have hshort := (comesBack_iff _ _ _).mp hback
    unfold Short at hshort
    rw [Wire.utf8_ofList] at hshort
    exact absurd hshort (by decide +kernel)

/-! ## Queries -/

/-- `DnsHeader::serialize`. -/
def DnsHeader.serialize (h : DnsHeader) : List UInt8 :=
  be16 h.id ++ be16 h.flags ++ be16 h.qdCount ++ be16 h.anCount ++ be16 h.nsCount ++ be16 h.arCount

/-- `build_query`: the query, and the next id. -/
def buildQuery (nextId : UInt16) (name : DnsName) (qtype : DnsQueryType) : List UInt8 × UInt16 :=
  let header : DnsHeader :=
    { id := nextId, flags := 0x0100, qdCount := 1, anCount := 0, nsCount := 0, arCount := 0 }
  (header.serialize ++ encodeName name ++ (be16 qtype.toU16 ++ be16 1), nextId + 1)

theorem u16At_append (pre post : List UInt8) : u16At (pre ++ post) pre.length = u16At post 0 := by
  simp [u16At, List.getElem?_append_right]

/-- **The question of a query** is the name and the type asked for, if the name is short. -/
theorem readQuestion_buildQuery {s : String} (h : Short s) (nextId : UInt16) (qtype : DnsQueryType) :
    readQuestion (buildQuery nextId (Wire.utf8 s) qtype).1 12 =
      some ((joined (splitLabels (Wire.utf8 s)), qtype.toU16), (buildQuery nextId (Wire.utf8 s) qtype).1.length) := by
  obtain ⟨header, htwelve, hquery⟩ : ∃ header : List UInt8, header.length = 12 ∧
      (buildQuery nextId (Wire.utf8 s) qtype).1 = header ++ encodeName (Wire.utf8 s) ++ (be16 qtype.toU16 ++ be16 1) :=
    ⟨_, rfl, rfl⟩
  have hread := decodeName_encodeName h header (be16 qtype.toU16 ++ be16 1)
  rw [← hquery, htwelve] at hread
  have hlen : (buildQuery nextId (Wire.utf8 s) qtype).1.length = 12 + (encodeName (Wire.utf8 s)).length + 4 := by
    rw [hquery, List.length_append, List.length_append, htwelve]
    rfl
  have htype : u16At (buildQuery nextId (Wire.utf8 s) qtype).1 (12 + (encodeName (Wire.utf8 s)).length) = qtype.toU16 := by
    rw [hquery, ← htwelve, ← List.length_append, u16At_append]
    cases qtype <;> rfl
  rw [readQuestion, hread]
  show (if _ < _ then none else some _) = _
  rw [if_neg (by omega), htype, hlen]

theorem readQuestion_buildQuery_host :
    readQuestion (buildQuery 7 (Wire.utf8 "a.b") .a).1 12 = some ((joined [[97], [98]], 1), 21) :=
  readQuestion_buildQuery ⟨by decide, by decide⟩ 7 .a

end Dns

end AthenaOS
