import AthenaOS.Tar.Archive

/-!
# Headers are read back

What `put_octal` wrote is read, as far as the digits go. A long name that is split at its start
loses a slash.
-/

namespace AthenaOS.Tar

open Lib Lib.Wire

theorem bind_ok {α β : Type} {m : Except TarError α} {f : α → Except TarError β} {a : α} (h : m = .ok a) :
    (m >>= f) = f a := by
  rw [h]
  rfl

/-! ## Octal fields -/

theorem length_octalDigits (n val : Nat) : (octalDigits n val).length = n := by
  induction n generalizing val with
  | zero => rfl
  | succ n ih => rw [octalDigits, List.length_append, ih, List.length_singleton]

/-- An octal digit is one of eight bytes. -/
theorem octalDigit_spec : ∀ d < 8, ascii '0' ≤ ascii '0' + UInt8.ofNat d ∧
    ascii '0' + UInt8.ofNat d ≤ ascii '7' ∧ (ascii '0' + UInt8.ofNat d - ascii '0').toNat = d ∧
    (ascii '0' + UInt8.ofNat d) &&& 0x80 = 0 := by decide

/-- The digits are read, on top of what was read before. -/
theorem octalLoop_octalDigits (n val : Nat) (rest : ByteString) {acc : Nat} (seen : Bool)
    (hacc : acc * 8 ^ n + val % 8 ^ n < 2 ^ 64) :
    octalLoop (octalDigits n val ++ rest) seen acc =
      octalLoop rest (seen || decide (0 < n)) (acc * 8 ^ n + val % 8 ^ n) := by
  induction n generalizing val rest with
  | zero => simp [octalDigits, Nat.mod_one]
  | succ n ih =>
    obtain ⟨hlo, hhi, hval, -⟩ := octalDigit_spec (val % 8) (Nat.mod_lt _ (by decide))
    have hmod : val % 8 ^ (n + 1) = val % 8 + 8 * (val / 8 % 8 ^ n) := by
      rw [Nat.pow_succ', Nat.mod_mul]
    have hstep : (acc * 8 ^ n + val / 8 % 8 ^ n) * 8 + val % 8 = acc * 8 ^ (n + 1) + val % 8 ^ (n + 1) := by
      rw [hmod, Nat.pow_succ]
      ring
    rw [octalDigits, List.append_assoc, ih _ _ (by omega), List.singleton_append, octalLoop, if_pos ⟨hlo, hhi⟩, hval,
      hstep, if_pos hacc]
    simp

/-- The first digit does not look like the binary form. -/
theorem octalDigits_succ (n val : Nat) : ∃ b rest, octalDigits (n + 1) val = b :: rest ∧ b &&& 0x80 = 0 := by
  induction n generalizing val with
  | zero => exact ⟨_, [], rfl, (octalDigit_spec (val % 8) (Nat.mod_lt _ (by decide))).2.2.2⟩
  | succ n ih =>
    obtain ⟨b, rest, hdigits, hb⟩ := ih (val / 8)
    refine ⟨b, rest ++ [ascii '0' + UInt8.ofNat (val % 8)], ?_, hb⟩
    rw [octalDigits, hdigits, List.cons_append]

variable {off len n : Nat} {pre base : ByteString} {name : String} {h : Bytes 512}

/-- A field that `put_octal` wrote is read. -/
theorem readOctal_field {block tail : ByteString} {val : Nat} (hlen : off + len ≤ block.length)
    (hn : 0 < n) (hn' : n ≤ 20) {pad : UInt8} (hpad : pad = ascii ' ' ∨ pad = 0)
    (hfield : slice block off len = octalDigits n val ++ pad :: tail) :
    readOctal block off len = .ok (val % 8 ^ n) := by
  obtain ⟨k, rfl⟩ := Nat.exists_eq_add_one_of_ne_zero (Nat.ne_of_gt hn)
  have hbound : 0 * 8 ^ (k + 1) + val % 8 ^ (k + 1) < 2 ^ 64 := by
    have hmod : val % 8 ^ (k + 1) < 8 ^ (k + 1) := Nat.mod_lt _ (Nat.pow_pos (by decide))
    have hpow : 8 ^ (k + 1) ≤ 8 ^ 20 := Nat.pow_le_pow_right (by decide) hn'
    have : 8 ^ 20 < 2 ^ 64 := by decide
    omega
  have hloop := octalLoop_octalDigits (k + 1) val (pad :: tail) false hbound
  have hstop : octalLoop (pad :: tail) true (val % 8 ^ (k + 1)) = .ok (val % 8 ^ (k + 1)) := by
    have hdigit : ¬ (ascii '0' ≤ pad ∧ pad ≤ ascii '7') := by
      rcases hpad with rfl | rfl
      · decide
      · decide
    rw [octalLoop, if_neg hdigit, if_pos hpad, if_pos rfl]
  rw [decide_eq_true hn, Bool.or_true, Nat.zero_mul, Nat.zero_add, hstop] at hloop
  obtain ⟨b, rest, hdigits, hb⟩ := octalDigits_succ k val
  rw [readOctal, require, if_pos (decide_eq_true hlen), hfield]
  rw [hdigits, List.cons_append] at hloop ⊢
  show (if b &&& 0x80 ≠ 0 then _ else _) = _
  rw [if_neg (not_not_intro hb)]
  exact hloop

/-! ## Long names -/

/-- The last index that satisfies `P`. -/
theorem foldl_range_eq_some {P : Nat → Prop} [DecidablePred P] {i : Nat}
    (h : (List.range n).foldl (fun best i => if P i then some i else best) none = some i) :
    P i ∧ ∀ j < n, P j → j ≤ i := by
  induction n with
  | zero => exact nomatch h
  | succ n ih =>
    rw [List.range_succ, List.foldl_append, List.foldl_cons, List.foldl_nil] at h
    split at h
    · next hn =>
      obtain rfl := Option.some.inj h
      exact ⟨hn, fun j hj _ => Nat.le_of_lt_succ hj⟩
    · next hn =>
      obtain ⟨hi, hlast⟩ := ih h
      refine ⟨hi, fun j hj hPj => ?_⟩
      rcases Nat.lt_succ_iff_lt_or_eq.mp hj with hlt | rfl
      · exact hlast j hlt hPj
      · exact absurd hPj hn

/-- A long name is split at the last slash where both parts fit. -/
theorem splitUstarName_eq_ok {nb : ByteString} (h : splitUstarName nb = .ok (pre, base)) :
    IsSplit nb pre.length ∧ (∀ j, IsSplit nb j → j ≤ pre.length) ∧ nb = pre ++ ascii '/' :: base :=
      by
  rw [splitUstarName] at h
  split at h
  · exact nomatch h
  split at h
  · next i hlast =>
    obtain ⟨rfl, rfl⟩ := Prod.mk.inj (Except.ok.inj h)
    obtain ⟨hi, hmax⟩ := foldl_range_eq_some hlast
    obtain ⟨hlt, hslash⟩ := List.getElem?_eq_some_iff.mp hi.1
    have hlen : (nb.take i).length = i := by
      rw [List.length_take]
      omega
    rw [hlen]
    refine ⟨hi, fun j hj => ?_, ?_⟩
    · obtain ⟨hj', -⟩ := List.getElem?_eq_some_iff.mp hj.1
      exact hmax j hj' hj
    · rw [← hslash, ← List.drop_eq_getElem_cons hlt, List.take_append_drop]
  · exact nomatch h

/-- A name that only a slash at its start splits. -/
def LosesSlash (name : String) : Prop :=
  (utf8 name).length = 101 ∧ (utf8 name).head? = some (ascii '/') ∧
    ∀ i < 100, 0 < i → (utf8 name)[i]? ≠ some (ascii '/')

instance (name : String) : Decidable (LosesSlash name) := inferInstanceAs (Decidable (_ ∧ _ ∧ _))

/-- The name that comes back. -/
def storedName (name : String) : String :=
  if LosesSlash name then String.ofList name.toList.tail else name

/-- A name comes back as it was unless it loses its slash. -/
theorem storedName_eq_iff : storedName name = name ↔ ¬ LosesSlash name := by
  rw [storedName]
  split
  · next hloses =>
    refine ⟨fun heq => ?_, fun h => absurd hloses h⟩
    have hlist : name.toList.tail = name.toList := by
      rw [← String.toList_ofList (l := name.toList.tail), heq]
    cases hname : name.toList with
    | nil =>
      have hlen := hloses.1
      rw [utf8_eq_encode, hname] at hlen
      exact nomatch hlen
    | cons c cs =>
      rw [hname] at hlist
      exact absurd (congrArg List.length hlist) (by simp)
  · next h => exact ⟨fun _ => h, fun _ => rfl⟩

/-- A long name is split at its start iff it loses its slash. -/
theorem losesSlash_iff (hlong : 100 < (utf8 name).length)
    (h : splitUstarName (utf8 name) = .ok (pre, base)) : LosesSlash name ↔ pre = [] := by
  obtain ⟨hsplit, hmax, hname⟩ := splitUstarName_eq_ok h
  constructor
  · rintro ⟨hlen, -, hother⟩
    by_contra hne
    have hpos := List.length_pos_iff.mpr hne
    obtain ⟨hslash, -, -, hbase⟩ := hsplit
    exact hother pre.length (by omega) hpos hslash
  · rintro rfl
    obtain ⟨hslash, -, hfit, -⟩ := hsplit
    rw [List.length_nil] at hslash hfit hmax
    refine ⟨by omega, ?_, fun i hi hpos hslash' => ?_⟩
    · rw [hname]
      rfl
    · have hi' : IsSplit (utf8 name) i := ⟨hslash', by omega, by omega, by omega⟩
      have := hmax i hi'
      omega

/-- What `build_header` puts into the name and prefix fields, and how the reader joins it. -/
theorem putName_eq_ok (hput : putName .zero (utf8 name) = .ok h) :
    ∃ pre base : String, (utf8 pre).length ≤ 155 ∧ (utf8 base).length ≤ 100 ∧
      (∀ b, b ∈ utf8 pre ∨ b ∈ utf8 base → b ∈ utf8 name) ∧
      h = copyAt (copyAt .zero 0 (utf8 base)) 345 (utf8 pre) ∧
      (if pre = "" then base else pre ++ "/" ++ base) = storedName name := by
  rw [putName] at hput
  split at hput
  · next hshort =>
    obtain rfl := Except.ok.inj hput
    refine ⟨"", name, by decide, hshort, fun b hb => hb.resolve_left List.not_mem_nil, ?_, ?_⟩
    · funext k
      show _ = Bytes.splice _ _ _ _
      rw [Bytes.splice, if_neg]
      rintro ⟨hlo, hhi⟩
      have hnil : (utf8 "").length = 0 := rfl
      omega
    · rw [if_pos rfl, storedName, if_neg]
      rintro ⟨hlen, -⟩
      omega
  · next hlong =>
    cases hsplit : splitUstarName (utf8 name) with
    | error e =>
      rw [hsplit] at hput
      cases hput
    | ok p =>
      obtain ⟨pre, base⟩ := p
      rw [hsplit] at hput
      obtain rfl := Except.ok.inj hput
      obtain ⟨⟨-, hpre, hbase, -⟩, -, hname⟩ := splitUstarName_eq_ok hsplit
      have hloses := losesSlash_iff (Nat.lt_of_not_le hlong) hsplit
      -- both parts are text, since the slash between them is a character
      obtain ⟨cs₁, cs₂, hcs, rfl, rfl⟩ := encode_eq_append_ascii (by decide) (utf8_eq_encode name ▸ hname)
      rw [hname, List.length_append, List.length_cons] at hbase
      refine ⟨String.ofList cs₁, String.ofList cs₂, ?_, ?_, ?_, ?_, ?_⟩
      · rw [utf8_ofList]
        exact hpre
      · rw [utf8_ofList]
        omega
      · rw [utf8_ofList, utf8_ofList, hname]
        rintro b (hb | hb)
        · exact List.mem_append_left _ hb
        · exact List.mem_append_right _ (List.mem_cons_of_mem _ hb)
      · rw [utf8_ofList, utf8_ofList]
      · rw [storedName]
        split
        · next hnil =>
          have hcs₁ : cs₁ = [] := by
            rw [← String.toList_ofList (l := cs₁), hnil]
            rfl
          rw [if_pos (hloses.mpr (congrArg encode hcs₁)), hcs, hcs₁]
          rfl
        · next hne =>
          rw [if_neg]
          · rw [← String.toList_inj, String.toList_append, String.toList_append, String.toList_ofList,
              String.toList_ofList, String.toList_ofList, hcs, List.append_assoc]
            rfl
          · intro hlost
            rw [encode_eq_nil (hloses.mp hlost)] at hne
            exact hne rfl

/-! ## Fields of an array -/

/-- A part of the array is a part of its bytes. -/
theorem slice_toList (h : Bytes 512) (hlen : off + len ≤ 512) :
    slice h.toList off len = (h.slice off : Bytes len).toList := by
  have hfits : off + len ≤ h.toList.length := by
    rw [Bytes.length_toList]
    exact hlen
  refine List.ext_getElem ?_ fun i h₁ h₂ => ?_
  · rw [length_slice_of_le _ hfits, Bytes.length_toList]
  · rw [Bytes.length_toList] at h₂
    simp only [slice, List.getElem_take, List.getElem_drop, Bytes.toList, List.getElem_ofFn, Bytes.slice]
    rw [Bytes.get_of_lt _ (by omega)]

theorem toList_ofList_of_length {l : ByteString} (h : l.length = n) :
    (Bytes.ofList l : Bytes n).toList = l := by
  have htake := Bytes.take_toList_ofList (n := n) (Nat.le_of_eq h)
  rwa [List.take_of_length_le (by rw [Bytes.length_toList, h])] at htake

/-- A text field. -/
theorem readStr_toList {s : String} (hle : off + len ≤ 512)
    (hfield : (h.slice off : Bytes len) = .ofList (utf8 s)) (hlen : (utf8 s).length ≤ len)
    (hzero : 0 ∉ utf8 s) : readStr h.toList off len = .ok s := by
  have hfits : off + len ≤ h.toList.length := by
    rw [Bytes.length_toList]
    exact hle
  rw [readStr, require, if_pos (decide_eq_true hfits), slice_toList h hle, hfield]
  show fromUtf8 _ = _
  rw [Bytes.takeWhile_toList_ofList hlen hzero, fromUtf8, ofUtf8?_utf8]
  rfl

/-- An octal field. -/
theorem readOctal_toList (val : Nat) (hle : off + len ≤ 512) (hlen : 1 < len) (hlen' : len ≤ 21)
    (hfield : (h.slice off : Bytes len) = .ofList (octalDigits (len - 1) val ++ [0])) :
    readOctal h.toList off len = .ok (val % 8 ^ (len - 1)) := by
  have hfits : off + len ≤ h.toList.length := by
    rw [Bytes.length_toList]
    exact hle
  have hslice : slice h.toList off len = octalDigits (len - 1) val ++ 0 :: [] := by
    rw [slice_toList h hle, hfield, toList_ofList_of_length]
    rw [List.length_append, length_octalDigits, List.length_singleton]
    omega
  exact readOctal_field hfits (by omega) (by omega) (.inr rfl) hslice

/-! ## The checksum -/

theorem sum_toNat_le (l : ByteString) : (l.map UInt8.toNat).sum ≤ 255 * l.length := by
  induction l with
  | nil => exact Nat.le_refl _
  | cons b l ih =>
    have hb := b.toNat_lt
    rw [List.map_cons, List.sum_cons, List.length_cons]
    omega

/-- Blanking undoes the checksum. -/
theorem blanked_splice (h : Bytes 512) (checksum : Bytes 8)
    (hblank : (h.slice 148 : Bytes 8) = fun _ => ascii ' ') :
    blanked (h.splice 148 checksum).toList = h.toList := by
  refine List.ext_getElem (by simp [blanked]) fun i h₁ h₂ => ?_
  rw [Bytes.length_toList] at h₂
  simp only [blanked, List.getElem_mapIdx, Bytes.toList, List.getElem_ofFn]
  split
  · next hi =>
    have hbyte := congrFun hblank ⟨i - 148, by omega⟩
    rw [Bytes.slice, Bytes.get_of_lt _ (by dsimp only; omega)] at hbyte
    simp only [Nat.add_sub_cancel' hi.1] at hbyte
    exact hbyte.symm
  · next hi =>
    rw [Bytes.splice, if_neg]
    exact hi

/-- The checksum of a header is right. -/
theorem checksumOk_writeChecksum (h : Bytes 512) (hblank : (h.slice 148 : Bytes 8) = fun _ => ascii ' ') :
    checksumOk (writeChecksum h (h.toList.map UInt8.toNat).sum).toList = .ok true := by
  have hsum := sum_toNat_le h.toList
  rw [Bytes.length_toList] at hsum
  generalize hs : (h.toList.map UInt8.toNat).sum = sum at hsum ⊢
  have hlen : (writeChecksum h sum).toList.length = blockLen := Bytes.length_toList _
  have hstored : readOctal (writeChecksum h sum).toList 148 8 = .ok sum := by
    have hfield : slice (writeChecksum h sum).toList 148 8 = octalDigits 6 (sum % 2 ^ 18) ++ 0 :: [ascii ' '] := by
      rw [slice_toList _ (by decide), writeChecksum, Bytes.slice_splice_self _ _ (by decide),
        toList_ofList_of_length]
      rw [List.length_append, length_octalDigits]
      rfl
    rw [readOctal_field (by rw [hlen]; decide) (by decide) (by decide) (.inr rfl) hfield]
    refine congrArg _ ?_
    rw [Nat.mod_eq_of_lt (by omega), Nat.mod_eq_of_lt (by omega)]
  have hbytes : blanked ((writeChecksum h sum).toList.take blockLen) = h.toList := by
    rw [List.take_of_length_le (Nat.le_of_eq hlen)]
    exact blanked_splice h _ hblank
  have hfull : require (blockLen ≤ (writeChecksum h sum).toList.length) .truncated = .ok () :=
    if_pos (decide_eq_true (Nat.le_of_eq hlen.symm))
  rw [checksumOk, bind_ok hfull, bind_ok hstored, hbytes]
  dsimp only
  rw [hs, decide_eq_true (.inl rfl)]
  rfl

/-! ## The layout of a header -/

/-- `copy_from_slice` into zeros fills a wider field. -/
theorem copyAt_eq (len : Nat) {bytes : ByteString} (hlen : bytes.length ≤ len)
    (hzero : ∀ k, off + bytes.length ≤ k → k < off + len → h.get k = 0) :
    copyAt h off bytes = h.splice off (.ofList bytes : Bytes len) :=
      Bytes.splice_ofList h hlen hzero

/-- The fields of a header less the checksum, filled up with zeros. -/
def fields (base pre lb : ByteString) (mode uid gid size mtime : Nat) (typeflag : UInt8) : Bytes 512 :=
  let h : Bytes 512 := Bytes.splice .zero 0 (.ofList base : Bytes 100)
  let h := h.splice 345 (.ofList pre : Bytes 155)
  let h := putOctal h 100 8 mode
  let h := putOctal h 108 8 uid
  let h := putOctal h 116 8 gid
  let h := putOctal h 124 12 size
  let h := putOctal h 136 12 mtime
  let h := h.splice 156 (fun _ => typeflag : Bytes 1)
  let h := h.splice 157 (.ofList lb : Bytes 100)
  let h := h.splice 257 (.ofList (utf8 "ustar\x00") : Bytes 6)
  h.splice 263 (.ofList (utf8 "00") : Bytes 2)

/-- Copying the fields one by one. -/
theorem copyAt_fields {lb : ByteString} {mode uid gid size mtime : Nat} {typeflag : UInt8}
    (hbase : base.length ≤ 100) (hpre : pre.length ≤ 155) (hlb : lb.length ≤ 100) :
    copyAt (copyAt
      (copyAt ((putOctal
      (putOctal (putOctal (putOctal (putOctal (copyAt (copyAt .zero 0 base) 345 pre) 100 8 mode) 108
      8 uid) 116 8 gid) 124 12 size) 136 12 mtime).splice 156 (fun _ => typeflag : Bytes 1)) 157 lb)
      257 (utf8 "ustar\x00")) 263 (utf8 "00") =
      fields base pre lb mode uid gid size mtime typeflag := by
  have hzero : ∀ k, (Bytes.zero : Bytes 512).get k = 0 := by
    intro k
    rw [Bytes.get]
    split
    · rfl
    · rfl
  have hmagic : ∀ h, copyAt h 257 (utf8 "ustar\x00") = h.splice 257 (.ofList (utf8 "ustar\x00") : Bytes 6) := by
    intro h
    have hlen : (utf8 "ustar\x00").length = 6 := by decide
    exact copyAt_eq 6 (Nat.le_of_eq hlen) fun k _ _ => by omega
  have hversion : ∀ h, copyAt h 263 (utf8 "00") = h.splice 263 (.ofList (utf8 "00") : Bytes 2) := by
    intro h
    have hlen : (utf8 "00").length = 2 := by decide
    exact copyAt_eq 2 (Nat.le_of_eq hlen) fun k _ _ => by omega
  have hfirst : copyAt .zero 0 base = Bytes.splice .zero 0 (.ofList base : Bytes 100) :=
    copyAt_eq 100 hbase fun k _ _ => hzero k
  rw [hversion, hmagic, hfirst, copyAt_eq 155 hpre, copyAt_eq 100 hlb, fields]
  · intro k hlo hhi
    simp (disch := omega) only [putOctal, Bytes.get_splice_of_ne, hzero]
  · intro k hlo hhi
    rw [Bytes.get_splice_of_ne _ _ (.inr (by omega)), hzero]

/-- A header. -/
def layout (base pre lb : ByteString) (mode uid gid size mtime : Nat) (typeflag : UInt8) (checksum : Bytes 8) :
    Bytes 512 := (fields base pre lb mode uid gid size mtime typeflag).splice 148 checksum

/-- What the reader finds in a header. -/
structure Header (h : Bytes 512) (name link : String) (typeflag : UInt8) (size : Nat) : Prop where
  checksum : checksumOk h.toList = .ok true
  numbers : ∃ mode mtime, readNumbers h.toList = .ok ⟨size, mode, mtime⟩
  name : entryName h.toList .default = .ok name
  link : entryLink h.toList .default = .ok link
  typeflag : h.toList.getD 156 0 = typeflag
  nonzero : isZeroBlock h.toList = false

section Layout

variable {base pre link : String} {mode uid gid size mtime : Nat} {typeflag : UInt8} {checksum : Bytes 8}

/-- The magic of a header. -/
theorem slice_layout_magic (base pre lb : ByteString) :
    slice (layout base pre lb mode uid gid size mtime typeflag checksum).toList 257 6 = utf8 "ustar\x00" := by
  rw [slice_toList _ (by decide)]
  simp (disch := decide) only [layout, fields, putOctal, Bytes.slice_splice_of_disjoint, Bytes.slice_splice_self]
  decide

variable {h : Bytes 512} {name : String} {info : TarMeta}

/-- A block with the magic is not zero. -/
theorem isZeroBlock_of_magic (hmagic : slice h.toList 257 6 = utf8 "ustar\x00") :
    isZeroBlock h.toList = false := by
  have hmem : ascii 'u' ∈ slice h.toList 257 6 := by
    rw [hmagic]
    decide
  have hmem' := List.mem_of_mem_drop (List.mem_of_mem_take hmem)
  have hlen : h.toList.length ≤ blockLen := Nat.le_of_eq (Bytes.length_toList h)
  rw [isZeroBlock, List.take_of_length_le hlen, Bool.and_eq_false_iff]
  right
  rw [List.all_eq_false]
  exact ⟨_, hmem', by decide⟩

theorem toList_getD_of_slice {i : Nat} {b : UInt8} (hi : i < 512)
    (hslice : (h.slice i : Bytes 1) = fun _ => b) : h.toList.getD i 0 = b := by
  have hbyte : h.get i = b := congrFun hslice 0
  have hi' : i < h.toList.length := by
    rw [Bytes.length_toList]
    exact hi
  rw [Bytes.get_of_lt _ hi] at hbyte
  rw [List.getD_eq_getElem _ _ hi']
  simp only [Bytes.toList, List.getElem_ofFn]
  exact hbyte

/-- The numbers of a header are read back as far as their digits go. -/
theorem readNumbers_layout (base pre lb : ByteString) (hsize : size < 8 ^ 11) :
    readNumbers (layout base pre lb mode uid gid size mtime typeflag checksum).toList =
      .ok ⟨size, mode % 8 ^ 7 % 2 ^ 32, mtime % 8 ^ 11⟩ := by
  rw [readNumbers, readOctal_toList size (by decide) (by decide) (by decide),
    readOctal_toList mode (by decide) (by decide) (by decide),
    readOctal_toList mtime (by decide) (by decide) (by decide), Nat.mod_eq_of_lt hsize]
  · rfl
  · simp (disch := decide) only [layout, fields, putOctal, Bytes.slice_splice_of_disjoint, Bytes.slice_splice_self]
  · simp (disch := decide) only [layout, fields, putOctal, Bytes.slice_splice_of_disjoint, Bytes.slice_splice_self]
  · simp (disch := decide) only [layout, fields, putOctal, Bytes.slice_splice_of_disjoint, Bytes.slice_splice_self]

/-- The fields of a header are read back. -/
theorem header_layout (hbase : (utf8 base).length ≤ 100) (hpre : (utf8 pre).length ≤ 155)
    (hlink : (utf8 link).length ≤ 100) (hbase₀ : 0 ∉ utf8 base) (hpre₀ : 0 ∉ utf8 pre) (hlink₀ : 0 ∉ utf8 link)
    (hsize : size < 8 ^ 11)
    (hsum : checksumOk (layout (utf8 base) (utf8 pre) (utf8 link) mode uid gid size mtime typeflag checksum).toList =
      .ok true) :
    Header (layout (utf8 base) (utf8 pre) (utf8 link) mode uid gid size mtime typeflag checksum)
      (if pre = "" then base else pre ++ "/" ++ base) link typeflag size where
  checksum := hsum
  numbers := ⟨_, _, readNumbers_layout _ _ _ hsize⟩
  name := by
    have hreadBase : readStr (layout (utf8 base) (utf8 pre) (utf8 link) mode uid gid size mtime typeflag
        checksum).toList 0 100 = .ok base := by
      refine readStr_toList (by decide) ?_ hbase hbase₀
      simp (disch := decide) only [layout, fields, putOctal, Bytes.slice_splice_of_disjoint, Bytes.slice_splice_self]
    have hreadPre : readStr (layout (utf8 base) (utf8 pre) (utf8 link) mode uid gid size mtime typeflag
        checksum).toList 345 155 = .ok pre := by
      refine readStr_toList (by decide) ?_ hpre hpre₀
      simp (disch := decide) only [layout, fields, putOctal, Bytes.slice_splice_of_disjoint, Bytes.slice_splice_self]
    rw [entryName]
    show (readStr _ 0 100 >>= _) = _
    rw [bind_ok hreadBase, slice_layout_magic, if_pos (by decide), bind_ok hreadPre]
    rfl
  link := by
    refine readStr_toList (by decide) ?_ hlink hlink₀
    simp (disch := decide) only [layout, fields, putOctal, Bytes.slice_splice_of_disjoint, Bytes.slice_splice_self]
  typeflag := by
    refine toList_getD_of_slice (by decide) ?_
    simp (disch := decide) only [layout, fields, putOctal, Bytes.slice_splice_of_disjoint, Bytes.slice_splice_self]
  nonzero := isZeroBlock_of_magic (slice_layout_magic _ _ _)

/-- A header that is built is one of its name's parts. -/
theorem buildHeader_eq_layout (hbuild : buildHeader name typeflag size link info = .ok h) :
    ∃ pre base checksum, (utf8 pre).length ≤ 155 ∧ (utf8 base).length ≤ 100 ∧
      (utf8 link).length ≤ 100 ∧ 0 ∉ utf8 base ∧ 0 ∉ utf8 pre ∧ 0 ∉ utf8 link ∧
      (if pre = "" then base else pre ++ "/" ++ base) = storedName name ∧
      h = layout (utf8 base) (utf8 pre) (utf8 link)
      info.mode.toNat info.uid.toNat info.gid.toNat size info.mtime.toNat typeflag checksum ∧
      checksumOk h.toList = .ok true := by
  rw [buildHeader] at hbuild
  dsimp only at hbuild
  split at hbuild
  · exact nomatch hbuild
  split at hbuild
  · exact nomatch hbuild
  split at hbuild
  · exact nomatch hbuild
  next hname₀ hlink =>
  rw [not_or, Nat.not_lt] at hlink
  obtain ⟨hlink₀, hlink⟩ := hlink
  cases hput : putName .zero (utf8 name) with
  | error e =>
    rw [hput] at hbuild
    exact nomatch hbuild
  | ok h₀ =>
    rw [hput] at hbuild
    obtain rfl := Except.ok.inj hbuild
    obtain ⟨pre, base, hpre, hbase, hmem, rfl, hstored⟩ := putName_eq_ok hput
    rw [copyAt_fields hbase hpre hlink, writeChecksum, Bytes.splice_splice_self]
    refine ⟨pre, base, _, hpre, hbase, hlink, ?_, ?_, hlink₀, hstored, rfl, ?_⟩
    · exact fun h₀ => hname₀ (hmem 0 (.inr h₀))
    · exact fun h₀ => hname₀ (hmem 0 (.inl h₀))
    · have hchecksum := checksumOk_writeChecksum _ (Bytes.slice_splice_self (fields (utf8 base) (utf8 pre)
        (utf8 link) info.mode.toNat info.uid.toNat info.gid.toNat size info.mtime.toNat typeflag)
        (fun _ => ascii ' ' : Bytes 8) (by decide))
      rw [writeChecksum, Bytes.splice_splice_self] at hchecksum
      exact hchecksum

/-- **Every header that is built is read back**, under the name that is stored. -/
theorem buildHeader_eq_ok (hsize : size < 8 ^ 11)
    (hbuild : buildHeader name typeflag size link info = .ok h) :
    Header h (storedName name) link typeflag size := by
  obtain ⟨pre, base, checksum, hpre, hbase, hlink, hbase₀, hpre₀, hlink₀, hstored, rfl, hsum⟩ :=
    buildHeader_eq_layout hbuild
  rw [← hstored]
  exact header_layout hbase hpre hlink hbase₀ hpre₀ hlink₀ hsize hsum

/-- The mode and the time of a header that is built. -/
theorem readNumbers_buildHeader (hsize : size < 8 ^ 11)
    (hbuild : buildHeader name typeflag size link info = .ok h) :
    readNumbers h.toList = .ok ⟨size, info.mode.toNat % 8 ^ 7, info.mtime.toNat % 8 ^ 11⟩ := by
  obtain ⟨pre, base, checksum, -, -, -, -, -, -, -, rfl, -⟩ := buildHeader_eq_layout hbuild
  have hmode : info.mode.toNat % 8 ^ 7 % 2 ^ 32 = info.mode.toNat % 8 ^ 7 :=
    Nat.mod_eq_of_lt (Nat.lt_trans (Nat.mod_lt _ (by decide)) (by decide))
  rw [readNumbers_layout _ _ _ hsize, hmode]

end Layout

/-! ## Reading behind a header -/

theorem checkedAdd_of_lt {a b : Nat} (h : a + b < 2 ^ 64) : checkedAdd a b = some (a + b) := if_pos h

theorem require_of {c : Bool} (h : c = true) (e : TarError) : require c e = .ok () := if_pos h

theorem okOr_some {α : Type} (a : α) (e : TarError) : okOr (some a) e = .ok a := rfl

/-- **One round takes a header and its body**, up to the next block. -/
theorem readRound_header {h : Bytes 512} {data : ByteString} {r r' : Reading} {pos : Nat} {n : Numbers}
    (hblock : slice data pos blockLen = h.toList) (hsum : checksumOk h.toList = .ok true)
    (hzero : isZeroBlock h.toList = false) (hnumbers : readNumbers h.toList = .ok n) (hsize : n.size ≤ maxEntrySize)
    (hinside : pos + blockLen + n.size ≤ data.length)
    (hnext : pos + blockLen + (n.size + 511) / 512 * 512 < 2 ^ 64)
    (hmember : readMember h.toList (slice data (pos + blockLen) n.size) n
      { r with zeroSeen := false, anyValid := true } = .ok r') :
    readRound data r pos = .ok (.inl r', pos + blockLen + (n.size + 511) / 512 * 512) := by
  have hsize' : n.size ≤ 1024 * 1024 * 1024 := hsize
  have hend : checkedAdd (pos + blockLen) n.size = some (pos + blockLen + n.size) := checkedAdd_of_lt (by omega)
  have hround : roundUp n.size = some ((n.size + 511) / 512 * 512) := by
    rw [roundUp, checkedAdd_of_lt (by rw [blockLen]; omega)]
    rfl
  have hread : readHeader data r pos = .ok (r', pos + blockLen + (n.size + 511) / 512 * 512) := by
    rw [readHeader, hblock]
    dsimp only
    rw [bind_ok hsum, bind_ok (require_of rfl _), bind_ok hnumbers, hend, bind_ok (okOr_some _ _),
      bind_ok (require_of (decide_eq_true hsize) _), bind_ok (require_of (decide_eq_true hinside) _), hround,
      bind_ok (okOr_some _ _), checkedAdd_of_lt hnext, bind_ok (okOr_some _ _), bind_ok hmember]
    rfl
  rw [readRound, if_neg (by omega), hblock, if_neg (by rw [hzero]; decide), bind_ok hread]
  rfl

end AthenaOS.Tar
