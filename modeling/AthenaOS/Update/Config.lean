import AthenaOS.Lib.Lines
import AthenaOS.Update.Slots

/-!
# RAESLOT.CFG

The text form of `SlotConfig`: a header line, then one `key=value` line a field.
-/

namespace AthenaOS

open Lib.Text

/-! ## Writing -/

/-- `Slot::letter`. -/
def Slot.letter : Slot → String
  | .A => "A"
  | .B => "B"

/-- A flag `as u8`, formatted. -/
def flagText (b : Bool) : String := if b then "1" else "0"

/-- The header line. -/
def raeslotHeader : String := "RAESLOT v1"

namespace SlotConfig

/-- The keys and values `serialize` writes, in order. -/
def fields (cfg : SlotConfig) : List (String × String) :=
  [("active", cfg.active.letter), ("pending", flagText cfg.pending),
    ("a.version", cfg.slotA.version), ("a.successful", flagText cfg.slotA.successful),
    ("a.boot_count", cfg.slotA.bootCount.toNat.repr),
    ("b.version", cfg.slotB.version), ("b.successful", flagText cfg.slotB.successful),
    ("b.boot_count", cfg.slotB.bootCount.toNat.repr)]

/-- `SlotConfig::serialize`. -/
def serialize (cfg : SlotConfig) : String :=
  .ofList (unlines (raeslotHeader.toList ::
    cfg.fields.map fun field => field.1.toList ++ '=' :: field.2.toList))

/-! ## Reading -/

/-- `"1"` is set, anything else is not. -/
def flagOf (val : String) : Bool := val == "1"

/-- `val.parse::<u8>().ok()?`. -/
def bootCountOf (val : String) : Option UInt8 := (parseUnsigned 8 val.toList).map UInt8.ofNat

/-- The `match key` of `parse`: the configuration with the field set, and the keys
seen. -/
def assign (cfg : SlotConfig) (seen : Nat) (key val : String) : Option (SlotConfig × Nat) :=
  match key with
  | "active" =>
    match val with
    | "A" => some ({ cfg with active := .A }, seen ||| 1)
    | "B" => some ({ cfg with active := .B }, seen ||| 1)
    | _ => none
  | "pending" => some ({ cfg with pending := flagOf val }, seen ||| 2)
  | "a.version" => some ({ cfg with slotA := { cfg.slotA with version := val } }, seen ||| 4)
  | "a.successful" =>
    some ({ cfg with slotA := { cfg.slotA with successful := flagOf val } }, seen ||| 8)
  | "a.boot_count" => do
    let n ← bootCountOf val
    some ({ cfg with slotA := { cfg.slotA with bootCount := n } }, seen ||| 16)
  | "b.version" => some ({ cfg with slotB := { cfg.slotB with version := val } }, seen ||| 32)
  | "b.successful" =>
    some ({ cfg with slotB := { cfg.slotB with successful := flagOf val } }, seen ||| 64)
  | "b.boot_count" => do
    let n ← bootCountOf val
    some ({ cfg with slotB := { cfg.slotB with bootCount := n } }, seen ||| 128)
  | _ => some (cfg, seen)

/-- The loop of `parse` over the lines after the header. -/
def parseLines (cfg : SlotConfig) (seen : Nat) : List (List Char) → Option (SlotConfig × Nat)
  | [] => some (cfg, seen)
  | line :: rest =>
    let line := trim line
    if line.isEmpty then parseLines cfg seen rest
    else do
      let (key, val) ← splitOnce '=' line
      let (cfg, seen) ← assign cfg seen (.ofList key) (.ofList val)
      parseLines cfg seen rest

/-- `SlotConfig::parse`. -/
def parse (text : String) : Option SlotConfig :=
  match lines text.toList with
  | [] => none
  | header :: rest =>
    if trim header ≠ raeslotHeader.toList then none
    else do
      let (cfg, seen) ← parseLines defaultConfig 0 rest
      if seen = 255 then some cfg else none

/-! ## What is written is read back -/

/-- A version string that a line can hold: without a line feed, and not ending in white
space. -/
structure Fits (version : String) : Prop where
  line : '\n' ∉ version.toList
  last : ∀ c ∈ version.toList.getLast?, isWhitespace c = false

/-- A version string is checked at its last character. -/
theorem Fits.of_all {version : String} (hline : '\n' ∉ version.toList)
    (hlast : version.toList.getLast?.all (fun c => ! isWhitespace c) = true) : Fits version where
  line := hline
  last c hc := by
    have hblank := (Option.all_eq_true _ _).mp hlast c hc
    exact Bool.not_eq_true' _ ▸ hblank

/-- Both version strings fit. -/
structure Plain (cfg : SlotConfig) : Prop where
  slotA : Fits cfg.slotA.version
  slotB : Fits cfg.slotB.version

/-- The keys of the format. -/
def keys : List String :=
  ["active", "pending", "a.version", "a.successful", "a.boot_count", "b.version", "b.successful",
    "b.boot_count"]

/-- A key is the start of a line that holds a field. -/
structure IsKey (key : String) : Prop where
  nonempty : key.toList ≠ []
  head : ∀ c ∈ key.toList.head?, isWhitespace c = false
  separator : '=' ∉ key.toList
  line : '\n' ∉ key.toList

variable {key : String} {cfg cfg' : SlotConfig} {seen seen' : Nat} {ls : List (List Char)}

theorem isKey_of_mem (h : key ∈ keys) : IsKey key := by
  have hall : ∀ key ∈ keys, key.toList ≠ [] ∧ key.toList.head?.all (fun c => ! isWhitespace c) = true ∧
      '=' ∉ key.toList ∧ '\n' ∉ key.toList := by decide
  obtain ⟨h1, h2, h3, h4⟩ := hall key h
  refine ⟨h1, fun c hc => ?_, h3, h4⟩
  have hblank := (Option.all_eq_true _ _).mp h2 c hc
  exact Bool.not_eq_true' _ ▸ hblank

/-- The line of a field. -/
def fieldLine (key val : String) : List Char := key.toList ++ '=' :: val.toList

section Line

variable {key val : String}

/-- There is nothing to trim in it. -/
theorem trimmed_fieldLine (hkey : IsKey key) (hval : Fits val) : Trimmed (fieldLine key val) := by
  constructor
  · intro c hc
    cases hk : key.toList with
    | nil => exact absurd hk hkey.nonempty
    | cons d rest =>
      rw [fieldLine, hk, List.cons_append, List.head?_cons] at hc
      refine hkey.head c ?_
      rw [hk]
      exact hc
  · intro c hc
    rw [fieldLine, List.getLast?_append, List.getLast?_cons, Option.some_or, Option.mem_some_iff] at hc
    cases hlast : val.toList.getLast? with
    | none =>
      rw [hlast] at hc
      subst hc
      decide
    | some d =>
      rw [hlast] at hc
      subst hc
      exact hval.last _ hlast

theorem not_mem_fieldLine (hkey : IsKey key) (hval : Fits val) : '\n' ∉ fieldLine key val := by
  rw [fieldLine, List.mem_append, List.mem_cons, not_or, not_or]
  exact ⟨hkey.line, by decide, hval.line⟩

/-- **A line of a field is read as that field.** -/
theorem parseLines_fieldLine (hkey : IsKey key) (hval : Fits val) (cfg : SlotConfig) (seen : Nat)
    (rest : List (List Char)) :
    parseLines cfg seen (fieldLine key val :: rest) =
      (assign cfg seen key val).bind fun p => parseLines p.1 p.2 rest := by
  have hne : (fieldLine key val).isEmpty = false := by
    rw [fieldLine]
    cases key.toList <;> rfl
  rw [parseLines]
  simp only [(trimmed_fieldLine hkey hval).trim_eq, hne]
  rw [if_neg (by decide), (splitOnce_eq_some_iff.mpr ⟨rfl, hkey.separator⟩ :
    splitOnce '=' (fieldLine key val) = _)]
  show ((assign cfg seen (.ofList key.toList) (.ofList val.toList)).bind _) = _
  rw [String.ofList_toList, String.ofList_toList]

end Line

/-! ### The values of the fields -/

theorem fits_letter (slot : Slot) : Fits slot.letter := by
  cases slot <;> exact .of_all (by decide) (by decide)

theorem fits_flagText (b : Bool) : Fits (flagText b) := by
  cases b <;> exact .of_all (by decide) (by decide)

theorem isWhitespace_of_isDigit {c : Char} (h : c.isDigit = true) : isWhitespace c = false := by
  simp only [Char.isDigit, Bool.and_eq_true, decide_eq_true_eq] at h
  have hlow : 48 ≤ c.toNat := h.1
  have hhigh : c.toNat ≤ 57 := h.2
  simp only [isWhitespace, Bool.or_eq_false_iff, Bool.and_eq_false_iff, decide_eq_false_iff_not,
    beq_eq_false_iff_ne]
  omega

theorem fits_repr (n : Nat) : Fits n.repr := by
  have hdigit : ∀ c ∈ n.repr.toList, c.isDigit = true := by
    intro c hc
    rw [Nat.toList_repr] at hc
    exact Nat.isDigit_of_mem_toDigits (by decide) (by decide) hc
  constructor
  · intro hmem
    exact absurd (hdigit _ hmem) (by decide)
  · intro c hc
    exact isWhitespace_of_isDigit (hdigit c (List.mem_of_getLast? hc))

@[simp] theorem flagOf_flagText (b : Bool) : flagOf (flagText b) = b := by cases b <;> decide

@[simp] theorem bootCountOf_repr (n : UInt8) : bootCountOf n.toNat.repr = some n := by
  have hall : ∀ k : Fin 256, parseUnsigned 8 (Nat.toDigits 10 k) = some k.val := by decide +kernel
  rw [bootCountOf, Nat.toList_repr, hall ⟨n.toNat, n.toNat_lt⟩]
  exact congrArg some (UInt8.ofNat_toNat)

/-- Every field of a plain configuration has a key of the format and fits its line. -/
theorem Plain.fields (h : cfg.Plain) : ∀ field ∈ cfg.fields, field.1 ∈ keys ∧ Fits field.2 := by
  simp only [SlotConfig.fields, List.forall_mem_cons]
  refine ⟨⟨by decide, fits_letter _⟩, ⟨by decide, fits_flagText _⟩, ⟨by decide, h.slotA⟩,
    ⟨by decide, fits_flagText _⟩, ⟨by decide, fits_repr _⟩, ⟨by decide, h.slotB⟩,
    ⟨by decide, fits_flagText _⟩, ⟨by decide, fits_repr _⟩, ?_⟩
  exact fun _ h => absurd h List.not_mem_nil

/-- The fields of a configuration, assigned one after the other. -/
def assignAll (cfg : SlotConfig) (seen : Nat) : List (String × String) → Option (SlotConfig × Nat)
  | [] => some (cfg, seen)
  | field :: rest => (assign cfg seen field.1 field.2).bind fun p => assignAll p.1 p.2 rest

theorem parseLines_map {fs : List (String × String)}
    (h : ∀ field ∈ fs, field.1 ∈ keys ∧ Fits field.2) (cfg : SlotConfig) (seen : Nat) :
    parseLines cfg seen (fs.map fun field => fieldLine field.1 field.2) = assignAll cfg seen fs := by
  induction fs generalizing cfg seen with
  | nil => rfl
  | cons field fs ih =>
    rw [List.forall_mem_cons] at h
    rw [List.map_cons, parseLines_fieldLine (isKey_of_mem h.1.1) h.1.2, assignAll]
    exact congrArg _ (funext fun p => ih h.2 p.1 p.2)

section Assign

variable (cfg : SlotConfig) (seen : Nat) (val : String)

theorem assign_active (slot : Slot) :
    assign cfg seen "active" slot.letter = some ({ cfg with active := slot }, seen ||| 1) := by
  cases slot <;> rfl

theorem assign_pending : assign cfg seen "pending" val = some ({ cfg with pending := flagOf val }, seen ||| 2) := rfl

theorem assign_versionA :
    assign cfg seen "a.version" val = some ({ cfg with slotA := { cfg.slotA with version := val } }, seen ||| 4) := rfl

theorem assign_successfulA : assign cfg seen "a.successful" val =
    some ({ cfg with slotA := { cfg.slotA with successful := flagOf val } }, seen ||| 8) := rfl

theorem assign_bootCountA (n : UInt8) : assign cfg seen "a.boot_count" n.toNat.repr =
    some ({ cfg with slotA := { cfg.slotA with bootCount := n } }, seen ||| 16) := by
  show (bootCountOf n.toNat.repr >>= fun n => _) = _
  rw [bootCountOf_repr]
  rfl

theorem assign_versionB :
    assign cfg seen "b.version" val = some ({ cfg with slotB := { cfg.slotB with version := val } }, seen ||| 32) := rfl

theorem assign_successfulB : assign cfg seen "b.successful" val =
    some ({ cfg with slotB := { cfg.slotB with successful := flagOf val } }, seen ||| 64) := rfl

theorem assign_bootCountB (n : UInt8) : assign cfg seen "b.boot_count" n.toNat.repr =
    some ({ cfg with slotB := { cfg.slotB with bootCount := n } }, seen ||| 128) := by
  show (bootCountOf n.toNat.repr >>= fun n => _) = _
  rw [bootCountOf_repr]
  rfl

end Assign

/-- **All eight fields together are the configuration**, whatever was there before. -/
theorem assignAll_fields (cfg start : SlotConfig) :
    assignAll start 0 cfg.fields = some (cfg, 255) := by
  obtain ⟨active, pending, ⟨versionA, okA, countA⟩, ⟨versionB, okB, countB⟩⟩ := cfg
  simp only [fields, assignAll, assign_active, assign_pending, assign_versionA, assign_successfulA,
    assign_bootCountA, assign_versionB, assign_successfulB, assign_bootCountB, flagOf_flagText, Option.bind_some]
  rfl

/-- **What is written is read back.** -/
theorem parse_of_plain (h : cfg.Plain) : parse cfg.serialize = some cfg := by
  have hlines : ∀ line ∈ raeslotHeader.toList ::
      cfg.fields.map (fun field => field.1.toList ++ '=' :: field.2.toList),
      '\n' ∉ line ∧ ∀ c ∈ line.getLast?, c ≠ '\r' := by
    rw [List.forall_mem_cons]
    refine ⟨⟨by decide, fun c hc => ?_⟩, fun line hline => ?_⟩
    · obtain rfl := Option.some.inj (hc : some _ = some c)
      decide
    obtain ⟨field, hfield, rfl⟩ := List.mem_map.mp hline
    obtain ⟨hkey, hval⟩ := h.fields field hfield
    refine ⟨not_mem_fieldLine (isKey_of_mem hkey) hval, ?_⟩
    rintro c hc rfl
    exact absurd ((trimmed_fieldLine (isKey_of_mem hkey) hval).last _ hc) (by decide)
  have hparsed : parseLines defaultConfig 0
      (cfg.fields.map fun field => field.1.toList ++ '=' :: field.2.toList) = some (cfg, 255) :=
    (parseLines_map h.fields _ _).trans (assignAll_fields cfg _)
  rw [parse, serialize, String.toList_ofList, lines_unlines hlines]
  dsimp only
  rw [if_neg (by decide), hparsed]
  rfl

/-! ## What is read is plain -/

/-- The value of a field read from a line without a line feed fits a line. -/
theorem fits_of_splitOnce {line key val : List Char} (hline : '\n' ∉ line)
    (h : splitOnce '=' (trim line) = some (key, val)) : Fits (.ofList val) := by
  obtain ⟨heq, -⟩ := splitOnce_eq_some_iff.mp h
  constructor
  · rw [String.toList_ofList]
    intro hmem
    refine hline (mem_of_mem_trim ?_)
    rw [heq]
    exact List.mem_append_right _ (List.mem_cons_of_mem _ hmem)
  · rw [String.toList_ofList]
    intro c hc
    refine trim_last line c ?_
    rw [heq]
    exact getLast?_append_some key (getLast?_append_some ['='] hc)

/-- What one field does: the configuration stays plain, and at most its own key is
marked as seen. -/
theorem assign_eq_some {val : String} (h : assign cfg seen key val = some (cfg', seen'))
    (hplain : cfg.Plain) (hval : Fits val) :
    cfg'.Plain ∧ (seen' = seen ∨ ∃ i, keys[i]? = some key ∧ seen' = seen ||| 2 ^ i) := by
  obtain ⟨hA, hB⟩ := hplain
  unfold assign at h
  split at h
  · -- `active`
    split at h
    · obtain ⟨rfl, rfl⟩ := Prod.mk.inj (Option.some.inj h)
      exact ⟨⟨hA, hB⟩, .inr ⟨0, rfl, rfl⟩⟩
    · obtain ⟨rfl, rfl⟩ := Prod.mk.inj (Option.some.inj h)
      exact ⟨⟨hA, hB⟩, .inr ⟨0, rfl, rfl⟩⟩
    · exact nomatch h
  · obtain ⟨rfl, rfl⟩ := Prod.mk.inj (Option.some.inj h)
    exact ⟨⟨hA, hB⟩, .inr ⟨1, rfl, rfl⟩⟩
  · obtain ⟨rfl, rfl⟩ := Prod.mk.inj (Option.some.inj h)
    exact ⟨⟨hval, hB⟩, .inr ⟨2, rfl, rfl⟩⟩
  · obtain ⟨rfl, rfl⟩ := Prod.mk.inj (Option.some.inj h)
    exact ⟨⟨hA, hB⟩, .inr ⟨3, rfl, rfl⟩⟩
  · obtain ⟨n, -, h⟩ := Option.bind_eq_some_iff.mp h
    obtain ⟨rfl, rfl⟩ := Prod.mk.inj (Option.some.inj h)
    exact ⟨⟨hA, hB⟩, .inr ⟨4, rfl, rfl⟩⟩
  · obtain ⟨rfl, rfl⟩ := Prod.mk.inj (Option.some.inj h)
    exact ⟨⟨hA, hval⟩, .inr ⟨5, rfl, rfl⟩⟩
  · obtain ⟨rfl, rfl⟩ := Prod.mk.inj (Option.some.inj h)
    exact ⟨⟨hA, hB⟩, .inr ⟨6, rfl, rfl⟩⟩
  · obtain ⟨n, -, h⟩ := Option.bind_eq_some_iff.mp h
    obtain ⟨rfl, rfl⟩ := Prod.mk.inj (Option.some.inj h)
    exact ⟨⟨hA, hB⟩, .inr ⟨7, rfl, rfl⟩⟩
  · obtain ⟨rfl, rfl⟩ := Prod.mk.inj (Option.some.inj h)
    exact ⟨⟨hA, hB⟩, .inl rfl⟩

/-- Some line has this key. -/
def HasKey (ls : List (List Char)) (key : String) : Prop :=
  ∃ line ∈ ls, ∃ val, splitOnce '=' (trim line) = some (key.toList, val)

theorem HasKey.cons (line : List Char) (h : HasKey ls key) : HasKey (line :: ls) key := by
  obtain ⟨l, hl, hsplit⟩ := h
  exact ⟨l, List.mem_cons_of_mem _ hl, hsplit⟩

/-- **The loop keeps the configuration plain**, and a key is marked as seen only if a
line had it. By induction on the lines. -/
theorem parseLines_eq_some (hlines : ∀ line ∈ ls, '\n' ∉ line) (hplain : cfg.Plain)
    (h : parseLines cfg seen ls = some (cfg', seen')) :
    cfg'.Plain ∧ ∀ i key, keys[i]? = some key → seen'.testBit i = true →
      seen.testBit i = true ∨ HasKey ls key := by
  induction ls generalizing cfg seen with
  | nil =>
    obtain ⟨rfl, rfl⟩ := Prod.mk.inj (Option.some.inj h)
    exact ⟨hplain, fun _ _ _ hbit => .inl hbit⟩
  | cons line ls ih =>
    rw [List.forall_mem_cons] at hlines
    rw [parseLines] at h
    dsimp only at h
    split at h
    · obtain ⟨hres, hkeys⟩ := ih hlines.2 hplain h
      exact ⟨hres, fun i key hkey hbit => (hkeys i key hkey hbit).imp_right (.cons line)⟩
    · obtain ⟨⟨key, val⟩, hsplit, h⟩ := Option.bind_eq_some_iff.mp h
      obtain ⟨⟨cfg₁, seen₁⟩, hassign, h⟩ := Option.bind_eq_some_iff.mp h
      obtain ⟨hplain₁, hseen⟩ := assign_eq_some hassign hplain (fits_of_splitOnce hlines.1 hsplit)
      obtain ⟨hres, hkeys⟩ := ih hlines.2 hplain₁ h
      refine ⟨hres, fun i key' hkey' hbit => ?_⟩
      rcases hkeys i key' hkey' hbit with hbit₁ | hthere
      · rcases hseen with rfl | ⟨j, hj, rfl⟩
        · exact .inl hbit₁
        · rw [Nat.testBit_or, Bool.or_eq_true, Nat.testBit_two_pow, decide_eq_true_iff] at hbit₁
          rcases hbit₁ with hbit₁ | rfl
          · exact .inl hbit₁
          · -- the key of this line
            obtain rfl : key' = .ofList key := Option.some.inj (hkey'.symm.trans hj)
            refine .inr ⟨line, List.mem_cons_self, val, ?_⟩
            rwa [String.toList_ofList]
      · exact .inr (hthere.cons line)

/-- The header line and all eight keys are there. -/
def Complete (text : String) : Prop :=
  ∃ header rest, lines text.toList = header :: rest ∧ trim header = raeslotHeader.toList ∧
    ∀ key ∈ keys, HasKey rest key

/-- **What `parse` returns** comes from a complete text and is plain. -/
theorem parse_eq_some {text : String} (h : parse text = some cfg) : Complete text ∧ cfg.Plain := by
  unfold parse at h
  split at h
  · exact nomatch h
  · rename_i header rest hlines
    split at h
    · exact nomatch h
    · rename_i hheader
      obtain ⟨⟨cfg', seen⟩, hparsed, h⟩ := Option.bind_eq_some_iff.mp h
      dsimp only at h
      split at h
      · rename_i hseen
        obtain rfl : cfg' = cfg := Option.some.inj h
        have hfeed : ∀ line ∈ rest, '\n' ∉ line := fun line hline =>
          not_mem_of_mem_lines (by rw [hlines]; exact List.mem_cons_of_mem _ hline)
        have hdefault : defaultConfig.Plain := ⟨.of_all (by decide) (by decide), .of_all (by decide) (by decide)⟩
        obtain ⟨hplain, hkeys⟩ := parseLines_eq_some hfeed hdefault hparsed
        refine ⟨⟨header, rest, hlines, not_not.mp hheader, fun key hkey => ?_⟩, hplain⟩
        obtain ⟨i, hi, hget⟩ := List.mem_iff_getElem.mp hkey
        have hbit : ∀ j < 8, (255 : Nat).testBit j = true := by decide
        refine (hkeys i key (List.getElem?_eq_some_iff.mpr ⟨hi, hget⟩) ?_).resolve_left (by simp)
        rw [hseen]
        exact hbit i hi
      · exact nomatch h

/-- **RAESLOT.CFG round trip**: a configuration whose versions fit a line is read back,
and what is read comes from a text with the header and all keys, and is read back. -/
theorem raeslotCfg (cfg : SlotConfig) :
    (cfg.Plain → parse cfg.serialize = some cfg) ∧
      ∀ text, parse text = some cfg → Complete text ∧ parse cfg.serialize = some cfg := by
  refine ⟨parse_of_plain, fun text h => ?_⟩
  obtain ⟨hcomplete, hplain⟩ := parse_eq_some h
  exact ⟨hcomplete, parse_of_plain hplain⟩

/-- The default configuration, with a version that has separators and starts with a
blank. -/
theorem raeslotCfg_default :
    parse (defaultConfig.stage " 0.2=rc").serialize = some (defaultConfig.stage " 0.2=rc") :=
  (raeslotCfg (defaultConfig.stage " 0.2=rc")).1 ⟨.of_all (by decide) (by decide), .of_all (by decide) (by decide)⟩

end SlotConfig

end AthenaOS
