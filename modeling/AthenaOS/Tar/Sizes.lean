import AthenaOS.Tar.Header

/-!
# Sizes of members

Where the data of the entries lies in the archive, and when the reported sizes are theirs.
-/

namespace AthenaOS.Tar

open Lib Lib.Wire

/-! ## What one header adds -/

/-- The bytes of all entries. -/
def dataSize (entries : List TarEntry) : Nat := (entries.map fun e => e.data.length).sum

theorem dataSize_append (entries : List TarEntry) (e : TarEntry) :
    dataSize (entries ++ [e]) = dataSize entries + e.data.length := by
  simp [dataSize]

/-- An entry that one header stands for. -/
structure EntryOf (block body : ByteString) (n : Numbers) (pending : Pending) (e : TarEntry) : Prop where
  kind : e.kind = kindOf (block.getD 156 0)
  data : e.data = if kindOf (block.getD 156 0) = .file then body else []
  size : e.size = pending.size.getD n.size
  mode : e.mode = n.mode
  mtime : e.mtime = n.mtime

/-- A real entry is added, or an error returned. -/
theorem readEntry_eq_ok {block body : ByteString} {n : Numbers} {r r' : Reading}
    (h : readEntry block body n r = .ok r') :
    ∃ e, EntryOf block body n r.pending e ∧ r'.entries = r.entries ++ [e] ∧ r'.pending = .default ∧
      r'.total = r.total + e.data.length ∧ r'.total ≤ maxTotalSize := by
  obtain ⟨name, -, h⟩ := bind_eq_ok h
  obtain ⟨linkTarget, -, h⟩ := bind_eq_ok h
  obtain ⟨_, htotal, h⟩ := bind_eq_ok h
  obtain ⟨_, -, h⟩ := bind_eq_ok h
  obtain rfl := Except.ok.inj h
  have hle := of_decide_eq_true (require_eq_ok htotal)
  refine ⟨⟨name, _, _, _, _, linkTarget, _⟩, ⟨rfl, rfl, rfl, rfl, rfl⟩, rfl, rfl, ?_, hle⟩
  -- below the limit, nothing saturates
  have hexact : ∀ k, min k (2 ^ 64 - 1) ≤ maxTotalSize → min k (2 ^ 64 - 1) = k := by
    intro k hk
    rw [maxTotalSize] at hk
    omega
  exact hexact _ hle

/-- What a header does to the loop: it announces something about the next entry, or adds one. -/
inductive HeaderRead (block body : ByteString) (n : Numbers) (r r' : Reading) : Prop
  | pseudo : kindOf (block.getD 156 0) ≠ .file → r'.entries = r.entries → r'.total = r.total →
    HeaderRead block body n r r'
  | entry (e : TarEntry) : EntryOf block body n r.pending e → r'.entries = r.entries ++ [e] →
    r'.total = r.total + e.data.length → r'.total ≤ maxTotalSize → HeaderRead block body n r r'

theorem readMember_eq_ok {block body : ByteString} {n : Numbers} {r r' : Reading}
    (h : readMember block body n r = .ok r') : HeaderRead block body n r r' := by
  rw [readMember] at h
  dsimp only at h
  split at h
  · next htype =>
    obtain ⟨name, -, h⟩ := bind_eq_ok h
    obtain rfl := Except.ok.inj h
    exact .pseudo (by rw [htype]; decide) rfl rfl
  split at h
  · next htype =>
    obtain ⟨link, -, h⟩ := bind_eq_ok h
    obtain rfl := Except.ok.inj h
    exact .pseudo (by rw [htype]; decide) rfl rfl
  split at h
  · next htype =>
    obtain ⟨pending, -, h⟩ := bind_eq_ok h
    obtain rfl := Except.ok.inj h
    refine .pseudo ?_ rfl rfl
    rcases htype with htype | htype
    · rw [htype]
      decide
    · rw [htype]
      decide
  · obtain ⟨e, he, hentries, -, htotal, hle⟩ := readEntry_eq_ok h
    exact .entry e he hentries htotal hle

theorem le_roundUp {n padded : Nat} (h : roundUp n = some padded) : n ≤ padded := by
  obtain ⟨v, hv, rfl⟩ := Option.map_eq_some_iff.mp h
  rw [checkedAdd_eq_some hv, blockLen]
  omega

/-- **A header and its body**: the body lies in the archive, before the next header. -/
theorem readHeader_eq_ok {data : ByteString} {r r' : Reading} {pos next : Nat}
    (h : readHeader data r pos = .ok (r', next)) :
    ∃ n, readNumbers (slice data pos blockLen) = .ok n ∧ n.size ≤ maxEntrySize ∧
      pos + blockLen + n.size ≤ data.length ∧ pos + blockLen + n.size ≤ next ∧
      HeaderRead (slice data pos blockLen) (slice data (pos + blockLen) n.size) n r r' := by
  obtain ⟨_, -, h⟩ := bind_eq_ok h
  obtain ⟨_, -, h⟩ := bind_eq_ok h
  obtain ⟨n, hn, h⟩ := bind_eq_ok h
  obtain ⟨bodyEnd, hend, h⟩ := bind_eq_ok h
  obtain ⟨_, hsize, h⟩ := bind_eq_ok h
  obtain ⟨_, hinside, h⟩ := bind_eq_ok h
  obtain ⟨padded, hpadded, h⟩ := bind_eq_ok h
  obtain ⟨next', hnext, h⟩ := bind_eq_ok h
  obtain ⟨_, hmember, h⟩ := bind_eq_ok h
  obtain ⟨rfl, rfl⟩ := Prod.mk.inj (Except.ok.inj h)
  have hend := checkedAdd_eq_some (okOr_eq_ok hend)
  have hinside := of_decide_eq_true (require_eq_ok hinside)
  have hnext := checkedAdd_eq_some (okOr_eq_ok hnext)
  have hpadded := le_roundUp (okOr_eq_ok hpadded)
  refine ⟨n, hn, of_decide_eq_true (require_eq_ok hsize), by omega, by omega, ?_⟩
  cases readMember_eq_ok hmember with
  | pseudo hkind hentries htotal => exact .pseudo hkind hentries htotal
  | entry e he hentries htotal hle => exact .entry e he hentries htotal hle

/-- What one round that goes on does. -/
inductive RoundRead (data : ByteString) (r : Reading) (pos : Nat) (r' : Reading) (next : Nat) : Prop
  | zero : isZeroBlock (slice data pos blockLen) = true → r' = { r with zeroSeen := true } →
    next = pos + blockLen → RoundRead data r pos r' next
  | header (n : Numbers) : isZeroBlock (slice data pos blockLen) = false →
    readNumbers (slice data pos blockLen) = .ok n → n.size ≤ maxEntrySize →
    pos + blockLen + n.size ≤ data.length → pos + blockLen + n.size ≤ next →
    HeaderRead (slice data pos blockLen) (slice data (pos + blockLen) n.size) n r r' →
    RoundRead data r pos r' next

theorem readRound_inl {data : ByteString} {r r' : Reading} {pos next : Nat}
    (h : readRound data r pos = .ok (.inl r', next)) : RoundRead data r pos r' next := by
  rw [readRound] at h
  split at h
  · obtain ⟨_, -, h⟩ := bind_eq_ok h
    cases h
  split at h
  · next hzero =>
    split at h
    · cases h
    · obtain ⟨hr, rfl⟩ := Prod.mk.inj (Except.ok.inj h)
      exact .zero hzero (Sum.inl.inj hr).symm rfl
  · next hzero =>
    obtain ⟨⟨r₁, next₁⟩, hheader, h⟩ := bind_eq_ok h
    obtain ⟨hr, rfl⟩ := Prod.mk.inj (Except.ok.inj h)
    obtain rfl := Sum.inl.inj hr
    obtain ⟨n, hn, hsize, hinside, hnext, hread⟩ := readHeader_eq_ok hheader
    exact .header n (Bool.eq_false_iff.mpr hzero) hn hsize hinside hnext hread

/-- The loop returns the entries it has, and not at a header. -/
theorem readRound_inr {data : ByteString} {r : Reading} {pos next : Nat} {entries : List TarEntry}
    (h : readRound data r pos = .ok (.inr entries, next)) :
    entries = r.entries ∧ (pos + blockLen ≤ data.length → isZeroBlock (slice data pos blockLen) = true) := by
  rw [readRound] at h
  split at h
  · next hend =>
    obtain ⟨entries', hoff, h⟩ := bind_eq_ok h
    obtain ⟨hr, -⟩ := Prod.mk.inj (Except.ok.inj h)
    obtain rfl := Sum.inr.inj hr
    refine ⟨?_, fun hfits => absurd hend (Nat.not_lt.mpr hfits)⟩
    rw [ranOff] at hoff
    split at hoff
    · exact (Except.ok.inj hoff).symm
    split at hoff
    · cases hoff
    · cases hoff
  split at h
  · next hzero =>
    split at h
    · obtain ⟨hr, -⟩ := Prod.mk.inj (Except.ok.inj h)
      exact ⟨(Sum.inr.inj hr).symm, fun _ => hzero⟩
    · cases h
  · obtain ⟨_, -, h⟩ := bind_eq_ok h
    cases h

/-! ## Where the data lies -/

/-- An entry, and where its data starts. -/
abbrev Span : Type := Nat × TarEntry

/-- The data of an entry is that part of the archive. -/
def Span.Inside (data : ByteString) (s : Span) : Prop :=
  s.1 + s.2.data.length ≤ data.length ∧ slice data s.1 s.2.data.length = s.2.data

/-- One part lies before another. -/
def Span.Before (s t : Span) : Prop := s.1 < t.1 ∧ s.1 + s.2.data.length ≤ t.1

/-- The data of the entries is parts of the archive, in order. -/
def InOrder (data : ByteString) (entries : List TarEntry) : Prop :=
  ∃ spans : List Span, spans.map Prod.snd = entries ∧ (∀ s ∈ spans, s.Inside data) ∧
    spans.Pairwise Span.Before

/-- What was read lies before the position, and the total counts it. -/
structure Laid (data : ByteString) (r : Reading) (pos : Nat) : Prop where
  spans : ∃ spans : List Span, spans.map Prod.snd = r.entries ∧ (∀ s ∈ spans, s.Inside data) ∧
    spans.Pairwise Span.Before ∧ ∀ s ∈ spans, s.1 + s.2.data.length ≤ pos
  small : ∀ e ∈ r.entries, e.data.length ≤ maxEntrySize
  total : r.total = dataSize r.entries
  total_le : r.total ≤ maxTotalSize

theorem laid_start (data : ByteString) : Laid data .start 0 where
  spans := ⟨[], rfl, fun _ h => absurd h List.not_mem_nil, .nil, fun _ h => absurd h List.not_mem_nil⟩
  small := fun _ h => absurd h List.not_mem_nil
  total := rfl
  total_le := Nat.zero_le _

/-- The position may move on. -/
theorem Laid.mono {data : ByteString} {r r' : Reading} {pos next : Nat} (h : Laid data r pos)
    (hle : pos ≤ next) (hentries : r'.entries = r.entries) (htotal : r'.total = r.total) :
    Laid data r' next := by
  obtain ⟨spans, hmap, hinside, hpair, hbelow⟩ := h.spans
  refine ⟨⟨spans, hmap.trans hentries.symm, hinside, hpair, fun s hs => ?_⟩, ?_, ?_, ?_⟩
  · exact Nat.le_trans (hbelow s hs) hle
  · rw [hentries]
    exact h.small
  · rw [htotal, hentries, h.total]
  · rw [htotal]
    exact h.total_le

/-- The data of an entry is the body of its header, or empty. -/
theorem EntryOf.inside {data : ByteString} {pos : Nat} {n : Numbers} {pending : Pending} {e : TarEntry}
    (h : EntryOf (slice data pos blockLen) (slice data (pos + blockLen) n.size) n pending e)
    (hinside : pos + blockLen + n.size ≤ data.length) :
    e.data.length ≤ n.size ∧ Span.Inside data (pos + blockLen, e) := by
  have hlen := length_slice_of_le data hinside
  have hdata := h.data
  split at hdata
  · rw [hdata, hlen]
    refine ⟨Nat.le_refl _, ?_, ?_⟩
    · show _ + e.data.length ≤ _
      rw [hdata, hlen]
      exact hinside
    · show slice data _ e.data.length = e.data
      rw [hdata, hlen]
  · rw [hdata]
    refine ⟨Nat.zero_le _, ?_, ?_⟩
    · show _ + e.data.length ≤ _
      rw [hdata]
      exact Nat.le_trans (Nat.le_add_right _ _) hinside
    · show slice data _ e.data.length = e.data
      rw [hdata]
      exact List.take_zero

/-- **Every round lays its data behind what was read.** -/
theorem laid_round {data : ByteString} {r r' : Reading} {pos next : Nat} (h : Laid data r pos)
    (hround : RoundRead data r pos r' next) : Laid data r' next := by
  cases hround with
  | zero _ hr hnext =>
    subst hr hnext
    exact h.mono (Nat.le_add_right _ _) rfl rfl
  | header n _ hn hsize hinside hnext hread =>
    have hpos : 0 < blockLen := by decide
    cases hread with
    | pseudo _ hentries htotal => exact h.mono (by omega) hentries htotal
    | entry e he hentries htotal hle =>
      obtain ⟨hfits, hspan⟩ := he.inside hinside
      obtain ⟨spans, hmap, hall, hpair, hbelow⟩ := h.spans
      refine ⟨⟨spans ++ [(pos + blockLen, e)], ?_, ?_, ?_, ?_⟩, ?_, ?_, hle⟩
      · rw [hentries, List.map_append, hmap, List.map_singleton]
      · rintro s hs
        rcases List.mem_append.mp hs with hs | hs
        · exact hall s hs
        · rw [List.mem_singleton.mp hs]
          exact hspan
      · refine List.pairwise_append.mpr ⟨hpair, List.pairwise_singleton _ _, fun s hs t ht => ?_⟩
        have hend := hbelow s hs
        rw [List.mem_singleton.mp ht]
        constructor
        · show s.1 < pos + blockLen
          omega
        · show s.1 + s.2.data.length ≤ pos + blockLen
          omega
      · rintro s hs
        rcases List.mem_append.mp hs with hs | hs
        · have hend := hbelow s hs
          omega
        · rw [List.mem_singleton.mp hs]
          show pos + blockLen + e.data.length ≤ next
          omega
      · intro e' he'
        rw [hentries] at he'
        rcases List.mem_append.mp he' with he' | he'
        · exact h.small e' he'
        · rw [List.mem_singleton.mp he']
          exact Nat.le_trans hfits hsize
      · rw [htotal, hentries, dataSize_append, h.total]

/-! ## Sizes -/

/-- What the entries that are read satisfy. -/
structure Consistent (data : ByteString) (entries : List TarEntry) : Prop where
  sizes : ∀ e ∈ entries, e.kind = .file → e.size = e.data.length ∧ e.data.length ≤ maxEntrySize
  total : dataSize entries ≤ maxTotalSize
  slices : InOrder data entries

/-- A state of the loop of `read_tar`. -/
inductive Reached (data : ByteString) : Reading → Nat → Prop
  | start : Reached data .start 0
  | round {r r' : Reading} {pos next : Nat} : Reached data r pos →
    readRound data r pos = .ok (.inl r', next) → Reached data r' next

/-- At the header of a file, a pending size is the size in the header. -/
def SizeAgrees (data : ByteString) (r : Reading) (pos : Nat) : Prop :=
  pos + blockLen ≤ data.length → isZeroBlock (slice data pos blockLen) = false →
    kindOf ((slice data pos blockLen).getD 156 0) = .file →
    ∀ size ∈ r.pending.size, readOctal (slice data pos blockLen) 124 12 = .ok size

/-- The loop from any state that is reached gives the result. -/
theorem Reached.loop {data : ByteString} {r : Reading} {pos : Nat} (h : Reached data r pos) :
    Decoder.loop (fun pos => data.length - pos) (readRound data) (progresses_readRound data) .start 0 =
      Decoder.loop (fun pos => data.length - pos) (readRound data) (progresses_readRound data) r pos := by
  induction h with
  | start => rfl
  | round _ hround ih => exact ih.trans (Decoder.loop_continue hround)

theorem readTar_eq_ok {data : ByteString} {entries : List TarEntry} (h : readTar data = .ok entries) :
    ∃ pos, Decoder.loop (fun pos => data.length - pos) (readRound data) (progresses_readRound data) .start 0 =
      .ok (entries, pos) := by
  rw [readTar] at h
  split at h
  · cases h
  · cases hloop : Decoder.loop (fun pos => data.length - pos) (readRound data) (progresses_readRound data) .start 0 with
    | error e =>
      rw [hloop] at h
      cases h
    | ok p =>
      rw [hloop] at h
      obtain rfl := Except.ok.inj h
      exact ⟨p.2, rfl⟩

/-- Entries are only ever added. -/
theorem RoundRead.entries {data : ByteString} {r r' : Reading} {pos next : Nat}
    (h : RoundRead data r pos r' next) : r.entries <+: r'.entries := by
  cases h with
  | zero _ hr => rw [hr]
  | header n _ _ _ _ _ hread =>
    cases hread with
    | pseudo _ hentries _ => rw [hentries]
    | entry e _ hentries _ _ =>
      rw [hentries]
      exact List.prefix_append _ _

theorem loop_entries {data : ByteString} {r : Reading} {pos last : Nat} {entries : List TarEntry}
    (h : Decoder.loop (fun pos => data.length - pos) (readRound data) (progresses_readRound data) r pos =
      .ok (entries, last)) : r.entries <+: entries := by
  refine Decoder.loop_invariant (I := fun r₁ _ => r.entries <+: r₁.entries)
    (Q := fun entries _ => r.entries <+: entries) ?_ ?_ List.prefix_rfl h
  · intro r₁ pos₁ r₂ pos₂ hpre hround
    exact hpre.trans (readRound_inl hround).entries
  · intro r₁ pos₁ entries pos₂ hpre hround
    rw [(readRound_inr hround).1]
    exact hpre

theorem readNumbers_size {block : ByteString} {n : Numbers} (h : readNumbers block = .ok n) :
    readOctal block 124 12 = .ok n.size := by
  obtain ⟨size, hsize, h⟩ := bind_eq_ok h
  obtain ⟨_, -, h⟩ := bind_eq_ok h
  obtain ⟨_, -, h⟩ := bind_eq_ok h
  obtain rfl := Except.ok.inj h
  exact hsize

/-- **A round adds a file of the right size** iff no other size is pending. -/
theorem EntryOf.size_iff {data body : ByteString} {r : Reading} {pos : Nat} {n : Numbers} {e : TarEntry}
    (h : EntryOf (slice data pos blockLen) body n r.pending e) (hbody : body.length = n.size)
    (hn : readNumbers (slice data pos blockLen) = .ok n) (hkind : e.kind = .file) :
    e.size = e.data.length ↔
      ∀ size ∈ r.pending.size, readOctal (slice data pos blockLen) 124 12 = .ok size := by
  have hfile : kindOf ((slice data pos blockLen).getD 156 0) = .file := h.kind.symm.trans hkind
  rw [h.size, h.data, if_pos hfile, hbody, readNumbers_size hn]
  cases r.pending.size with
  | none => exact ⟨fun _ _ h => (nomatch h), fun _ => rfl⟩
  | some size =>
    constructor
    · rintro hsize size' hmem
      obtain rfl := Option.some.inj hmem
      exact congrArg _ hsize.symm
    · intro hall
      exact (Except.ok.inj (hall size rfl)).symm

/-- The sizes so far are right, as long as no pending size differed. -/
theorem sizes_round {data : ByteString} {r r' : Reading} {pos next : Nat} (hround : RoundRead data r pos r' next)
    (hagrees : SizeAgrees data r pos) (h : ∀ e ∈ r.entries, e.kind = .file → e.size = e.data.length) :
    ∀ e ∈ r'.entries, e.kind = .file → e.size = e.data.length := by
  cases hround with
  | zero _ hr =>
    rw [hr]
    exact h
  | header n hzero hn _ hinside _ hread =>
    cases hread with
    | pseudo _ hentries _ =>
      rw [hentries]
      exact h
    | entry e he hentries _ _ =>
      rw [hentries]
      intro e' hmem hkind
      rcases List.mem_append.mp hmem with hmem | hmem
      · exact h e' hmem hkind
      · obtain rfl := List.mem_singleton.mp hmem
        have hfile := he.kind.symm.trans hkind
        exact (he.size_iff (length_slice_of_le data hinside) hn hkind).mpr
          (hagrees (by omega) hzero hfile)

/-- **The entries are consistent** iff no pending size differs from the one it overrides. -/
theorem consistent_iff {data : ByteString} {entries : List TarEntry} (h : readTar data = .ok entries) :
    Consistent data entries ↔ ∀ r pos, Reached data r pos → SizeAgrees data r pos := by
  obtain ⟨last, hloop⟩ := readTar_eq_ok h
  constructor
  · intro hconsistent r pos hreached hfits hzero hfile
    rw [hreached.loop] at hloop
    -- the round at this header adds an entry that is still there at the end
    rcases Decoder.loop_eq_ok hloop with hbreak | ⟨r', next, hround, hrest⟩
    · have hend := (readRound_inr hbreak).2 hfits
      rw [hzero] at hend
      cases hend
    · cases readRound_inl hround with
      | zero hzero' =>
        rw [hzero] at hzero'
        cases hzero'
      | header n _ hn _ hinside _ hread =>
        cases hread with
        | pseudo hkind _ _ => exact absurd hfile hkind
        | entry e he hentries _ _ =>
          have hmem : e ∈ entries := by
            refine (loop_entries hrest).subset ?_
            rw [hentries]
            exact List.mem_append_right _ List.mem_cons_self
          have hkind : e.kind = .file := he.kind.trans hfile
          exact (he.size_iff (length_slice_of_le data hinside) hn hkind).mp (hconsistent.sizes e hmem hkind).1
  · intro hagrees
    refine Decoder.loop_invariant
      (I := fun r pos => Reached data r pos ∧ Laid data r pos ∧
        ∀ e ∈ r.entries, e.kind = .file → e.size = e.data.length)
      (Q := fun entries _ => Consistent data entries) ?_ ?_
      ⟨.start, laid_start data, fun _ h => absurd h List.not_mem_nil⟩ hloop
    · rintro r pos r' next ⟨hreached, hlaid, hsizes⟩ hround
      have hread := readRound_inl hround
      exact ⟨hreached.round hround, laid_round hlaid hread, sizes_round hread (hagrees r pos hreached) hsizes⟩
    · rintro r pos entries next ⟨-, hlaid, hsizes⟩ hround
      rw [(readRound_inr hround).1]
      obtain ⟨spans, hmap, hinside, hpair, -⟩ := hlaid.spans
      exact ⟨fun e he hkind => ⟨hsizes e he hkind, hlaid.small e he⟩, hlaid.total ▸ hlaid.total_le,
        spans, hmap, hinside, hpair⟩

/-- A header as the writer builds it. -/
def headerBytes (name : String) (typeflag : UInt8) (size : Nat) : ByteString :=
  match buildHeader name typeflag size "" ⟨0o644, 0, 0, 0⟩ with
  | .ok h => h.toList
  | .error _ => []

/-- A record that announces seven bytes, and a file without data. -/
def overriding : ByteString :=
  headerBytes "x" (ascii 'x') 10 ++ (utf8 "10 size=7\n" ++ List.replicate 502 0) ++
    headerBytes "a" (ascii '0') 0

/-- A header whose name is short. -/
theorem headerBytes_eq {name : String} {typeflag : UInt8} {size : Nat} (hne : utf8 name ≠ []) (hzero : 0 ∉ utf8 name)
    (hlen : (utf8 name).length ≤ 100) :
    ∃ h, buildHeader name typeflag size "" ⟨0o644, 0, 0, 0⟩ = .ok h ∧ headerBytes name typeflag size = h.toList := by
  have hbuild : ∃ h, buildHeader name typeflag size "" ⟨0o644, 0, 0, 0⟩ = .ok h := by
    rw [buildHeader, if_neg hne, if_neg hzero, if_neg (by decide), putName, if_pos hlen]
    exact ⟨_, rfl⟩
  obtain ⟨h, hbuild⟩ := hbuild
  refine ⟨h, hbuild, ?_⟩
  rw [headerBytes, hbuild]

theorem readTar_overriding : readTar overriding =
    .ok [⟨"a", 7, .file, 0o644, 0, "", []⟩] := by
  obtain ⟨h₁, hbuild₁, hbytes₁⟩ := @headerBytes_eq "x" (ascii 'x') 10 (by decide) (by decide) (by decide)
  obtain ⟨h₂, hbuild₂, hbytes₂⟩ := @headerBytes_eq "a" (ascii '0') 0 (by decide) (by decide) (by decide)
  have hread₁ := buildHeader_eq_ok (by decide) hbuild₁
  have hread₂ := buildHeader_eq_ok (by decide) hbuild₂
  have hdata : overriding = h₁.toList ++ (utf8 "10 size=7\n" ++ (List.replicate 502 0 ++ h₂.toList)) := by
    rw [overriding, hbytes₁, hbytes₂, List.append_assoc, List.append_assoc]
  have hlen₁ : h₁.toList.length = 512 := Bytes.length_toList h₁
  have hlen₂ : h₂.toList.length = 512 := Bytes.length_toList h₂
  have hlen : overriding.length = 1536 := by
    rw [hdata]
    simp only [List.length_append, List.length_replicate, hlen₁, hlen₂]
    rfl
  have hblock₁ : slice overriding 0 blockLen = h₁.toList := by
    rw [hdata]
    exact slice_append_start _ _ hlen₁.symm
  have hbody₁ : slice overriding (0 + blockLen) 10 = utf8 "10 size=7\n" := by
    rw [hdata]
    exact slice_append_mid _ _ _ hlen₁.symm rfl
  have hblock₂ : slice overriding 1024 blockLen = h₂.toList := by
    rw [hdata, ← List.append_assoc, ← List.append_assoc, slice, List.drop_left' (by
      simp only [List.length_append, List.length_replicate, hlen₁]
      rfl)]
    exact List.take_of_length_le (Nat.le_of_eq hlen₂)
  have hnumbers₁ : readNumbers h₁.toList = .ok ⟨10, 0o644, 0⟩ := readNumbers_buildHeader (by decide) hbuild₁
  have hnumbers₂ : readNumbers h₂.toList = .ok ⟨0, 0o644, 0⟩ := readNumbers_buildHeader (by decide) hbuild₂
  -- the record announces seven bytes, and the file behind it takes them over
  have hmember₁ : readMember h₁.toList (slice overriding (0 + blockLen) 10) ⟨10, 0o644, 0⟩ ⟨[], .default, false, 0, true⟩ =
      .ok ⟨[], ⟨none, none, some 7⟩, false, 0, true⟩ := by
    have hpax : parsePax (utf8 "10 size=7\n") .default = .ok ⟨none, none, some 7⟩ := by decide +kernel
    rw [readMember, hread₁.typeflag, hbody₁]
    dsimp only
    rw [if_neg (by decide), if_neg (by decide), if_pos (by decide), bind_ok hpax]
    rfl
  have hmember₂ : readMember h₂.toList (slice overriding (1024 + blockLen) 0) ⟨0, 0o644, 0⟩
      ⟨[], ⟨none, none, some 7⟩, false, 0, true⟩ =
        .ok ⟨[⟨"a", 7, .file, 0o644, 0, "", []⟩], .default, false, 0, true⟩ := by
    have hname : entryName h₂.toList ⟨none, none, some 7⟩ = .ok "a" := hread₂.name
    have hlink : entryLink h₂.toList ⟨none, none, some 7⟩ = .ok "" := hread₂.link
    rw [readMember, hread₂.typeflag]
    dsimp only
    rw [if_neg (by decide), if_neg (by decide), if_neg (by decide), readEntry, hread₂.typeflag]
    dsimp only
    rw [bind_ok hname, bind_ok hlink]
    rfl
  have hround₁ := readRound_header (r := .start) hblock₁ hread₁.checksum hread₁.nonzero
    hnumbers₁ (by decide) (by rw [hlen]; decide) (by decide) hmember₁
  have hround₂ := readRound_header (r := ⟨[], ⟨none, none, some 7⟩, false, 0, true⟩) hblock₂ hread₂.checksum
    hread₂.nonzero hnumbers₂ (by decide) (by rw [hlen]; decide) (by decide) hmember₂
  have hround₃ : readRound overriding ⟨[⟨"a", 7, .file, 0o644, 0, "", []⟩], .default, false, 0, true⟩ 1536 =
      .ok (.inr [⟨"a", 7, .file, 0o644, 0, "", []⟩], 1536) := by
    rw [readRound, if_pos (by rw [hlen]; decide)]
    rfl
  rw [readTar, if_neg (by rw [hlen]; decide), Decoder.loop_continue hround₁]
  rw [show 0 + blockLen + (10 + 511) / 512 * 512 = 1024 from rfl, Decoder.loop_continue hround₂]
  rw [show 1024 + blockLen + (0 + 511) / 512 * 512 = 1536 from rfl, Decoder.loop_break hround₃]
  rfl

theorem consistent_overriding : ¬ Consistent overriding [⟨"a", 7, .file, 0o644, 0, "", []⟩] ∧
    ¬ ∀ r pos, Reached overriding r pos → SizeAgrees overriding r pos := by
  have hnot : ¬ Consistent overriding [⟨"a", 7, .file, 0o644, 0, "", []⟩] :=
    fun h => absurd (h.sizes _ List.mem_cons_self rfl).1 (by decide)
  exact ⟨hnot, fun h => hnot ((consistent_iff readTar_overriding).mpr h)⟩

/-- **A file of no bytes is reported as one of seven.** -/
theorem overriding_not_consistent :
    ¬ ∀ data entries, readTar data = .ok entries → Consistent data entries :=
  fun h => absurd ((h _ _ readTar_overriding).sizes _ List.mem_cons_self rfl).1 (by decide)

end AthenaOS.Tar
