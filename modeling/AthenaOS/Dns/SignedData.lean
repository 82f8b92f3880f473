import AthenaOS.Dns.Dnssec
import AthenaOS.Lib.PrefixCode

/-!
# What a signature says

The signed bytes of an RRset, and the digested bytes of a key, have one reading as long as
their lengths fit the fields they are stored in: labels below 256 bytes, RDATA below 65536.
-/

namespace AthenaOS

open Lib

namespace Dnssec

/-- The labels of a name, in lower case. -/
def nameLabels (name : DnsName) : List (List UInt8) := (splitLabels (trimEnd name)).map (·.map lowercase)

/-- Labels that fit their length byte. -/
def WireName (name : DnsName) : Prop := ∀ l ∈ nameLabels name, l.length < 256

/-- Names and RDATA that fit their length fields. -/
structure WireRrset (rrsig : Rrsig) (owner : DnsName) (rrset : List CanonicalRr) : Prop where
  signer : WireName rrsig.signerName
  owner : WireName owner
  rdata : ∀ rr ∈ rrset, rr.rdata.length < 65536

/-! ## Fields -/

theorem be16_inj {a b : UInt16} (h : be16 a = be16 b) : a = b := by
  simp only [be16, List.cons.injEq, and_true] at h
  obtain ⟨hhi, hlo⟩ := h
  have hhi := congrArg UInt8.toNat hhi
  have hlo := congrArg UInt8.toNat hlo
  simp at hhi hlo
  apply UInt16.toNat_inj.mp
  have ha := a.toNat_lt
  have hb := b.toNat_lt
  omega

theorem be32_inj {a b : UInt32} (h : be32 a = be32 b) : a = b := by
  simp only [be32, List.cons.injEq, and_true] at h
  obtain ⟨h₃, h₂, h₁, h₀⟩ := h
  have h₃ := congrArg UInt8.toNat h₃
  have h₂ := congrArg UInt8.toNat h₂
  have h₁ := congrArg UInt8.toNat h₁
  have h₀ := congrArg UInt8.toNat h₀
  simp at h₃ h₂ h₁ h₀
  apply UInt32.toNat_inj.mp
  have ha := a.toNat_lt
  have hb := b.toNat_lt
  omega

theorem be16_selfDelimiting : SelfDelimiting (fun _ => True) be16 :=
  .ofLength (n := 2) (fun _ _ => rfl) fun _ _ _ _ => be16_inj

theorem be32_selfDelimiting : SelfDelimiting (fun _ => True) be32 :=
  .ofLength (n := 4) (fun _ _ => rfl) fun _ _ _ _ => be32_inj

theorem byte_selfDelimiting : SelfDelimiting (fun _ => True) fun b : UInt8 => [b] :=
  .ofLength (n := 1) (fun _ _ => rfl) fun _ _ _ _ h => (List.cons.inj h).1

/-! ## Names -/

/-- A label on the wire. -/
def encodeLabel (label : List UInt8) : List UInt8 := UInt8.ofNat label.length :: label

/-- Labels up to an empty one. -/
def encodeLabels (labels : List (List UInt8)) : List UInt8 := labels.flatMap encodeLabel ++ [0]

theorem encodeNameCanonical_eq (name : DnsName) :
    encodeNameCanonical name = encodeLabels (nameLabels name) := by
  unfold encodeNameCanonical encodeLabels nameLabels
  rw [List.flatMap_map]
  congr 1
  refine List.flatMap_congr fun label _ => ?_
  rw [encodeLabel, List.length_map]

theorem ne_nil_of_mem_nameLabels {name : DnsName} {l : List UInt8} (h : l ∈ nameLabels name) : l ≠ [] := by
  obtain ⟨l', hl', rfl⟩ := List.mem_map.mp h
  have hne : l' ≠ [] := by simpa using (List.mem_filter.mp hl').2
  exact fun hmap => hne (List.map_eq_nil_iff.mp hmap)

theorem encodeLabels_selfDelimiting :
    SelfDelimiting (fun ls : List (List UInt8) => ∀ l ∈ ls, l ≠ [] ∧ l.length < 256) encodeLabels := by
  have hlen : SelfDelimiting (· < 256) fun n => [UInt8.ofNat n] := by
    refine .ofLength (n := 1) (fun _ _ => rfl) fun a b ha hb h => ?_
    have h := congrArg UInt8.toNat (List.cons.inj h).1
    rwa [UInt8.toNat_ofNat_of_lt' ha, UInt8.toNat_ofNat_of_lt' hb] at h
  have hlabel : SelfDelimiting (fun l : List UInt8 => l ≠ [] ∧ l.length < 256) encodeLabel :=
    hlen.ofPrefix.mono fun _ h => h.2
  refine hlabel.terminated fun l hl => ⟨_, _, rfl, fun hzero => ?_⟩
  have hzero := congrArg UInt8.toNat hzero
  rw [UInt8.toNat_ofNat_of_lt' hl.2] at hzero
  exact hl.1 (List.eq_nil_of_length_eq_zero hzero)

/-! ## Signed data -/

/-- A record as it is signed: owner, type, class, TTL, RDATA. -/
abbrev SignedRecord : Type := List (List UInt8) × UInt16 × UInt16 × UInt32 × List UInt8

def encodeRecord (r : SignedRecord) : List UInt8 :=
  encodeLabels r.1 ++ (be16 r.2.1 ++ (be16 r.2.2.1 ++ (be32 r.2.2.2.1 ++
    (be16 (UInt16.ofNat r.2.2.2.2.length) ++ r.2.2.2.2))))

def WireRecord (r : SignedRecord) : Prop :=
  (∀ l ∈ r.1, l ≠ [] ∧ l.length < 256) ∧ True ∧ True ∧ True ∧ r.2.2.2.2.length < 65536

theorem encodeRecord_selfDelimiting : SelfDelimiting WireRecord encodeRecord := by
  have hlen : SelfDelimiting (· < 65536) fun n => be16 (UInt16.ofNat n) := by
    refine .ofLength (n := 2) (fun _ _ => rfl) fun a b ha hb h => ?_
    have h := congrArg UInt16.toNat (be16_inj h)
    rwa [UInt16.toNat_ofNat_of_lt' ha, UInt16.toNat_ofNat_of_lt' hb] at h
  exact encodeLabels_selfDelimiting.append
    (be16_selfDelimiting.append (be16_selfDelimiting.append (be32_selfDelimiting.append hlen.ofPrefix)))

/-- The record that is signed for `rr`. -/
def signedRecord (owner : DnsName) (ttl : UInt32) (rr : CanonicalRr) : SignedRecord :=
  (nameLabels owner, rr.rtype, rr.rclass, ttl, rr.rdata)

/-- The fields of an RRSIG that are signed. -/
abbrev SignedHeader : Type :=
  UInt16 × UInt8 × UInt8 × UInt32 × UInt32 × UInt32 × UInt16 × List (List UInt8)

def signedHeader (rrsig : Rrsig) : SignedHeader :=
  (rrsig.typeCovered, rrsig.algorithm, rrsig.labels, rrsig.originalTtl, rrsig.sigExpiration,
    rrsig.sigInception, rrsig.keyTag, nameLabels rrsig.signerName)

def encodeHeader (h : SignedHeader) : List UInt8 :=
  be16 h.1 ++ ([h.2.1] ++ ([h.2.2.1] ++ (be32 h.2.2.2.1 ++ (be32 h.2.2.2.2.1 ++
    (be32 h.2.2.2.2.2.1 ++ (be16 h.2.2.2.2.2.2.1 ++ encodeLabels h.2.2.2.2.2.2.2))))))

theorem encodeHeader_selfDelimiting :
    SelfDelimiting (fun h : SignedHeader => ∀ l ∈ h.2.2.2.2.2.2.2, l ≠ [] ∧ l.length < 256)
      encodeHeader := by
  refine SelfDelimiting.mono (be16_selfDelimiting.append (byte_selfDelimiting.append
    (byte_selfDelimiting.append (be32_selfDelimiting.append (be32_selfDelimiting.append
    (be32_selfDelimiting.append (be16_selfDelimiting.append encodeLabels_selfDelimiting)))))))
    fun h hl => ⟨trivial, trivial, trivial, trivial, trivial, trivial, trivial, hl⟩

theorem dnssecSignedData_eq (rrsig : Rrsig) (owner : DnsName) (rrset : List CanonicalRr) :
    dnssecSignedData rrsig owner rrset = encodeHeader (signedHeader rrsig) ++
      ((rrset.insertionSort (rdataLe · ·)).map (signedRecord owner rrsig.originalTtl)).flatMap
        encodeRecord := by
  unfold dnssecSignedData encodeHeader signedHeader
  simp only [encodeNameCanonical_eq, List.append_assoc, List.flatMap_map]
  rfl

/-- **One reading.** Signed bytes determine the header, the records up to their order,
and, when there is a record, its owner. -/
theorem signedData_inj {rrsig rrsig' : Rrsig} {owner owner' : DnsName} {rrset rrset' : List CanonicalRr}
    (h : WireRrset rrsig owner rrset) (h' : WireRrset rrsig' owner' rrset')
    (heq : dnssecSignedData rrsig owner rrset = dnssecSignedData rrsig' owner' rrset') :
    signedHeader rrsig = signedHeader rrsig' ∧ rrset.Perm rrset' ∧
      (rrset ≠ [] → nameLabels owner = nameLabels owner') := by
  have hwire : ∀ {name : DnsName}, WireName name → ∀ l ∈ nameLabels name, l ≠ [] ∧ l.length < 256 :=
    fun hname l hl => ⟨ne_nil_of_mem_nameLabels hl, hname l hl⟩
  have hrecords : ∀ {rrsig : Rrsig} {owner : DnsName} {rrset : List CanonicalRr},
      WireRrset rrsig owner rrset →
      ∀ r ∈ (rrset.insertionSort (rdataLe · ·)).map (signedRecord owner rrsig.originalTtl),
        WireRecord r := by
    intro rrsig owner rrset hw r hr
    obtain ⟨rr, hrr, rfl⟩ := List.mem_map.mp hr
    exact ⟨hwire hw.owner, trivial, trivial, trivial,
      hw.rdata rr ((List.perm_insertionSort _ _).mem_iff.mp hrr)⟩
  rw [dnssecSignedData_eq, dnssecSignedData_eq] at heq
  obtain ⟨hheader, hrest⟩ := encodeHeader_selfDelimiting _ _ _ _ (hwire h.signer) (hwire h'.signer) heq
  have hlist := encodeRecord_selfDelimiting.flatMap_inj (fun r _ => ?_) (hrecords h) (hrecords h') hrest
  · have hrr : rrset.insertionSort (rdataLe · ·) = rrset'.insertionSort (rdataLe · ·) := by
      have hparts := congrArg (List.map fun r : SignedRecord =>
        (⟨r.2.1, r.2.2.1, r.2.2.2.2⟩ : CanonicalRr)) hlist
      simpa only [List.map_map, Function.comp_def, signedRecord, List.map_id'] using hparts
    have hperm : rrset.Perm rrset' :=
      (List.perm_insertionSort _ rrset).symm.trans (hrr ▸ List.perm_insertionSort _ rrset')
    refine ⟨hheader, hperm, fun hne => ?_⟩
    cases hs : rrset.insertionSort (rdataLe · ·) with
    | nil => exact absurd ((hs ▸ List.perm_insertionSort _ rrset).nil_eq).symm hne
    | cons rr rest =>
      rw [← hrr, hs, List.map_cons, List.map_cons] at hlist
      exact congrArg (·.1) (List.cons.inj hlist).1
  · -- an encoded record ends its owner, at least
    unfold encodeRecord encodeLabels
    simp

/-! ## Digests -/

theorem dnskeyRdata_inj {k k' : Dnskey} (h : dnskeyRdata k = dnskeyRdata k') : k = k' := by
  obtain ⟨flags, protocol, algorithm, publicKey⟩ := k
  obtain ⟨flags', protocol', algorithm', publicKey'⟩ := k'
  simp only [dnskeyRdata, be16, List.cons_append, List.nil_append, List.cons.injEq] at h
  obtain ⟨hhi, hlo, rfl, rfl, rfl⟩ := h
  have hflags : be16 flags = be16 flags' := by rw [be16, be16, hhi, hlo]
  rw [be16_inj hflags]

/-- **The digested bytes determine the zone and the key.** -/
theorem digestInput_inj {zone zone' : DnsName} {k k' : Dnskey} (hz : WireName zone)
    (hz' : WireName zone')
    (h : encodeNameCanonical zone ++ dnskeyRdata k = encodeNameCanonical zone' ++ dnskeyRdata k') :
    nameLabels zone = nameLabels zone' ∧ k = k' := by
  rw [encodeNameCanonical_eq, encodeNameCanonical_eq] at h
  obtain ⟨hlabels, hrdata⟩ := encodeLabels_selfDelimiting _ _ _ _
    (fun l hl => ⟨ne_nil_of_mem_nameLabels hl, hz l hl⟩)
    (fun l hl => ⟨ne_nil_of_mem_nameLabels hl, hz' l hl⟩) h
  exact ⟨hlabels, dnskeyRdata_inj hrdata⟩

end Dnssec

end AthenaOS
