import AthenaOS.Dns.Delegation
import AthenaOS.Dns.Message

/-!
# What a secure response says about its answers

The first pass keeps every answer record it can decode, the second one what the validator
works on. On a packet the first pass accepts they read the same records; only the
validator looks at owner and type.
-/

namespace AthenaOS

open Lib Dnssec

namespace Dns

/-! ## The records both passes read -/

/-- The records of a section. -/
def readRrs (data : List UInt8) : Nat → Nat → Option (List RawRr × Nat)
  | 0, offset => some ([], offset)
  | count + 1, offset => do
    let rr ← readRr data offset
    let (rrs, off) ← readRrs data count rr.next
    some (rr :: rrs, off)

/-- The questions and the answer records of a packet. -/
def answerSection (data : List UInt8) : Option (List (DnsName × UInt16) × List RawRr) := do
  let header ← DnsHeader.parse data
  let (questions, offset) ← readQuestions data header.qdCount.toNat 12
  let (rrs, _) ← readRrs data header.anCount.toNat offset
  some (questions, rrs)

/-- The first pass keeps the record as `record`. -/
def Decodes (data : List UInt8) (rr : RawRr) (record : DnsRecord) : Prop :=
  decodeRecord data rr = some (some record)

instance (data : List UInt8) (rr : RawRr) (record : DnsRecord) : Decidable (Decodes data rr record) :=
  inferInstanceAs (Decidable (_ = _))

/-- The owner and the type asked for. -/
def Asked (question : DnsName × DnsQueryType) (rr : RawRr) : Prop :=
  lower rr.name = lower question.1 ∧ rr.rtype = question.2.toU16

/-- Every answer record that is kept says what a record of the name and type asked for says. -/
def Clean (data : List UInt8) : Prop :=
  ∀ questions rrs, answerSection data = some (questions, rrs) → ∀ rr ∈ rrs, ∀ record,
    Decodes data rr record → ∃ rr' ∈ rrs, Asked (firstQuestion questions) rr' ∧ Decodes data rr' record

/-- The record is a decoded answer record whose canonical form is in the RRset the validator
verifies. -/
def Covered (data : List UInt8) (resp : DnsResponse) (record : DnsRecord) : Prop :=
  ∃ questions rrs, answerSection data = some (questions, rrs) ∧ ∃ rr ∈ rrs,
    (lower rr.name, rr.canonical data) ∈ coveredEntries resp ∧ Decodes data rr record

section Passes

variable {data : List UInt8} {count offset off : Nat} {rrs : List RawRr} {resp : DnsResponse}

/-- **The first pass.** -/
theorem parseRecordsWithTtl_eq {records : List DnsRecord} {ttls : List UInt32}
    (h : parseRecordsWithTtl data count offset = some (records, ttls, off)) :
    ∃ rrs, readRrs data count offset = some (rrs, off) ∧
      ∀ record, record ∈ records ↔ ∃ rr ∈ rrs, Decodes data rr record := by
  induction count generalizing offset records ttls off with
  | zero =>
    obtain ⟨rfl, rfl, rfl⟩ : records = [] ∧ ttls = [] ∧ off = offset := by
      simpa [parseRecordsWithTtl, eq_comm] using h
    exact ⟨[], rfl, fun record => by simp⟩
  | succ count ih =>
    simp only [parseRecordsWithTtl, Option.bind_eq_bind, Option.bind_eq_some_iff] at h
    obtain ⟨rr, hrr, record?, hrecord, ⟨records', ttls', off'⟩, hrest, h⟩ := h
    obtain ⟨rrs, hrrs, hmem⟩ := ih hrest
    have hread : readRrs data (count + 1) offset = some (rr :: rrs, off') := by
      simp only [readRrs, Option.bind_eq_bind, hrr, hrrs, Option.bind_some]
    cases record? with
    | none =>
      obtain ⟨rfl, rfl, rfl⟩ : records' = records ∧ ttls' = ttls ∧ off' = off := by simpa using h
      refine ⟨rr :: rrs, hread, fun record => (hmem record).trans ?_⟩
      have hnot : ¬ Decodes data rr record := fun hd => nomatch Option.some.inj (hrecord.symm.trans hd)
      simp only [List.mem_cons, exists_eq_or_imp, hnot, false_or]
    | some r =>
      obtain ⟨rfl, rfl, rfl⟩ : r :: records' = records ∧ rr.ttl :: ttls' = ttls ∧ off' = off := by
        simpa using h
      refine ⟨rr :: rrs, hread, fun record => ?_⟩
      have hfirst : Decodes data rr record ↔ record = r := by
        unfold Decodes
        rw [hrecord, Option.some.injEq, Option.some.injEq, eq_comm]
      simp only [List.mem_cons, exists_eq_or_imp, hfirst, hmem]

/-- **The second pass.** -/
theorem scanSection_eq {isAnswer : Bool} (h : readRrs data count offset = some (rrs, off))
    (found : DnssecRrs) : scanSection data isAnswer count offset found =
      (rrs.foldl (fun found rr => scanRr data isAnswer rr found) found, some off) := by
  induction count generalizing offset off rrs found with
  | zero =>
    obtain ⟨rfl, rfl⟩ : rrs = [] ∧ off = offset := by simpa [readRrs, eq_comm] using h
    rfl
  | succ count ih =>
    simp only [readRrs, Option.bind_eq_bind, Option.bind_eq_some_iff] at h
    obtain ⟨rr, hrr, ⟨rrs', off'⟩, hrest, h⟩ := h
    obtain ⟨rfl, rfl⟩ : rr :: rrs' = rrs ∧ off' = off := by simpa using h
    rw [scanSection, hrr]
    exact ih hrest _

/-- An answer record the second pass keeps as such. -/
def Kept (rr : RawRr) : Prop := rr.rtype ≠ 46 ∧ rr.rtype ≠ 48 ∧ rr.rtype ≠ 43

theorem answers_scanRr {isAnswer : Bool} (rr : RawRr) (found : DnssecRrs)
    (entry : DnsName × CanonicalRr) : entry ∈ (scanRr data isAnswer rr found).answers ↔
      entry ∈ found.answers ∨ (isAnswer = true ∧ Kept rr ∧ entry = (lower rr.name, rr.canonical data)) := by
  have htype : ∀ n : UInt16, rr.rtype.toNat = n.toNat ↔ rr.rtype = n := fun n => UInt16.toNat_inj
  unfold scanRr Kept
  dsimp only
  split
  · rename_i h
    have h : rr.rtype = 46 := (htype 46).mp h
    simp [h]
  · rename_i h
    have h : rr.rtype = 48 := (htype 48).mp h
    simp [h]
  · rename_i h
    have h : rr.rtype = 43 := (htype 43).mp h
    simp [h]
  · rename_i h46 h48 h43
    have hkept : rr.rtype ≠ 46 ∧ rr.rtype ≠ 48 ∧ rr.rtype ≠ 43 :=
      ⟨fun h => h46 ((htype 46).mpr h), fun h => h48 ((htype 48).mpr h), fun h => h43 ((htype 43).mpr h)⟩
    cases isAnswer with
    | true => simp [hkept]
    | false => simp

theorem answers_foldl {isAnswer : Bool} (rrs : List RawRr) (found : DnssecRrs)
    (entry : DnsName × CanonicalRr) :
    entry ∈ (rrs.foldl (fun found rr => scanRr data isAnswer rr found) found).answers ↔
      entry ∈ found.answers ∨ (isAnswer = true ∧
        ∃ rr ∈ rrs, Kept rr ∧ entry = (lower rr.name, rr.canonical data)) := by
  induction rrs generalizing found with
  | nil => simp
  | cons rr rrs ih =>
    rw [List.foldl_cons, ih, answers_scanRr]
    simp only [List.mem_cons, exists_eq_or_imp]
    tauto

/-- **The two passes agree** on a packet the first one accepts. -/
theorem parseResponse_eq (h : parseResponse data = some resp) :
    ∃ questions rrs, answerSection data = some (questions, rrs) ∧
      (resp.queryName, resp.queryType) = firstQuestion questions ∧
      (∀ record, record ∈ resp.answers ↔ ∃ rr ∈ rrs, Decodes data rr record) ∧
      ∀ entry, entry ∈ resp.answerCanonical ↔
        ∃ rr ∈ rrs, Kept rr ∧ entry = (lower rr.name, rr.canonical data) := by
  simp only [parseResponse, Option.bind_eq_bind, Option.bind_eq_some_iff] at h
  obtain ⟨header, hheader, h⟩ := h
  split at h
  · exact nomatch h
  · simp only [Option.bind_eq_some_iff] at h
    obtain ⟨⟨questions, offset⟩, hquestions, ⟨answers, answerTtls, off₁⟩, hanswers,
      ⟨authority, ttls₂, off₂⟩, hauthority, ⟨additional, ttls₃, off₃⟩, hadditional, h⟩ := h
    obtain ⟨rrs, hrrs, hmem⟩ := parseRecordsWithTtl_eq hanswers
    obtain ⟨rrs₂, hrrs₂, -⟩ := parseRecordsWithTtl_eq hauthority
    obtain ⟨rrs₃, hrrs₃, -⟩ := parseRecordsWithTtl_eq hadditional
    have hsection : answerSection data = some (questions, rrs) := by
      simp only [answerSection, Option.bind_eq_bind, hheader, hquestions, hrrs, Option.bind_some]
    have hscan : ∀ entry, entry ∈ (scanDnssecRrs data).answers ↔
        ∃ rr ∈ rrs, Kept rr ∧ entry = (lower rr.name, rr.canonical data) := fun entry => by
      -- no section ends early, and only the first one has answers
      unfold scanDnssecRrs
      rw [hheader]
      dsimp only
      rw [hquestions]
      dsimp only
      rw [scanNext, scanSection_eq hrrs, scanNext, scanSection_eq hrrs₂, scanNext, scanSection_eq hrrs₃,
        answers_foldl, answers_foldl, answers_foldl]
      simp
    obtain rfl := Option.some.inj h
    exact ⟨questions, rrs, hsection, rfl, hmem, hscan⟩

end Passes

/-! ## Secure answers -/

section Secure

variable {crypto : DnssecCrypto} {data : List UInt8} {resp : DnsResponse} {anchor : Ds} {now : UInt32}

theorem toU16_kept (q : DnsQueryType) : q.toU16 ≠ 46 ∧ q.toU16 ≠ 48 ∧ q.toU16 ≠ 43 := by
  cases q <;> decide

/-- The signature that is verified is that of the covered records. -/
theorem validateDnssec_secure (h : validateDnssec crypto resp anchor now = .secure) :
    ∃ key rrsig, verifyRrsig crypto rrsig key (lower resp.queryName) ((coveredEntries resp).map (·.2))
      = .secure := by
  unfold validateDnssec at h
  dsimp only at h
  split at h
  · exact nomatch h
  · split at h
    · exact nomatch h
    · split at h
      · exact nomatch h
      · split at h
        · exact nomatch h
        · obtain ⟨-, -, key, -, hanswer⟩ := validateHop_eq_secure h
          exact ⟨key, _, hanswer⟩

/-- **When the answers of a secure response are authenticated.** -/
theorem answers_covered_iff (hparse : parseResponse data = some resp)
    (hsecure : validateDnssec crypto resp anchor now = .secure) :
    (∃ key rrsig, verifyRrsig crypto rrsig key (lower resp.queryName) ((coveredEntries resp).map (·.2))
      = .secure) ∧
    ((∀ record ∈ resp.answers, Covered data resp record) ↔ Clean data) := by
  refine ⟨validateDnssec_secure hsecure, ?_⟩
  obtain ⟨questions, rrs, hsection, hquestion, hanswers, hcanonical⟩ := parseResponse_eq hparse
  obtain ⟨hname, htype⟩ : resp.queryName = (firstQuestion questions).1 ∧
      resp.queryType = (firstQuestion questions).2 := ⟨congrArg (·.1) hquestion, congrArg (·.2) hquestion⟩
  -- among the records of the packet, those asked for are those the validator takes
  have hcovered : ∀ rr ∈ rrs, Asked (firstQuestion questions) rr →
      (lower rr.name, rr.canonical data) ∈ coveredEntries resp := by
    rintro rr hrr ⟨hn, ht⟩
    refine List.mem_filter.mpr ⟨(hcanonical _).mpr ⟨rr, hrr, ?_, rfl⟩, ?_⟩
    · unfold Kept
      rw [ht]
      exact toU16_kept _
    · rw [Bool.and_eq_true, decide_eq_true_eq, decide_eq_true_eq, hname, htype]
      exact ⟨hn, ht⟩
  constructor
  · intro hall questions' rrs' hsection' rr hrr record hdecodes
    obtain ⟨rfl, rfl⟩ := Prod.mk.inj (Option.some.inj (hsection.symm.trans hsection'))
    obtain ⟨questions', rrs', hsection', rr', hrr', hentry, hdecodes'⟩ :=
      hall record ((hanswers record).mpr ⟨rr, hrr, hdecodes⟩)
    obtain ⟨rfl, rfl⟩ := Prod.mk.inj (Option.some.inj (hsection.symm.trans hsection'))
    have hfilter := (List.mem_filter.mp hentry).2
    rw [Bool.and_eq_true, decide_eq_true_eq, decide_eq_true_eq, hname, htype] at hfilter
    exact ⟨rr', hrr', hfilter, hdecodes'⟩
  · intro hclean record hrecord
    obtain ⟨rr, hrr, hdecodes⟩ := (hanswers record).mp hrecord
    obtain ⟨rr', hrr', hasked, hdecodes'⟩ := hclean questions rrs hsection rr hrr record hdecodes
    exact ⟨questions, rrs, hsection, rr', hrr', hcovered rr' hrr' hasked, hdecodes'⟩

end Secure

/-! ## A signed response with one record more -/

/-- The anchor of the zone `a`, whose key is the one of the signed root. -/
def zoneDs : Ds :=
  { rootDs with digest :=
  [86, 34, 227, 8, 25, 171, 49, 39, 49, 205, 248, 80, 101, 147, 101, 190, 110, 2, 234, 122,
   111, 142, 87, 13, 31, 206, 159, 44, 200, 95, 72, 51] }

/-- The Ed25519 signature of the key set of `a`. -/
def zoneKeysSignature : List UInt8 :=
  [127, 12, 232, 125, 193, 83, 43, 177, 218, 198, 127, 214, 71, 171, 62, 20, 253, 227, 60, 106,
   195, 55, 29, 3, 248, 160, 249, 243, 238, 53, 212, 17, 63, 31, 92, 59, 46, 77, 20, 129, 215,
   209, 131, 140, 84, 215, 49, 84, 0, 38, 213, 196, 224, 72, 132, 105, 122, 153, 96, 127, 60,
   187, 205, 0]

/-- The Ed25519 signature of the address of `a`. -/
def zoneAddressSignature : List UInt8 :=
  [188, 118, 155, 127, 58, 119, 76, 201, 14, 119, 207, 198, 63, 45, 81, 146, 226, 3, 1, 59,
   107, 33, 54, 78, 164, 39, 80, 74, 5, 7, 230, 236, 71, 80, 185, 89, 14, 20, 252, 144, 136,
   130, 115, 121, 122, 54, 200, 245, 56, 230, 145, 135, 199, 95, 125, 115, 250, 190, 84, 82,
   188, 177, 187, 1]

/-- A signature of the zone, valid from 1000 to 2000. -/
def zoneRrsig (typeCovered : UInt16) (signature : List UInt8) : Rrsig :=
  rrsigOf rootKey [97] typeCovered 1 signature

/-- RRSIG RDATA. -/
def rrsigRdata (rrsig : Rrsig) : List UInt8 :=
  be16 rrsig.typeCovered ++ [rrsig.algorithm, rrsig.labels] ++ be32 rrsig.originalTtl ++
  be32 rrsig.sigExpiration ++ be32 rrsig.sigInception ++ be16 rrsig.keyTag ++
  encodeNameCanonical rrsig.signerName ++ rrsig.signature

/-- A record on the wire. -/
def wireRr (owner : DnsName) (rtype : UInt16) (rdata : List UInt8) : List UInt8 :=
  encodeNameCanonical owner ++ be16 rtype ++ be16 1 ++ be32 300 ++ be16 (.ofNat rdata.length) ++ rdata

/-- The signed answers to the question for the address of `a`. -/
def signedAnswers : List UInt8 :=
  wireRr [97] 1 [10, 0, 0, 1] ++ wireRr [97] 46 (rrsigRdata (zoneRrsig 1 zoneAddressSignature)) ++
  wireRr [97] 48 (dnskeyRdata rootKey) ++ wireRr [97] 46 (rrsigRdata (zoneRrsig 48 zoneKeysSignature))

/-- A response with so many answers. -/
def response (count : UInt16) (answers : List UInt8) : List UInt8 :=
  be16 1 ++ be16 0x8180 ++ be16 1 ++ be16 count ++ be16 0 ++ be16 0 ++
  encodeNameCanonical [97] ++ be16 1 ++ be16 1 ++ answers

/-- The functions at the inputs that occur. -/
def zoneCrypto : DnssecCrypto where
  sha256 input :=
    if input = encodeNameCanonical [97] ++ dnskeyRdata rootKey then zoneDs.digest
    else input ++ List.replicate 33 0
  ed25519Verify pk data sig := pk = rootKey.publicKey &&
    ((data = dnssecSignedData (zoneRrsig 48 []) [97] (dnskeyCanonical [rootKey]) &&
        sig = zoneKeysSignature) ||
      (data = dnssecSignedData (zoneRrsig 1 []) [97] [address] && sig = zoneAddressSignature))
  p256Verify _ _ _ := false
  p384Verify _ _ _ := false
  rsaSha256Verify _ _ _ _ := false
  rsaSha512Verify _ _ _ _ := false

/-- The response as it should be. -/
theorem answers_covered_iff_signed : ∃ resp, parseResponse (response 4 signedAnswers) = some resp ∧
    (∃ key rrsig, verifyRrsig zoneCrypto rrsig key (lower resp.queryName)
      ((coveredEntries resp).map (·.2)) = .secure) ∧
    ((∀ record ∈ resp.answers, Covered (response 4 signedAnswers) resp record) ↔
      Clean (response 4 signedAnswers)) := by
  have hrun : (parseResponse (response 4 signedAnswers)).any
      (fun resp => validateDnssec zoneCrypto resp zoneDs 1500 = .secure) = true := by decide +kernel
  obtain ⟨resp, hparse, hsecure⟩ := (Option.any_eq_true _ _).mp hrun
  exact ⟨resp, hparse, answers_covered_iff hparse (of_decide_eq_true hsecure)⟩

/-- The response with an address of `b` among the answers. -/
def spoofed : List UInt8 := response 5 (signedAnswers ++ wireRr [98] 1 [6, 6, 6, 6])

/-- **Nobody has signed the address of `b`.** -/
theorem secure_with_foreign_answer :
    ¬ ∀ (crypto : DnssecCrypto) (data : List UInt8) (resp : DnsResponse) (anchor : Ds) (now : UInt32),
      parseResponse data = some resp → validateDnssec crypto resp anchor now = .secure →
      ∀ record ∈ resp.answers, Covered data resp record := by
  intro hall
  have hrun : (parseResponse spoofed).any (fun resp =>
      validateDnssec zoneCrypto resp zoneDs 1500 = .secure && DnsRecord.a [6, 6, 6, 6] ∈ resp.answers &&
      (answerSection spoofed).all fun p => p.2.all fun rr =>
        !(Decodes spoofed rr (.a [6, 6, 6, 6]) && (lower rr.name, rr.canonical spoofed) ∈ coveredEntries resp))
      = true := by decide +kernel
  obtain ⟨resp, hparse, hresp⟩ := (Option.any_eq_true _ _).mp hrun
  simp only [Bool.and_eq_true, decide_eq_true_eq] at hresp
  obtain ⟨⟨hsecure, hanswer⟩, hforeign⟩ := hresp
  obtain ⟨questions, rrs, hsection, rr, hrr, hentry, hdecodes⟩ :=
    hall zoneCrypto spoofed resp zoneDs 1500 hparse hsecure _ hanswer
  rw [hsection, Option.all_some, List.all_eq_true] at hforeign
  have hnot := hforeign rr hrr
  rw [decide_eq_true hdecodes, decide_eq_true hentry] at hnot
  exact nomatch hnot

end Dns

end AthenaOS
