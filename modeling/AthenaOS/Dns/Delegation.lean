import AthenaOS.Dns.Names

/-!
# The delegation walk is fail-closed

A `Secure` answer comes with a chain of zones from the root to the zone that signed it,
whatever the fetcher hands over.
-/

namespace AthenaOS

open Lib Dnssec

/-- The cryptography as the validator relies on it: `Signed algorithm publicKey data`
says that the holder of the key has signed the bytes. -/
structure DnssecCrypto.Sound (crypto : DnssecCrypto)
    (Signed : DnssecAlgorithm → List UInt8 → List UInt8 → Prop) : Prop where
  sha256 : Function.Injective crypto.sha256
  ed25519 : ∀ pk data sig, crypto.ed25519Verify pk data sig = true → Signed .ed25519 pk data
  p256 : ∀ pk data sig, crypto.p256Verify pk data sig = true → Signed .ecdsaP256Sha256 pk data
  p384 : ∀ pk data sig, crypto.p384Verify pk data sig = true → Signed .ecdsaP384Sha384 pk data
  rsaSha256 : ∀ pk exponent modulus data sig, rsaKey pk = some (exponent, modulus) →
    crypto.rsaSha256Verify modulus exponent data sig = true → Signed .rsaSha256 pk data
  rsaSha512 : ∀ pk exponent modulus data sig, rsaKey pk = some (exponent, modulus) →
    crypto.rsaSha512Verify modulus exponent data sig = true → Signed .rsaSha512 pk data

namespace Dnssec

/-! ## Links -/

section Links

variable (crypto : DnssecCrypto) (Signed : DnssecAlgorithm → List UInt8 → List UInt8 → Prop)
variable (now : UInt32)

/-- The key has signed the records, of one type and owner, and the signature is inside its
window. -/
structure SignedAs (key : Dnskey) (owner : DnsName) (rtype : UInt16) (rrset : List CanonicalRr)
    (rrsig : Rrsig) : Prop where
  covers : ∃ algorithm, DnssecAlgorithm.fromU8 key.algorithm = some algorithm ∧
    Signed algorithm key.publicKey (dnssecSignedData rrsig owner rrset)
  typed : ∀ rr ∈ rrset, rr.rtype = rtype
  /-- The signed bytes are those of no other records and no other owner. -/
  exactly : ∀ rrsig' owner' rrset', WireRrset rrsig owner rrset → WireRrset rrsig' owner' rrset' →
    dnssecSignedData rrsig owner rrset = dnssecSignedData rrsig' owner' rrset' →
    rrset.Perm rrset' ∧ (rrset ≠ [] → nameLabels owner = nameLabels owner')
  since : (now - rrsig.sigInception).toNat < 2 ^ 31
  before : (rrsig.sigExpiration - now).toNat < 2 ^ 31

/-- The DS record names this key of this zone. -/
structure Confirms (ds : Ds) (zone : DnsName) (key : Dnskey) : Prop where
  keyTag : ds.keyTag = dnskeyKeyTag key
  algorithm : ds.algorithm = key.algorithm
  digestType : ds.digestType = 2
  digest : crypto.sha256 (encodeNameCanonical zone ++ dnskeyRdata key) = ds.digest
  /-- The digest is that of no other key and no other zone. -/
  exactly : ∀ zone' key', WireName zone → WireName zone' →
    crypto.sha256 (encodeNameCanonical zone' ++ dnskeyRdata key') = ds.digest →
    nameLabels zone = nameLabels zone' ∧ key = key'

/-- A zone and its DNSKEY set. -/
structure ZoneKeys where
  zone : DnsName
  keys : List Dnskey

/-- One of the trusted DS records confirms a key that has signed the set. -/
def TrustedKeys (trusted : List Ds) (z : ZoneKeys) : Prop :=
  ∃ ds ∈ trusted, ∃ ksk ∈ z.keys, Confirms crypto ds z.zone ksk ∧
    ∃ rrsig, SignedAs Signed now ksk z.zone 48 (dnskeyCanonical z.keys) rrsig

/-- Each zone's keys are trusted by DS records the zone before has signed. -/
def Delegated : List Ds → List ZoneKeys → Prop
  | _, [] => False
  | trusted, [z] => TrustedKeys crypto Signed now trusted z
  | trusted, z :: child :: rest => TrustedKeys crypto Signed now trusted z ∧
    ∃ dss, (∃ key ∈ z.keys, ∃ rrsig, SignedAs Signed now key child.zone 43 (dsCanonical dss) rrsig) ∧
      Delegated dss (child :: rest)

end Links

/-! ## Checks that succeed -/

section Checks

variable {crypto : DnssecCrypto} {Signed : DnssecAlgorithm → List UInt8 → List UInt8 → Prop}
variable {now : UInt32} {rrsig answerRrsig dnskeyRrsig : Rrsig} {key : Dnskey} {owner zone : DnsName}
variable {rrset : List CanonicalRr} {keys : List Dnskey} {anchors : List Ds}

theorem statusOf_secure {ok : Bool} (h : statusOf ok = .secure) : ok = true := by
  cases ok with
  | true => rfl
  | false => exact nomatch h

/-- A signature that verifies is one of the key. -/
theorem verifyRrsig_secure (hsound : crypto.Sound Signed)
    (h : verifyRrsig crypto rrsig key owner rrset = .secure) :
    ∃ algorithm, DnssecAlgorithm.fromU8 key.algorithm = some algorithm ∧
      Signed algorithm key.publicKey (dnssecSignedData rrsig owner rrset) := by
  unfold verifyRrsig at h
  split at h
  · exact nomatch h
  · rename_i halg
    rw [ne_eq, Decidable.not_not] at halg
    rw [← halg]
    dsimp only at h
    split at h
    · rename_i hfrom
      refine ⟨.ed25519, hfrom, ?_⟩
      split at h
      · exact nomatch h
      · exact hsound.ed25519 _ _ _ (statusOf_secure h)
    · rename_i hfrom
      exact ⟨.ecdsaP256Sha256, hfrom, hsound.p256 _ _ _ (statusOf_secure h)⟩
    · rename_i hfrom
      refine ⟨.rsaSha256, hfrom, ?_⟩
      split at h
      · exact nomatch h
      · rename_i hkey
        exact hsound.rsaSha256 _ _ _ _ _ hkey (statusOf_secure h)
    · rename_i hfrom
      refine ⟨.rsaSha512, hfrom, ?_⟩
      split at h
      · exact nomatch h
      · rename_i hkey
        exact hsound.rsaSha512 _ _ _ _ _ hkey (statusOf_secure h)
    · rename_i hfrom
      exact ⟨.ecdsaP384Sha384, hfrom, hsound.p384 _ _ _ (statusOf_secure h)⟩
    · exact nomatch h

/-- The window, without the circle. -/
theorem rrsigTimeValid_iff : rrsigTimeValid rrsig now = true ↔
    (now - rrsig.sigInception).toNat < 2 ^ 31 ∧ (rrsig.sigExpiration - now).toNat < 2 ^ 31 := by
  unfold rrsigTimeValid
  rw [Bool.and_eq_true, decide_eq_true_eq, decide_eq_true_eq, UInt32.lt_iff_toNat_lt,
    UInt32.lt_iff_toNat_lt]
  exact Iff.rfl

theorem signedAs_of_secure (hsound : crypto.Sound Signed)
    (h : verifyRrsig crypto rrsig key owner rrset = .secure) (htime : rrsigTimeValid rrsig now = true)
    {rtype : UInt16} (htype : ∀ rr ∈ rrset, rr.rtype = rtype) :
    SignedAs Signed now key owner rtype rrset rrsig where
  covers := verifyRrsig_secure hsound h
  typed := htype
  exactly _ _ _ hw hw' heq := (signedData_inj hw hw' heq).2
  since := (rrsigTimeValid_iff.mp htime).1
  before := (rrsigTimeValid_iff.mp htime).2

/-- A DS record that verifies names the key. -/
theorem confirms_of_verifyDs (hsound : crypto.Sound Signed) {ds : Ds}
    (h : verifyDs crypto ds key zone = true) : Confirms crypto ds zone key := by
  unfold verifyDs at h
  split at h
  · exact nomatch h
  · rename_i hkey
    split at h
    · exact nomatch h
    · rename_i hdigest
      rw [not_or, ne_eq, ne_eq, Decidable.not_not, Decidable.not_not] at hkey hdigest
      have hdigest' := of_decide_eq_true h
      refine ⟨hkey.1, hkey.2, hdigest.1, hdigest', fun zone' key' hz hz' heq => ?_⟩
      exact digestInput_inj hz hz' (hsound.sha256 (hdigest'.trans heq.symm))

/-- The first loop finds a key that an anchor confirms. -/
theorem confirmKsk_some {pairs : List (Ds × Dnskey)} {bad bad' : Bool}
    (h : confirmKsk crypto zone pairs bad = (some key, bad')) :
    ∃ ds, (ds, key) ∈ pairs ∧ verifyDs crypto ds key zone = true := by
  induction pairs generalizing bad with
  | nil => exact nomatch h
  | cons p rest ih =>
    obtain ⟨anchor, k⟩ := p
    have hrest : ∀ {bad : Bool}, confirmKsk crypto zone rest bad = (some key, bad') →
        ∃ ds, (ds, key) ∈ (anchor, k) :: rest ∧ verifyDs crypto ds key zone = true := fun h => by
      obtain ⟨ds, hmem, hds⟩ := ih h
      exact ⟨ds, List.mem_cons_of_mem _ hmem, hds⟩
    unfold confirmKsk at h
    split at h
    · split at h
      · rename_i hds
        obtain rfl : k = key := Option.some.inj (Prod.mk.inj h).1
        exact ⟨anchor, List.mem_cons_self, hds⟩
      · exact hrest h
    · exact hrest h

/-- The second loop accepts only a signature that verifies: a verdict carried along is
never `Secure`. -/
theorem verifyAnswer_secure {sawZsk : Bool} {verdict : DnssecStatus} (hverdict : verdict ≠ .secure)
    (h : verifyAnswer crypto owner rrset rrsig keys sawZsk verdict = .secure) :
    ∃ key ∈ keys, verifyRrsig crypto rrsig key owner rrset = .secure := by
  induction keys generalizing sawZsk verdict with
  | nil =>
    unfold verifyAnswer at h
    split at h
    · exact absurd h hverdict
    · exact nomatch h
  | cons k rest ih =>
    have hrest : ∀ {sawZsk : Bool} {verdict : DnssecStatus}, verdict ≠ .secure →
        verifyAnswer crypto owner rrset rrsig rest sawZsk verdict = .secure →
        ∃ key ∈ k :: rest, verifyRrsig crypto rrsig key owner rrset = .secure := fun hv h => by
      obtain ⟨key, hmem, hkey⟩ := ih hv h
      exact ⟨key, List.mem_cons_of_mem _ hmem, hkey⟩
    unfold verifyAnswer at h
    split at h
    · split at h
      · rename_i hkey
        exact ⟨k, List.mem_cons_self, hkey⟩
      · exact hrest (by decide) h
      · exact hrest (by decide) h
    · exact hrest hverdict h

/-- What a hop that succeeds has checked. -/
theorem validateHop_eq_secure
    (h : validateHop crypto anchors zone keys dnskeyRrsig owner rrset answerRrsig now = .secure) :
    (∃ ds ∈ anchors, ∃ ksk ∈ keys, verifyDs crypto ds ksk zone = true ∧
      rrsigTimeValid dnskeyRrsig now = true ∧
      verifyRrsig crypto dnskeyRrsig ksk zone (dnskeyCanonical keys) = .secure) ∧
    rrsigTimeValid answerRrsig now = true ∧
    ∃ key ∈ keys, verifyRrsig crypto answerRrsig key owner rrset = .secure := by
  unfold validateHop at h
  split at h
  · split at h <;> exact nomatch h
  · rename_i ksk bad hconfirm
    obtain ⟨ds, hpair, hds⟩ := confirmKsk_some hconfirm
    obtain ⟨a, ha, hmap⟩ := List.mem_flatMap.mp hpair
    obtain ⟨k, hk, heq⟩ := List.mem_map.mp hmap
    obtain ⟨rfl, rfl⟩ := Prod.mk.inj heq
    split at h
    · exact nomatch h
    · rename_i htime
      rw [Bool.not_eq_true, Bool.not_eq_false'] at htime
      split at h
      · rename_i hverify
        refine ⟨⟨a, ha, k, hk, hds, htime, hverify⟩, ?_⟩
        split at h
        · exact nomatch h
        · rename_i htime'
          rw [Bool.not_eq_true, Bool.not_eq_false'] at htime'
          exact ⟨htime', verifyAnswer_secure (by decide) h⟩
      · exact nomatch h
      · exact nomatch h

/-- **A hop that succeeds**: the keys are trusted, and one of them has signed the answer. -/
theorem validateHop_secure (hsound : crypto.Sound Signed) {rtype : UInt16}
    (htype : ∀ rr ∈ rrset, rr.rtype = rtype)
    (h : validateHop crypto anchors zone keys dnskeyRrsig owner rrset answerRrsig now = .secure) :
    TrustedKeys crypto Signed now anchors ⟨zone, keys⟩ ∧
      ∃ key ∈ keys, SignedAs Signed now key owner rtype rrset answerRrsig := by
  obtain ⟨⟨ds, hds, ksk, hksk, hconfirm, htime, hverify⟩, htime', key, hkey, hanswer⟩ :=
    validateHop_eq_secure h
  have hkeys : ∀ rr ∈ dnskeyCanonical keys, rr.rtype = 48 := fun rr hrr => by
    obtain ⟨k', -, rfl⟩ := List.mem_map.mp hrr
    rfl
  refine ⟨⟨ds, hds, ksk, hksk, confirms_of_verifyDs hsound hconfirm, dnskeyRrsig, ?_⟩, key, hkey, ?_⟩
  · exact signedAs_of_secure hsound hverify htime hkeys
  · exact signedAs_of_secure hsound hanswer htime' htype

end Checks

/-! ## The walk -/

section Walk

variable {crypto : DnssecCrypto} {Signed : DnssecAlgorithm → List UInt8 → List UInt8 → Prop}
variable {fetcher : DnssecFetcher} {owner : DnsName} {answerRrset : List CanonicalRr}
variable {answerRrsig : Rrsig} {now : UInt32} {qtype : UInt16}

/-- The hops from a trusted set of DS records on. -/
theorem walk_secure (hsound : crypto.Sound Signed) (htype : ∀ rr ∈ answerRrset, rr.rtype = qtype)
    {zones : List DnsName} {trusted : List Ds}
    (h : walk crypto fetcher owner answerRrset answerRrsig now trusted zones = .secure) :
    ∃ links : List ZoneKeys, links.map (·.zone) = zones ∧ Delegated crypto Signed now trusted links ∧
      ∃ z, links.getLast? = some z ∧
        ∃ key ∈ z.keys, SignedAs Signed now key owner qtype answerRrset answerRrsig := by
  induction zones generalizing trusted with
  | nil => exact nomatch h
  | cons zone rest ih =>
    unfold walk at h
    split at h
    · exact nomatch h
    · rename_i keys dnskeyRrsig hkeys
      split at h
      · -- the zone of the answer
        obtain ⟨htrusted, hanswer⟩ := validateHop_secure hsound htype h
        exact ⟨[⟨zone, keys⟩], rfl, htrusted, ⟨zone, keys⟩, rfl, hanswer⟩
      · rename_i childZone rest
        split at h
        · exact nomatch h
        · rename_i childDs dsRrsig hds
          split at h
          · rename_i hhop
            have hdsType : ∀ rr ∈ dsCanonical childDs, rr.rtype = 43 := fun rr hrr => by
              obtain ⟨d, -, rfl⟩ := List.mem_map.mp hrr
              rfl
            obtain ⟨htrusted, key, hkey, hsigned⟩ := validateHop_secure hsound hdsType hhop
            obtain ⟨links, hlinks, hdelegated, z, hlast, hanswer⟩ := ih h
            cases links with
            | nil => exact hdelegated.elim
            | cons child links =>
              obtain rfl : child.zone = childZone := (List.cons.inj hlinks).1
              refine ⟨⟨zone, keys⟩ :: child :: links, by rw [List.map_cons, hlinks],
                ⟨htrusted, childDs, ⟨key, hkey, dsRrsig, hsigned⟩, hdelegated⟩, z, ?_, hanswer⟩
              rw [List.getLast?_cons_cons, hlast]
          · rename_i hother
            exact absurd h hother

/-- The bytes that are signed do not depend on how the owner is spelled. -/
theorem SignedAs.ofLower {key : Dnskey}
    (h : SignedAs Signed now key ((trimEnd owner).map lowercase) qtype answerRrset answerRrsig) :
    SignedAs Signed now key owner qtype answerRrset answerRrsig := by
  have hlabels := nameLabels_lower owner
  have hdata : dnssecSignedData answerRrsig ((trimEnd owner).map lowercase) answerRrset
      = dnssecSignedData answerRrsig owner answerRrset := by
    unfold dnssecSignedData
    rw [show encodeNameCanonical ((trimEnd owner).map lowercase) = encodeNameCanonical owner by
      rw [encodeNameCanonical_eq, encodeNameCanonical_eq, hlabels]]
  exact ⟨hdata ▸ h.covers, h.typed, fun _ _ _ hw hw' heq => (signedData_inj hw hw' heq).2, h.since,
    h.before⟩

/-- **`Secure` means a chain of trust.** Zones lead from the root to the signer of the
answer, which is the owner or above it; the keys of each are confirmed by DS records the
keys before have signed, the first ones by the anchor; and a key of the last zone has
signed the answer. -/
theorem delegated_of_secure (hsound : crypto.Sound Signed) {rootAnchor : Ds}
    (hsecure : validateWithDelegation crypto fetcher owner answerRrset answerRrsig now rootAnchor qtype
      = .secure) :
    ∃ links : List ZoneKeys, ZonePath (links.map (·.zone)) answerRrsig.signerName ∧
      nameLabels answerRrsig.signerName <:+ nameLabels owner ∧
      Delegated crypto Signed now [rootAnchor] links ∧
      answerRrsig.typeCovered = qtype ∧ ∃ z, links.getLast? = some z ∧
        ∃ key ∈ z.keys, SignedAs Signed now key owner qtype answerRrset answerRrsig := by
  unfold validateWithDelegation at hsecure
  split at hsecure
  · exact nomatch hsecure
  · rename_i htypes
    rw [not_or, ne_eq, Decidable.not_not] at htypes
    obtain ⟨hcovered, htypes⟩ := htypes
    have htype : ∀ rr ∈ answerRrset, rr.rtype = qtype := fun rr hrr => by
      by_contra hne
      exact htypes (List.any_eq_true.mpr ⟨rr, hrr, decide_eq_true hne⟩)
    dsimp only at hsecure
    split at hsecure
    · exact nomatch hsecure
    · rename_i hzone
      rw [Bool.not_eq_true, Bool.not_eq_false'] at hzone
      simp only [Bool.or_eq_true, decide_eq_true_eq, List.isSuffixOf_iff_suffix] at hzone
      obtain ⟨links, hlinks, hdelegated, z, hlast, key, hkey, hsigned⟩ := walk_secure hsound htype hsecure
      have hpath := zonePath_zoneChain ((trimEnd answerRrsig.signerName).map lowercase)
      have habove : nameLabels answerRrsig.signerName <:+ nameLabels owner := by
        rw [← nameLabels_lower answerRrsig.signerName, ← nameLabels_lower owner]
        rcases hzone with (hroot | hsame) | hbelow
        · rw [hroot]
          exact List.nil_suffix
        · rw [hsame]
        · exact nameLabels_suffix hbelow
      refine ⟨links, ?_, habove, hdelegated, hcovered, z, hlast, key, hkey, hsigned.ofLower⟩
      rw [hlinks]
      obtain ⟨hroot, hstep, last, hget, hname⟩ := hpath
      exact ⟨hroot, hstep, last, hget, hname.trans (nameLabels_lower answerRrsig.signerName)⟩

end Walk

/-! ## A signed root and a zone below it -/

/-- A key of a zone. -/
def ed25519Key (publicKey : List UInt8) : Dnskey where
  flags := 257
  protocol := 3
  algorithm := 15
  publicKey := publicKey

/-- The one key of the root. -/
def rootKey : Dnskey := ed25519Key
  [215, 90, 152, 1, 130, 177, 10, 183, 213, 75, 254, 211, 201, 100, 7, 58, 14, 225, 114, 243, 218,
   166, 35, 37, 175, 2, 26, 104, 247, 7, 81, 26]

/-- The one key of the zone `a`. -/
def zoneKey : Dnskey := ed25519Key
  [61, 64, 23, 195, 232, 67, 137, 90, 146, 183, 10, 167, 77, 27, 126, 188, 156, 152, 44, 207, 46,
   196, 150, 140, 192, 205, 85, 241, 42, 244, 102, 12]

/-- The anchor, with the SHA-256 digest of the root's key. -/
def rootDs : Ds where
  keyTag := 14017
  algorithm := 15
  digestType := 2
  digest :=
    [114, 96, 51, 189, 102, 70, 214, 41, 147, 180, 16, 119, 24, 134, 192, 97, 104, 194, 2, 194,
     54, 201, 48, 225, 40, 148, 174, 40, 74, 253, 127, 170]

/-- The DS record of `a`. -/
def delegationDs : Ds where
  keyTag := 27232
  algorithm := 15
  digestType := 2
  digest :=
    [17, 186, 59, 133, 46, 196, 95, 75, 111, 95, 204, 51, 250, 165, 178, 118, 124, 111, 253, 102,
     112, 56, 47, 168, 28, 213, 89, 39, 174, 11, 181, 122]

/-- A signature, valid from 1000 to 2000. -/
def rrsigOf (key : Dnskey) (signerName : DnsName) (typeCovered : UInt16) (labels : UInt8)
    (signature : List UInt8) : Rrsig where
  typeCovered := typeCovered
  algorithm := 15
  labels := labels
  originalTtl := 300
  sigExpiration := 2000
  sigInception := 1000
  keyTag := dnskeyKeyTag key
  signerName := signerName
  signature := signature

/-- The root's signature of its key set. -/
def keysRrsig : Rrsig := rrsigOf rootKey [] 48 0
  [51, 22, 122, 153, 233, 25, 188, 128, 7, 162, 48, 135, 34, 244, 37, 110, 122, 29, 208, 6, 132,
   71, 126, 254, 167, 60, 73, 91, 14, 193, 86, 94, 12, 12, 58, 35, 207, 126, 148, 133, 205, 93,
   97, 215, 241, 201, 230, 84, 69, 99, 72, 76, 115, 220, 210, 34, 209, 192, 77, 79, 156, 83, 165,
   5]

/-- The root's signature of the DS record. -/
def delegationRrsig : Rrsig := rrsigOf rootKey [] 43 1
  [50, 31, 251, 252, 1, 46, 65, 155, 229, 67, 108, 141, 228, 188, 202, 21, 65, 140, 155, 130, 113,
   4, 189, 70, 54, 190, 169, 188, 69, 145, 9, 209, 134, 235, 157, 252, 54, 1, 229, 130, 123, 106,
   55, 91, 185, 58, 216, 158, 143, 240, 89, 248, 31, 99, 210, 68, 217, 179, 244, 108, 122, 12, 56,
   10]

/-- The signature of `a` of its key set. -/
def zoneKeysRrsig : Rrsig := rrsigOf zoneKey [97] 48 1
  [242, 59, 61, 105, 54, 212, 5, 120, 201, 240, 106, 18, 49, 22, 236, 4, 99, 197, 63, 116, 48,
   106, 213, 142, 114, 107, 125, 81, 204, 230, 109, 234, 134, 118, 27, 192, 76, 167, 208, 222,
   114, 98, 207, 200, 190, 29, 228, 181, 253, 179, 81, 113, 59, 217, 148, 207, 86, 57, 152, 114,
   221, 203, 213, 5]

/-- The signature of `a` of the address of `w.a`. -/
def addressRrsig : Rrsig := rrsigOf zoneKey [97] 1 2
  [9, 181, 105, 78, 0, 163, 98, 27, 71, 144, 169, 19, 229, 17, 64, 122, 126, 183, 71, 178, 33,
   100, 143, 23, 222, 10, 195, 128, 7, 250, 117, 183, 85, 153, 42, 140, 189, 22, 145, 51, 39, 180,
   148, 194, 65, 141, 95, 30, 157, 25, 239, 80, 82, 161, 11, 142, 195, 121, 207, 252, 192, 36,
   123, 2]

/-- An address. -/
def address : CanonicalRr := ⟨1, 1, [10, 0, 0, 1]⟩

/-- The signed bytes with their keys and signatures. -/
def signatures : List (Dnskey × List UInt8 × List UInt8) :=
  [(rootKey, dnssecSignedData keysRrsig [] (dnskeyCanonical [rootKey]), keysRrsig.signature),
    (rootKey, dnssecSignedData delegationRrsig [97] (dsCanonical [delegationDs]),
      delegationRrsig.signature),
    (zoneKey, dnssecSignedData zoneKeysRrsig [97] (dnskeyCanonical [zoneKey]),
      zoneKeysRrsig.signature),
    (zoneKey, dnssecSignedData addressRrsig [119, 46, 97] [address], addressRrsig.signature)]

/-- What the keys have signed. -/
def hopSigned (algorithm : DnssecAlgorithm) (pk data : List UInt8) : Prop :=
  algorithm = .ed25519 ∧ ∃ s ∈ signatures, s.1.publicKey = pk ∧ s.2.1 = data

/-- The functions at the inputs that occur. -/
def hopCrypto : DnssecCrypto where
  sha256 input :=
    if input = encodeNameCanonical [] ++ dnskeyRdata rootKey then rootDs.digest
    else if input = encodeNameCanonical [97] ++ dnskeyRdata zoneKey then delegationDs.digest
    else input ++ List.replicate 33 0
  ed25519Verify pk data sig :=
    signatures.any fun s => s.1.publicKey = pk && s.2.1 = data && s.2.2 = sig
  p256Verify _ _ _ := false
  p384Verify _ _ _ := false
  rsaSha256Verify _ _ _ _ := false
  rsaSha512Verify _ _ _ _ := false

theorem hopCrypto_sound : hopCrypto.Sound hopSigned where
  sha256 a b h := by
    have hne : ∀ {digest : List UInt8}, digest.length = 32 →
        ∀ c : List UInt8, digest ≠ c ++ List.replicate 33 0 := fun hlen c heq => by
      rw [heq, List.length_append, List.length_replicate] at hlen
      omega
    have hroot : rootDs.digest.length = 32 := rfl
    have hzone : delegationDs.digest.length = 32 := rfl
    have hdigests : rootDs.digest ≠ delegationDs.digest := by decide
    unfold hopCrypto at h
    dsimp only at h
    split at h <;> rename_i ha
    · split at h <;> rename_i hb
      · exact ha.trans hb.symm
      · split at h
        · exact absurd h hdigests
        · exact absurd h (hne hroot b)
    · split at h <;> rename_i ha'
      · split at h
        · exact absurd h.symm hdigests
        · split at h <;> rename_i hb
          · exact ha'.trans hb.symm
          · exact absurd h (hne hzone b)
      · split at h
        · exact absurd h.symm (hne hroot a)
        · split at h
          · exact absurd h.symm (hne hzone a)
          · exact List.append_cancel_right h
  ed25519 pk data sig h := by
    obtain ⟨s, hs, hcheck⟩ := List.any_eq_true.mp h
    simp only [Bool.and_eq_true, decide_eq_true_eq] at hcheck
    exact ⟨rfl, s, hs, hcheck.1⟩
  p256 _ _ _ h := nomatch h
  p384 _ _ _ h := nomatch h
  rsaSha256 _ _ _ _ _ _ h := nomatch h
  rsaSha512 _ _ _ _ _ _ h := nomatch h

/-- The key sets of the root and of `a`, and the DS record between them. -/
def hopFetcher : DnssecFetcher where
  fetchDnskeys zone :=
    if zone = [] then some ([rootKey], keysRrsig)
    else if zone = [97] then some ([zoneKey], zoneKeysRrsig) else none
  fetchDs zone child :=
    if zone = [] ∧ child = [97] then some ([delegationDs], delegationRrsig) else none

/-- An address in a zone the root delegates to. -/
theorem delegated_of_secure_hop :
    ∃ links : List ZoneKeys, ZonePath (links.map (·.zone)) addressRrsig.signerName ∧
      nameLabels addressRrsig.signerName <:+ nameLabels [119, 46, 97] ∧
      Delegated hopCrypto hopSigned 1500 [rootDs] links ∧
      addressRrsig.typeCovered = 1 ∧ ∃ z, links.getLast? = some z ∧
        ∃ key ∈ z.keys, SignedAs hopSigned 1500 key [119, 46, 97] 1 [address] addressRrsig := by
  have hsecure : validateWithDelegation hopCrypto hopFetcher [119, 46, 97] [address] addressRrsig
      1500 rootDs 1 = .secure := by decide +kernel
  exact delegated_of_secure hopCrypto_sound hsecure

end Dnssec

end AthenaOS
