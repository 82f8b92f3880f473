import Mathlib

/-!
# DNSSEC validation

The validator of `kernel/src/dns.rs`: which bytes an RRSIG signs, how a DS record
confirms a DNSKEY, one hop of the chain of trust, and the walk from the root to the zone
that signed the answer. Names are the bytes of a `String`.
-/

namespace AthenaOS

/-- The bytes of a domain name, labels with dots between them. -/
abbrev DnsName : Type := List UInt8

/-- `DnssecAlgorithm`. -/
inductive DnssecAlgorithm where
  | rsaSha256
  | rsaSha512
  | ecdsaP256Sha256
  | ecdsaP384Sha384
  | ed25519
  deriving DecidableEq, Repr

/-- `DnssecAlgorithm::from_u8`. -/
def DnssecAlgorithm.fromU8 (v : UInt8) : Option DnssecAlgorithm :=
  match v.toNat with
  | 8 => some .rsaSha256
  | 10 => some .rsaSha512
  | 13 => some .ecdsaP256Sha256
  | 14 => some .ecdsaP384Sha384
  | 15 => some .ed25519
  | _ => none

/-- `DnssecStatus`. -/
inductive DnssecStatus where
  | secure
  | insecure
  | bogus
  | indeterminate
  deriving DecidableEq, Repr

/-- `CanonicalRr`. -/
structure CanonicalRr where
  rtype : UInt16
  rclass : UInt16
  rdata : List UInt8
  deriving DecidableEq, Repr

/-- `Rrsig`. -/
structure Rrsig where
  typeCovered : UInt16
  algorithm : UInt8
  labels : UInt8
  originalTtl : UInt32
  sigExpiration : UInt32
  sigInception : UInt32
  keyTag : UInt16
  signerName : DnsName
  signature : List UInt8
  deriving DecidableEq, Repr

/-- `Dnskey`. -/
structure Dnskey where
  flags : UInt16
  protocol : UInt8
  algorithm : UInt8
  publicKey : List UInt8
  deriving DecidableEq, Repr

/-- `Ds`. -/
structure Ds where
  keyTag : UInt16
  algorithm : UInt8
  digestType : UInt8
  digest : List UInt8
  deriving DecidableEq, Repr

/-- The cryptographic functions the validator calls. -/
structure DnssecCrypto where
  sha256 : List UInt8 → List UInt8
  /-- `ed25519::verify(pk, data, sig)`, and so on. -/
  ed25519Verify : List UInt8 → List UInt8 → List UInt8 → Bool
  p256Verify : List UInt8 → List UInt8 → List UInt8 → Bool
  p384Verify : List UInt8 → List UInt8 → List UInt8 → Bool
  /-- `rsa_pkcs1_sha256_verify(modulus, exponent, data, sig)`, and so on. -/
  rsaSha256Verify : List UInt8 → List UInt8 → List UInt8 → List UInt8 → Bool
  rsaSha512Verify : List UInt8 → List UInt8 → List UInt8 → List UInt8 → Bool

namespace Dnssec

/-! ## Bytes -/

/-- `u16::to_be_bytes`. -/
def be16 (v : UInt16) : List UInt8 := [(v >>> 8).toUInt8, v.toUInt8]

/-- `u32::to_be_bytes`. -/
def be32 (v : UInt32) : List UInt8 :=
  [(v >>> 24).toUInt8, (v >>> 16).toUInt8, (v >>> 8).toUInt8, v.toUInt8]

/-- `u8::to_ascii_lowercase`. -/
def lowercase (b : UInt8) : UInt8 := if 65 ≤ b ∧ b ≤ 90 then b + 32 else b

/-- The dot. -/
def dot : UInt8 := 46

/-- `trim_end_matches('.')`. -/
def trimEnd (name : DnsName) : DnsName := name.rdropWhile (· == dot)

/-- `split('.')` without the empty parts. -/
def splitLabels (name : DnsName) : List (List UInt8) := (name.splitOn dot).filter (· ≠ [])

/-- `encode_name_canonical`. -/
def encodeNameCanonical (name : DnsName) : List UInt8 :=
  (splitLabels (trimEnd name)).flatMap
    (fun label => UInt8.ofNat label.length :: label.map lowercase) ++ [0]

/-! ## Signatures -/

/-- The order of the records that are signed. -/
def rdataLe (a b : CanonicalRr) : Bool := decide ¬ b.rdata < a.rdata

/-- `dnssec_signed_data`. -/
def dnssecSignedData (rrsig : Rrsig) (owner : DnsName) (rrset : List CanonicalRr) : List UInt8 :=
  be16 rrsig.typeCovered ++ [rrsig.algorithm] ++ [rrsig.labels] ++ be32 rrsig.originalTtl ++
  be32 rrsig.sigExpiration ++ be32 rrsig.sigInception ++ be16 rrsig.keyTag ++
  encodeNameCanonical rrsig.signerName ++
  (rrset.insertionSort (rdataLe · ·)).flatMap fun rr =>
    encodeNameCanonical owner ++ be16 rr.rtype ++ be16 rr.rclass ++ be32 rrsig.originalTtl ++
    be16 (UInt16.ofNat rr.rdata.length) ++ rr.rdata

/-- The exponent and the modulus of an RSA key. -/
def rsaKey (pk : List UInt8) : Option (List UInt8 × List UInt8) := do
  let (expLen, off) ← match pk with
    | [] => none
    | 0 :: hi :: lo :: _ => some (hi.toNat <<< 8 ||| lo.toNat, 3)
    | 0 :: _ => none
    | len :: _ => some (len.toNat, 1)
  if expLen = 0 ∨ pk.length ≤ off + expLen then none
  else some ((pk.drop off).take expLen, pk.drop (off + expLen))

/-- What a check that could be made comes to. -/
def statusOf (ok : Bool) : DnssecStatus := if ok then .secure else .bogus

/-- `verify_rrsig`. -/
def verifyRrsig (crypto : DnssecCrypto) (rrsig : Rrsig) (dnskey : Dnskey) (owner : DnsName)
    (rrset : List CanonicalRr) : DnssecStatus :=
  if rrsig.algorithm ≠ dnskey.algorithm then .bogus
  else
    let data := dnssecSignedData rrsig owner rrset
    match DnssecAlgorithm.fromU8 rrsig.algorithm with
    | some .ed25519 =>
      if dnskey.publicKey.length ≠ 32 ∨ rrsig.signature.length ≠ 64 then .bogus
      else statusOf (crypto.ed25519Verify dnskey.publicKey data rrsig.signature)
    | some .ecdsaP256Sha256 => statusOf (crypto.p256Verify dnskey.publicKey data rrsig.signature)
    | some .rsaSha256 =>
      match rsaKey dnskey.publicKey with
      | none => .bogus
      | some (exponent, modulus) =>
        statusOf (crypto.rsaSha256Verify modulus exponent data rrsig.signature)
    | some .rsaSha512 =>
      match rsaKey dnskey.publicKey with
      | none => .bogus
      | some (exponent, modulus) =>
        statusOf (crypto.rsaSha512Verify modulus exponent data rrsig.signature)
    | some .ecdsaP384Sha384 => statusOf (crypto.p384Verify dnskey.publicKey data rrsig.signature)
    | none => .indeterminate

/-- `rrsig_time_valid`: both differences are below `2 ^ 31` on the circle. -/
def rrsigTimeValid (rrsig : Rrsig) (now : UInt32) : Bool :=
  now - rrsig.sigInception < 0x80000000 && rrsig.sigExpiration - now < 0x80000000

/-! ## Keys -/

/-- `dnskey_rdata`. -/
def dnskeyRdata (dnskey : Dnskey) : List UInt8 :=
  be16 dnskey.flags ++ [dnskey.protocol] ++ [dnskey.algorithm] ++ dnskey.publicKey

/-- `dnskey_key_tag`. -/
def dnskeyKeyTag (dnskey : Dnskey) : UInt16 :=
  let ac : UInt32 := (dnskeyRdata dnskey).zipIdx.foldl
    (fun ac (b, i) => ac + if i % 2 = 1 then b.toUInt32 else b.toUInt32 <<< 8) 0
  let ac := ac + ((ac >>> 16) &&& 0xFFFF)
  (ac &&& 0xFFFF).toUInt16

/-- `ds_rdata`. -/
def dsRdata (ds : Ds) : List UInt8 :=
  be16 ds.keyTag ++ [ds.algorithm] ++ [ds.digestType] ++ ds.digest

/-- `verify_ds`. -/
def verifyDs (crypto : DnssecCrypto) (ds : Ds) (dnskey : Dnskey) (owner : DnsName) : Bool :=
  if ds.keyTag ≠ dnskeyKeyTag dnskey ∨ ds.algorithm ≠ dnskey.algorithm then false
  else if ds.digestType ≠ 2 ∨ ds.digest.length ≠ 32 then false
  else crypto.sha256 (encodeNameCanonical owner ++ dnskeyRdata dnskey) = ds.digest

/-- The DNSKEY RRset in canonical form. -/
def dnskeyCanonical (keys : List Dnskey) : List CanonicalRr := keys.map fun k => ⟨48, 1, dnskeyRdata k⟩

/-- The DS RRset in canonical form. -/
def dsCanonical (dss : List Ds) : List CanonicalRr := dss.map fun d => ⟨43, 1, dsRdata d⟩

/-! ## One hop -/

/-- The first loop of `validate_hop`, over anchors and keys: the key that is confirmed,
and whether a key tag matched before. -/
def confirmKsk (crypto : DnssecCrypto) (zone : DnsName) :
    List (Ds × Dnskey) → Bool → Option Dnskey × Bool
  | [], tagMatchedButBad => (none, tagMatchedButBad)
  | (anchor, key) :: rest, tagMatchedButBad =>
    if dnskeyKeyTag key = anchor.keyTag then
      if verifyDs crypto anchor key zone then (some key, tagMatchedButBad)
      else confirmKsk crypto zone rest true
    else confirmKsk crypto zone rest tagMatchedButBad

/-- The second loop: the keys with the tag the signature names. -/
def verifyAnswer (crypto : DnssecCrypto) (owner : DnsName) (rrset : List CanonicalRr) (rrsig : Rrsig) :
    List Dnskey → Bool → DnssecStatus → DnssecStatus
  | [], sawZsk, verdict => if sawZsk then verdict else .indeterminate
  | key :: rest, sawZsk, verdict =>
    if dnskeyKeyTag key = rrsig.keyTag then
      match verifyRrsig crypto rrsig key owner rrset with
      | .secure => .secure
      | .indeterminate => verifyAnswer crypto owner rrset rrsig rest true .indeterminate
      | _ => verifyAnswer crypto owner rrset rrsig rest true .bogus
    else verifyAnswer crypto owner rrset rrsig rest sawZsk verdict

/-- `validate_hop`. -/
def validateHop (crypto : DnssecCrypto) (anchors : List Ds) (zone : DnsName) (zoneDnskeys : List Dnskey)
    (dnskeyRrsig : Rrsig) (answerOwner : DnsName) (answerRrset : List CanonicalRr)
    (answerRrsig : Rrsig) (nowUnix : UInt32) : DnssecStatus :=
  match confirmKsk crypto zone (anchors.flatMap fun a => zoneDnskeys.map (a, ·)) false with
  | (none, tagMatchedButBad) => if tagMatchedButBad then .bogus else .indeterminate
  | (some ksk, _) =>
    if !rrsigTimeValid dnskeyRrsig nowUnix then .bogus
    else
      match verifyRrsig crypto dnskeyRrsig ksk zone (dnskeyCanonical zoneDnskeys) with
      | .secure =>
        if !rrsigTimeValid answerRrsig nowUnix then .bogus
        else verifyAnswer crypto answerOwner answerRrset answerRrsig zoneDnskeys false .indeterminate
      | .indeterminate => .indeterminate
      | _ => .bogus

/-! ## The walk -/

end Dnssec

open Dnssec

/-- `DnssecFetcher`: whatever the network gives back for a zone. -/
structure DnssecFetcher where
  fetchDnskeys : DnsName → Option (List Dnskey × Rrsig)
  fetchDs : DnsName → DnsName → Option (List Ds × Rrsig)

namespace Dnssec

/-- `zone_chain`: the root first. -/
def zoneChain (zone : DnsName) : List DnsName :=
  let z := (trimEnd zone).map lowercase
  let labels := if z = [] then [] else splitLabels z
  [] :: (List.range labels.length).reverse.map fun i => [dot].intercalate (labels.drop i)

section Walk

variable (crypto : DnssecCrypto) (fetcher : DnssecFetcher) (owner : DnsName)
variable (answerRrset : List CanonicalRr) (answerRrsig : Rrsig) (nowUnix : UInt32)

/-- The loop of `validate_with_delegation`. -/
def walk : List Ds → List DnsName → DnssecStatus
  | _, [] => .indeterminate
  | trustedDs, zone :: rest =>
    match fetcher.fetchDnskeys zone with
    | none => .indeterminate
    | some (dnskeys, dnskeyRrsig) =>
      match rest with
      | [] => validateHop crypto trustedDs zone dnskeys dnskeyRrsig owner answerRrset answerRrsig nowUnix
      | childZone :: _ =>
        match fetcher.fetchDs zone childZone with
        | none => .indeterminate
        | some (childDs, dsRrsig) =>
          match validateHop crypto trustedDs zone dnskeys dnskeyRrsig childZone (dsCanonical childDs)
            dsRrsig nowUnix with
          | .secure => walk childDs rest
          | other => other

/-- `validate_with_delegation`. -/
def validateWithDelegation (rootAnchor : Ds) (qtype : UInt16) : DnssecStatus :=
  if answerRrsig.typeCovered ≠ qtype ∨ answerRrset.any (·.rtype ≠ qtype) then .indeterminate
  else
    let ownerLower := (trimEnd owner).map lowercase
    let ownerZone := (trimEnd answerRrsig.signerName).map lowercase
    let inZone := ownerZone = [] || ownerLower = ownerZone || (dot :: ownerZone).isSuffixOf ownerLower
    if !inZone then .indeterminate
    else walk crypto fetcher ownerLower answerRrset answerRrsig nowUnix [rootAnchor] (zoneChain ownerZone)

end Walk

end Dnssec

end AthenaOS
