import AthenaOS.Dns.Dnssec
import AthenaOS.Lib.Utf8

/-!
# Responses

The two passes of `kernel/src/dns.rs` over a response packet, and the validation that puts
them together. Names are bytes, as in the validator.
-/

namespace AthenaOS

open Lib Dnssec

/-- `DnsQueryType`. -/
inductive DnsQueryType where
  | a
  | ns
  | cname
  | ptr
  | mx
  | txt
  | aaaa
  | srv
  | any
  deriving DecidableEq, Repr

namespace DnsQueryType

/-- `DnsQueryType::from_u16`. -/
def fromU16 (v : UInt16) : Option DnsQueryType :=
  match v.toNat with
  | 1 => some .a
  | 2 => some .ns
  | 5 => some .cname
  | 12 => some .ptr
  | 15 => some .mx
  | 16 => some .txt
  | 28 => some .aaaa
  | 33 => some .srv
  | 255 => some .any
  | _ => none

/-- `qtype as u16`. -/
def toU16 : DnsQueryType → UInt16
  | .a => 1
  | .ns => 2
  | .cname => 5
  | .ptr => 12
  | .mx => 15
  | .txt => 16
  | .aaaa => 28
  | .srv => 33
  | .any => 255

end DnsQueryType

/-- `DnsResponseCode`. -/
inductive DnsResponseCode where
  | noError
  | formError
  | servFail
  | nxDomain
  | notImpl
  | refused
  deriving DecidableEq, Repr

/-- `DnsResponseCode::from_u16`. -/
def DnsResponseCode.fromU16 (v : UInt16) : DnsResponseCode :=
  match v.toNat with
  | 0 => .noError
  | 1 => .formError
  | 2 => .servFail
  | 3 => .nxDomain
  | 4 => .notImpl
  | _ => .refused

/-- `DnsRecord`. -/
inductive DnsRecord where
  | a (addr : List UInt8)
  | aaaa (addr : List UInt8)
  | cname (name : DnsName)
  | mx (priority : UInt16) (exchange : DnsName)
  | txt (text : List UInt8)
  | ns (name : DnsName)
  | ptr (name : DnsName)
  | srv (priority weight port : UInt16) (target : DnsName)
  deriving DecidableEq, Repr

namespace Dns

/-! ## Fields -/

/-- `u16::from_be_bytes` at an index. -/
def u16At (data : List UInt8) (i : Nat) : UInt16 :=
  (data.getD i 0).toUInt16 <<< 8 ||| (data.getD (i + 1) 0).toUInt16

/-- `u32::from_be_bytes` at an index. -/
def u32At (data : List UInt8) (i : Nat) : UInt32 :=
  (data.getD i 0).toUInt32 <<< 24 ||| (data.getD (i + 1) 0).toUInt32 <<< 16 |||
    (data.getD (i + 2) 0).toUInt32 <<< 8 ||| (data.getD (i + 3) 0).toUInt32

/-- `data[i..i + n]`. -/
def bytesAt (data : List UInt8) (i n : Nat) : List UInt8 := (data.drop i).take n

/-- `DnsHeader`. -/
structure DnsHeader where
  id : UInt16
  flags : UInt16
  qdCount : UInt16
  anCount : UInt16
  nsCount : UInt16
  arCount : UInt16
  deriving DecidableEq, Repr

/-- `DnsHeader::parse`. -/
def DnsHeader.parse (data : List UInt8) : Option DnsHeader :=
  if data.length < 12 then none
  else some
    { id := u16At data 0, flags := u16At data 2, qdCount := u16At data 4, anCount := u16At data 6,
      nsCount := u16At data 8, arCount := u16At data 10 }

/-! ## Names -/

/-- The loop of `decode_name`: where it stands, where the first pointer was left, and the
name so far. -/
def decodeNameLoop (data : List UInt8) : Nat → Nat → Option Nat → DnsName → Option (DnsName × Nat)
  | 0, _, _, _ => none
  | steps + 1, pos, jump, name =>
    if data.length ≤ pos then none
    else
      let len := (data.getD pos 0).toNat
      if len = 0 then some (name, jump.getD (pos + 1))
      else if len &&& 0xC0 = 0xC0 then
        if data.length ≤ pos + 1 then none
        else decodeNameLoop data steps (((len &&& 0x3F) <<< 8) ||| (data.getD (pos + 1) 0).toNat)
          (some (jump.getD (pos + 2))) name
      else if data.length < pos + 1 + len then none
      else
        let label := bytesAt data (pos + 1) len
        if (Wire.ofUtf8? label).isNone then none
        else decodeNameLoop data steps (pos + 1 + len) jump
          ((if name = [] then name else name ++ [dot]) ++ label)

/-- `decode_name`: the name and where it ends. The counter stops it after 257 rounds. -/
def decodeName (data : List UInt8) (offset : Nat) : Option (DnsName × Nat) :=
  decodeNameLoop data 257 offset none []

/-- `to_ascii_lowercase`. -/
def lower (name : DnsName) : DnsName := name.map lowercase

/-! ## Questions -/

/-- A question: its name and type, and where it ends. -/
def readQuestion (data : List UInt8) (offset : Nat) : Option ((DnsName × UInt16) × Nat) := do
  let (name, off) ← decodeName data offset
  if data.length < off + 4 then none else some ((name, u16At data off), off + 4)

/-- The question section. -/
def readQuestions (data : List UInt8) : Nat → Nat → Option (List (DnsName × UInt16) × Nat)
  | 0, offset => some ([], offset)
  | count + 1, offset => do
    let (question, off) ← readQuestion data offset
    let (questions, off) ← readQuestions data count off
    some (question :: questions, off)

/-! ## Records -/

/-- The fixed part of a resource record, and where its RDATA is. -/
structure RawRr where
  name : DnsName
  rtype : UInt16
  rclass : UInt16
  ttl : UInt32
  start : Nat
  rdlength : Nat
  deriving DecidableEq, Repr

/-- A resource record, with the bounds both passes check. -/
def readRr (data : List UInt8) (offset : Nat) : Option RawRr := do
  let (name, off) ← decodeName data offset
  if data.length < off + 10 then none
  else
    let rr : RawRr :=
      { name := name, rtype := u16At data off, rclass := u16At data (off + 2), ttl := u32At data (off + 4),
        start := off + 10, rdlength := (u16At data (off + 8)).toNat }
    if data.length < rr.start + rr.rdlength then none else some rr

/-- Where the next record starts. -/
def RawRr.next (rr : RawRr) : Nat := rr.start + rr.rdlength

/-- The canonical record of `scan_dnssec_rrs`. -/
def RawRr.canonical (data : List UInt8) (rr : RawRr) : CanonicalRr :=
  ⟨rr.rtype, rr.rclass, bytesAt data rr.start rr.rdlength⟩

/-- The record of a known type, `none` inside for the ones that are skipped. A name that
cannot be read fails the whole parse. -/
def decodeRecord (data : List UInt8) (rr : RawRr) : Option (Option DnsRecord) :=
  match DnsQueryType.fromU16 rr.rtype with
  | some .a => some (if rr.rdlength = 4 then some (.a (bytesAt data rr.start 4)) else none)
  | some .aaaa => some (if rr.rdlength = 16 then some (.aaaa (bytesAt data rr.start 16)) else none)
  | some .cname => (decodeName data rr.start).map fun p => some (.cname p.1)
  | some .mx =>
    if 3 ≤ rr.rdlength then
      (decodeName data (rr.start + 2)).map fun p => some (.mx (u16At data rr.start) p.1)
    else some none
  | some .txt =>
    let text := bytesAt data rr.start rr.rdlength
    some (some (.txt (if (Wire.ofUtf8? text).isSome then text else [])))
  | some .ns => (decodeName data rr.start).map fun p => some (.ns p.1)
  | some .ptr => (decodeName data rr.start).map fun p => some (.ptr p.1)
  | some .srv =>
    if 7 ≤ rr.rdlength then
      (decodeName data (rr.start + 6)).map fun p =>
        some (.srv (u16At data rr.start) (u16At data (rr.start + 2)) (u16At data (rr.start + 4)) p.1)
    else some none
  | some .any | none => some none

/-- `parse_records_with_ttl`. -/
def parseRecordsWithTtl (data : List UInt8) : Nat → Nat → Option (List DnsRecord × List UInt32 × Nat)
  | 0, offset => some ([], [], offset)
  | count + 1, offset => do
    let rr ← readRr data offset
    let record ← decodeRecord data rr
    let (records, ttls, off) ← parseRecordsWithTtl data count rr.next
    match record with
    | none => some (records, ttls, off)
    | some r => some (r :: records, rr.ttl :: ttls, off)

/-! ## DNSSEC records -/

/-- `name.push(b as char)`. -/
def charBytes (b : UInt8) : List UInt8 := 
  if b < 128 then [b] else [(0xC0 : UInt8) ||| (b >>> 6), (0x80 : UInt8) ||| (b &&& 0x3F)]

/-- `read_uncompressed_name`; every round takes a byte at least. -/
def readUncompressedName (data : List UInt8) : Nat → Nat → DnsName → Option (DnsName × Nat)
  | 0, _, _ => none
  | steps + 1, off, name =>
    if data.length ≤ off then none
    else
      let len := (data.getD off 0).toNat
      if len = 0 then some (name, off + 1)
      else if len &&& 0xC0 ≠ 0 then none
      else if data.length < off + 1 + len then none
      else readUncompressedName data steps (off + 1 + len)
        ((if name = [] then name else name ++ [dot]) ++
          (bytesAt data (off + 1) len).flatMap fun b => charBytes (lowercase b))

/-- `parse_rrsig_rdata`. -/
def parseRrsigRdata (rdata : List UInt8) : Option Rrsig :=
  if rdata.length < 18 then none
  else
    match readUncompressedName rdata (rdata.length + 1) 18 [] with
    | none => none
    | some (signerName, off) =>
      let signature := rdata.drop off
      if signature = [] then none
      else some
        { typeCovered := u16At rdata 0, algorithm := rdata.getD 2 0, labels := rdata.getD 3 0,
          originalTtl := u32At rdata 4, sigExpiration := u32At rdata 8, sigInception := u32At rdata 12,
          keyTag := u16At rdata 16, signerName := signerName, signature := signature }

/-- `parse_dnskey_rdata`. -/
def parseDnskeyRdata (rdata : List UInt8) : Option Dnskey :=
  if rdata.length < 5 then none
  else some
    { flags := u16At rdata 0, protocol := rdata.getD 2 0, algorithm := rdata.getD 3 0,
      publicKey := rdata.drop 4 }

/-- `parse_ds_rdata`. -/
def parseDsRdata (rdata : List UInt8) : Option Ds :=
  if rdata.length < 5 then none
  else some
    { keyTag := u16At rdata 0, algorithm := rdata.getD 2 0, digestType := rdata.getD 3 0,
      digest := rdata.drop 4 }

/-- What the second pass gathers, each with its owner in lower case. -/
structure DnssecRrs where
  rrsigs : List (DnsName × Rrsig) := []
  dnskeys : List (DnsName × Dnskey) := []
  dss : List (DnsName × Ds) := []
  answers : List (DnsName × CanonicalRr) := []

/-- One record of the second pass; one that is malformed is dropped. -/
def scanRr (data : List UInt8) (isAnswer : Bool) (rr : RawRr) (found : DnssecRrs) : DnssecRrs :=
  let rdata := bytesAt data rr.start rr.rdlength
  let owner := lower rr.name
  match rr.rtype.toNat with
  | 46 => { found with rrsigs := found.rrsigs ++ ((parseRrsigRdata rdata).map (owner, ·)).toList }
  | 48 => { found with dnskeys := found.dnskeys ++ ((parseDnskeyRdata rdata).map (owner, ·)).toList }
  | 43 => { found with dss := found.dss ++ ((parseDsRdata rdata).map (owner, ·)).toList }
  | _ =>
    if isAnswer then { found with answers := found.answers ++ [(owner, rr.canonical data)] } else found

/-- A section of the second pass, and where it ends; `none` after a framing error. -/
def scanSection (data : List UInt8) (isAnswer : Bool) :
    Nat → Nat → DnssecRrs → DnssecRrs × Option Nat
  | 0, offset, found => (found, some offset)
  | count + 1, offset, found =>
    match readRr data offset with
    | none => (found, none)
    | some rr => scanSection data isAnswer count rr.next (scanRr data isAnswer rr found)

/-- A section, unless there was a framing error before. -/
def scanNext (data : List UInt8) (isAnswer : Bool) (count : UInt16) :
    DnssecRrs × Option Nat → DnssecRrs × Option Nat
  | (found, none) => (found, none)
  | (found, some offset) => scanSection data isAnswer count.toNat offset found

/-- `scan_dnssec_rrs`. -/
def scanDnssecRrs (data : List UInt8) : DnssecRrs :=
  match DnsHeader.parse data with
  | none => {}
  | some header =>
    match readQuestions data header.qdCount.toNat 12 with
    | none => {}
    | some (_, offset) =>
      (scanNext data false header.arCount (scanNext data false header.nsCount
        (scanNext data true header.anCount ({}, some offset)))).1

/-! ## Responses -/

/-- `DnsResponse`. -/
structure DnsResponse where
  id : UInt16
  authoritative : Bool
  truncated : Bool
  recursionAvailable : Bool
  rcode : DnsResponseCode
  answers : List DnsRecord
  answerTtls : List UInt32
  authority : List DnsRecord
  additional : List DnsRecord
  queryName : DnsName
  queryType : DnsQueryType
  rrsigs : List (DnsName × Rrsig)
  dnskeys : List (DnsName × Dnskey)
  dss : List (DnsName × Ds)
  answerCanonical : List (DnsName × CanonicalRr)

/-- The first question, with the values the parser starts from. -/
def firstQuestion (questions : List (DnsName × UInt16)) : DnsName × DnsQueryType :=
  match questions with
  | [] => ([], .a)
  | (name, qtype) :: _ => (name, (DnsQueryType.fromU16 qtype).getD .a)

/-- `parse_response`. -/
def parseResponse (data : List UInt8) : Option DnsResponse := do
  let header ← DnsHeader.parse data
  if header.flags &&& 0x8000 = 0 then none
  else do
    let (questions, offset) ← readQuestions data header.qdCount.toNat 12
    let (answers, answerTtls, offset) ← parseRecordsWithTtl data header.anCount.toNat offset
    let (authority, _, offset) ← parseRecordsWithTtl data header.nsCount.toNat offset
    let (additional, _, _) ← parseRecordsWithTtl data header.arCount.toNat offset
    let found := scanDnssecRrs data
    some
      { id := header.id
        authoritative := header.flags &&& 0x0400 ≠ 0
        truncated := header.flags &&& 0x0200 ≠ 0
        recursionAvailable := header.flags &&& 0x0080 ≠ 0
        rcode := .fromU16 (header.flags &&& 0x000F)
        answers := answers
        answerTtls := answerTtls
        authority := authority
        additional := additional
        queryName := (firstQuestion questions).1
        queryType := (firstQuestion questions).2
        rrsigs := found.rrsigs
        dnskeys := found.dnskeys
        dss := found.dss
        answerCanonical := found.answers }

/-! ## Validation -/

/-- `validate_chain_of_trust`: one hop, with the answer at the apex. -/
def validateChainOfTrust (crypto : DnssecCrypto) (anchor : Ds) (zoneDnskeys : List Dnskey)
    (dnskeyRrsig : Rrsig) (owner : DnsName) (answerRrset : List CanonicalRr) (answerRrsig : Rrsig)
    (nowUnix : UInt32) : DnssecStatus :=
  validateHop crypto [anchor] owner zoneDnskeys dnskeyRrsig owner answerRrset answerRrsig nowUnix

/-- The canonical records `validate_dnssec` takes for the answer. -/
def coveredEntries (resp : DnsResponse) : List (DnsName × CanonicalRr) :=
  resp.answerCanonical.filter fun p => p.1 = lower resp.queryName && p.2.rtype = resp.queryType.toU16

/-- `validate_dnssec`. -/
def validateDnssec (crypto : DnssecCrypto) (resp : DnsResponse) (trustAnchor : Ds) (nowUnix : UInt32) :
    DnssecStatus :=
  let owner := lower resp.queryName
  let dnskeys := (resp.dnskeys.filter (·.1 = owner)).map (·.2)
  if dnskeys = [] then .indeterminate
  else
    match resp.rrsigs.find? fun p => p.1 = owner && p.2.typeCovered = 48 with
    | none => .indeterminate
    | some (_, dnskeyRrsig) =>
      let answerRrset := (coveredEntries resp).map (·.2)
      if answerRrset = [] then .indeterminate
      else
        match resp.rrsigs.find? fun p => p.1 = owner && p.2.typeCovered = resp.queryType.toU16 with
        | none => .indeterminate
        | some (_, answerRrsig) =>
          validateChainOfTrust crypto trustAnchor dnskeys dnskeyRrsig owner answerRrset answerRrsig nowUnix

end Dns

end AthenaOS
